import Lavoro.Lib.Raster

/-!
# Pictures side by side

Tiles are painted into an array one after the other, each as far as it is inside (`Painted`). Where no
two of them have a point in common, every one of them is to be seen in the end (`Painted.mosaic`).
The cells of a grid have no point in common (`cells_apart`).
-/

namespace Lavoro.Lib

variable {α : Type}

/-- A picture of `w` times `h` at `(x, y)`. -/
structure Tile (α : Type) where
  w : Nat
  h : Nat
  x : Int
  y : Int
  value : Nat → Nat → α

namespace Tile

def Has (t : Tile α) (p q : Nat) : Prop := Covers t.w t.h t.x t.y p q

/-- What the tile shows at the point `(p, q)` of the array. -/
def colour (t : Tile α) (p q : Nat) : α := t.value (q - t.y).toNat (p - t.x).toNat

/-- The tiles have no point in common. -/
def Apart (s t : Tile α) : Prop := ∀ p q, s.Has p q → ¬ t.Has p q

/-- The tile lies in the rectangle of `w` times `h` at `(x, y)`. -/
structure Within (w h : Nat) (x y : Int) (t : Tile α) : Prop where
  left : x ≤ t.x
  right : t.x + t.w ≤ x + w
  top : y ≤ t.y
  bottom : t.y + t.h ≤ y + h

theorem Within.has {w h p q : Nat} {x y : Int} {t : Tile α} (within : t.Within w h x y) (has : t.Has p q) :
    Covers w h x y p q := by
  obtain ⟨left, right, top, bottom⟩ := within
  unfold Has Covers at has
  unfold Covers
  omega

end Tile

/-- Every tile is shown in `g`, and elsewhere `g` is `f`. -/
structure Mosaic (W H : Nat) (f : Nat → α) (tiles : List (Tile α)) (g : Nat → α) : Prop where
  tile : ∀ t ∈ tiles, ∀ p q, p < W → q < H → t.Has p q → g (q * W + p) = t.colour p q
  ground : ∀ p q, p < W → q < H → (∀ t ∈ tiles, ¬ t.Has p q) → g (q * W + p) = f (q * W + p)

/-- The tiles have been painted, the first one first. -/
inductive Painted (W H : Nat) : (Nat → α) → List (Tile α) → (Nat → α) → Prop where
  | nil {f : Nat → α} : Painted W H f [] f
  | cons {f g h : Nat → α} {t : Tile α} {tiles : List (Tile α)}
      (first : Clips W H t.w t.h t.x t.y t.value f g) (others : Painted W H g tiles h) : Painted W H f (t :: tiles) h

namespace Painted

variable {W H : Nat} {f g h : Nat → α} {tiles more : List (Tile α)}

theorem append (first : Painted W H f tiles g) (others : Painted W H g more h) : Painted W H f (tiles ++ more) h := by
  induction first with
  | nil => exact others
  | cons clips _ ih => exact .cons clips (ih others)

/-- A point of no tile is left alone. -/
theorem ground (painted : Painted W H f tiles g) {p q : Nat} (left : p < W) (up : q < H)
    (none : ∀ t ∈ tiles, ¬ t.Has p q) : g (q * W + p) = f (q * W + p) := by
  induction painted with
  | nil => rfl
  | cons clips _ ih =>
    obtain ⟨first, others⟩ := List.forall_mem_cons.1 none
    rw [ih others]
    exact (clips p q left up).2 first

/-- **Tiles without a common point** make a mosaic. -/
theorem mosaic (painted : Painted W H f tiles g) (apart : tiles.Pairwise Tile.Apart) : Mosaic W H f tiles g := by
  refine ⟨fun t mem p q left up has => ?_, fun p q left up none => painted.ground left up none⟩
  induction painted with
  | nil => cases mem
  | cons clips others ih =>
    obtain ⟨first, rest⟩ := List.pairwise_cons.1 apart
    rcases List.mem_cons.1 mem with rfl | later
    · -- what comes behind does not touch the point
      rw [others.ground left up fun s inOthers => first s inOthers p q has]
      exact (clips p q left up).1 has
    · exact ih rest later

end Painted

/-- Two cells of a grid of so many columns. -/
theorem cells_apart {columns w h i j p q : Nat}
    (here : Covers w h ((i % columns * w : Nat) : Int) ((i / columns * h : Nat) : Int) p q)
    (there : Covers w h ((j % columns * w : Nat) : Int) ((j / columns * h : Nat) : Int) p q) : i = j := by
  -- the cell of a point is found by division
  have column (k : Nat) (low : k * w ≤ p) (high : p < k * w + w) : p / w = k := by
    apply Nat.div_eq_of_lt_le low
    rwa [Nat.succ_mul]
  have row (k : Nat) (low : k * h ≤ q) (high : q < k * h + h) : q / h = k := by
    apply Nat.div_eq_of_lt_le low
    rwa [Nat.succ_mul]
  unfold Covers at here there
  have columns' : i % columns = j % columns := by
    rw [← column (i % columns) (by omega) (by omega), column (j % columns) (by omega) (by omega)]
  have rows : i / columns = j / columns := by
    rw [← row (i / columns) (by omega) (by omega), row (j / columns) (by omega) (by omega)]
  rw [← Nat.div_add_mod i columns, ← Nat.div_add_mod j columns, columns', rows]

end Lavoro.Lib
