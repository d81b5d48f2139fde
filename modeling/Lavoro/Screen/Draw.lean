import Mathlib.Data.Nat.Find
import Lavoro.Lib.Loop
import Lavoro.Lib.Raster
import Lavoro.Screen.LScreen

/-!
# Drawing a screen onto another (`LScreen::Draw`)

`Draw` puts the source's cells, row by row, into the target with `SetBuffer`, which compares
the index of the cell with `W * H` and nothing else. The cells written are those of `putRows`
as long as no index wraps round (`drawAt_eq`); where one does, `SetBuffer` writes in front of
the array (`drawAt_traps`).
-/

namespace Lavoro.Screen
open Lib

/-- A size that a screen can have. -/
structure Extent where
  w : Nat
  h : Nat
  width : w < 2147483648
  height : h < 2147483648
  area : w * h < 2147483648

namespace LScreen

/-- The screen is of this size, and its array has a cell for every point. -/
structure Has (s : LScreen) (e : Extent) : Prop where
  w : s.w = BitVec.ofNat 32 e.w
  h : s.h = BitVec.ofNat 32 e.h
  size : s.pixels.size = e.w * e.h
  inside : s.pixels.outside = false

/-- The body of the loops of `Draw`, at the column `j` of the row `i`. -/
def drawPixel (source : LScreen) (x y : BitVec 32) (i j : Nat) (s : LScreen) : LScreen :=
  match source.getBuffer (BitVec.ofNat 32 j) (BitVec.ofNat 32 i) with
  | some value => s.setBuffer (x + BitVec.ofNat 32 j) (y + BitVec.ofNat 32 i) value
  | none => { s with pixels := s.pixels.trap }

/-- The inner loop of `Draw`. -/
def drawRow (source : LScreen) (x y : BitVec 32) (s : LScreen) (i : Nat) : LScreen :=
  (List.range source.w.toNat).foldl (fun s j => drawPixel source x y i j s) s

/-- `Draw(screen, x, y)`. -/
def drawAt (target source : LScreen) (x y : BitVec 32) : LScreen :=
  (List.range source.h.toNat).foldl (drawRow source x y) target

end LScreen

/-- A screen with its place `X`, `Y`. -/
structure Placed extends LScreen where
  x : BitVec 32
  y : BitVec 32

/-- `Draw(screen)`. -/
def LScreen.draw (target : LScreen) (source : Placed) : LScreen :=
  target.drawAt source.toLScreen source.x source.y

/-! ## The cells written -/

namespace LScreen

theorem Has.toNat_w {s : LScreen} {e : Extent} (has : s.Has e) : s.w.toNat = e.w := by
  rw [has.w, toNat_word e.width]

theorem Has.toNat_h {s : LScreen} {e : Extent} (has : s.Has e) : s.h.toNat = e.h := by
  rw [has.h, toNat_word e.height]

/-- The same screen with other cells. -/
def withCells (s : LScreen) (cells : Nat → BitVec 32) : LScreen :=
  { s with pixels := { s.pixels with cells } }

/-- The cell `(j, i)` of a screen of `w` columns. -/
def value (source : LScreen) (w i j : Nat) : BitVec 32 := source.pixels.cells (i * w + j)

/-- The index of the first cell that `Draw` writes. -/
def base (e : Extent) (x y : BitVec 32) : BitVec 32 := y * BitVec.ofNat 32 e.w + x

section Index

variable {e f : Extent} {x y : BitVec 32} {i j : Nat}

theorem has_withCells {s : LScreen} (has : s.Has e) (cells : Nat → BitVec 32) : (s.withCells cells).Has e :=
  ⟨has.w, has.h, has.size, has.inside⟩

theorem index_eq (e : Extent) (x y : BitVec 32) (i j : Nat) :
    (y + BitVec.ofNat 32 i) * BitVec.ofNat 32 e.w + (x + BitVec.ofNat 32 j) =
      base e x y + BitVec.ofNat 32 (i * e.w + j) := by
  rw [base, BitVec.ofNat_add, BitVec.ofNat_mul]
  grind

theorem toNat_index (e : Extent) (x y : BitVec 32) (i j : Nat) :
    (base e x y + BitVec.ofNat 32 (i * e.w + j)).toNat =
      ((base e x y).toNat + (i * e.w + j)) % 4294967296 := by
  rw [BitVec.toNat_add, BitVec.toNat_ofNat]
  omega

/-- `SetBuffer` in front of the array. -/
theorem setBuffer_negative {s : LScreen} (w : s.w = BitVec.ofNat 32 e.w) (h : s.h = BitVec.ofNat 32 e.h)
    (v : BitVec 32) (negative : (base e x y + BitVec.ofNat 32 (i * e.w + j)).msb = true) :
    s.setBuffer (x + BitVec.ofNat 32 j) (y + BitVec.ofNat 32 i) v = { s with pixels := s.pixels.trap } := by
  have area : BitVec.ofNat 32 e.w * BitVec.ofNat 32 e.h = BitVec.ofNat 32 (e.w * e.h) := by
    rw [BitVec.ofNat_mul]
  unfold setBuffer
  simp only [w, h, index_eq, area, slt_of_negative e.area negative, negative, if_true]

/-- `SetBuffer` at an index that is not negative. -/
theorem setBuffer_positive {s : LScreen} (has : s.Has e) (v : BitVec 32)
    (small : (base e x y).toNat + (i * e.w + j) < 2147483648) :
    s.setBuffer (x + BitVec.ofNat 32 j) (y + BitVec.ofNat 32 i) v =
      s.withCells (putRow (e.w * e.h) ((base e x y).toNat + (i * e.w + j)) 1 (fun _ => v) s.pixels.cells) := by
  have area : BitVec.ofNat 32 e.w * BitVec.ofNat 32 e.h = BitVec.ofNat 32 (e.w * e.h) := by
    rw [BitVec.ofNat_mul]
  have index := toNat_index e x y i j
  rw [Nat.mod_eq_of_lt (by omega)] at index
  have positive : (base e x y + BitVec.ofNat 32 (i * e.w + j)).msb = false := by
    rw [BitVec.msb_eq_false_iff_two_mul_lt, index]
    omega
  have test := slt_iff_of_positive e.area positive
  rw [index] at test
  unfold setBuffer
  simp only [has.w, has.h, index_eq, area, positive, index, Bool.false_eq_true, if_false]
  by_cases inside : (base e x y).toNat + (i * e.w + j) < e.w * e.h
  · rw [if_pos (test.2 inside), Pixels.put, if_pos (has.size ▸ inside), putRow_one_inside inside, ← has.w, ← has.h]
    rfl
  · rw [if_neg (mt test.1 inside), putRow_one_behind (Nat.le_of_not_lt inside)]
    rfl

/-- `GetBuffer` of the source gives a cell of it. -/
theorem drawPixel_eq {source : LScreen} (has : source.Has f) (row : i < f.h) (column : j < f.w)
    (s : LScreen) :
    drawPixel source x y i j s =
      s.setBuffer (x + BitVec.ofNat 32 j) (y + BitVec.ofNat 32 i) (source.value f.w i j) := by
  have cell := @getBuffer_inside source.pixels _ _ _ _ f.area column row
  rw [← has.w, ← has.h] at cell
  unfold drawPixel
  rw [cell]
  rfl

end Index

section Loops

variable {e f : Extent} {target source : LScreen} {x y : BitVec 32} {i : Nat}

/-- **A row** without a wrap. -/
theorem drawRow_eq (has : target.Has e) (from' : source.Has f) (row : i < f.h)
    (small : (base e x y).toNat + (i * e.w + (f.w - 1)) < 2147483648) (cells : Nat → BitVec 32) :
    drawRow source x y (target.withCells cells) i =
      target.withCells (putRow (e.w * e.h) ((base e x y).toNat + i * e.w) f.w (source.value f.w i) cells) := by
  have columns : ∀ m, m ≤ f.w →
      (List.range m).foldl (fun s j => drawPixel source x y i j s) (target.withCells cells) =
        target.withCells (putRow (e.w * e.h) ((base e x y).toNat + i * e.w) m (source.value f.w i) cells) := by
    intro m le
    induction m with
    | zero =>
      rw [putRow_zero]
      rfl
    | succ m ih =>
      rw [List.range_succ, List.foldl_append, ih (Nat.le_of_succ_le le), List.foldl_cons, List.foldl_nil,
        drawPixel_eq from' row le, setBuffer_positive (has_withCells has _) _ (by omega),
        putRow_succ _ _ m, Nat.add_assoc _ _ m]
      rfl
  rw [drawRow, from'.toNat_w]
  exact columns f.w (Nat.le_refl _)

/-- **All rows**, without a wrap. -/
theorem drawAt_eq (has : target.Has e) (from' : source.Has f)
    (small : (base e x y).toNat + (f.h - 1) * e.w + (f.w - 1) < 2147483648) :
    target.drawAt source x y =
      target.withCells (putRows (e.w * e.h) e.w (base e x y).toNat f.w (source.value f.w)
        target.pixels.cells f.h) := by
  have rows : ∀ m, m ≤ f.h →
      (List.range m).foldl (drawRow source x y) target =
        target.withCells (putRows (e.w * e.h) e.w (base e x y).toNat f.w (source.value f.w)
          target.pixels.cells m) := by
    intro m le
    induction m with
    | zero => rfl
    | succ m ih =>
      have above : m * e.w ≤ (f.h - 1) * e.w := Nat.mul_le_mul_right e.w (by omega)
      rw [List.range_succ, List.foldl_append, ih (Nat.le_of_succ_le le), List.foldl_cons, List.foldl_nil,
        drawRow_eq has from' le (by omega), putRows]
  rw [drawAt, from'.toNat_h]
  exact rows f.h (Nat.le_refl _)

/-- Where an index wraps round, some cell of the picture has a negative one. -/
theorem negative_index (wide : 0 < f.w) (some : 0 < f.h)
    (wraps : 2147483648 ≤ (base e x y).toNat + (f.h - 1) * e.w + (f.w - 1)) :
    ∃ i j, i < f.h ∧ j < f.w ∧ (base e x y + BitVec.ofNat 32 (i * e.w + j)).msb = true := by
  have exceeds : ∃ i, 2147483648 ≤ (base e x y).toNat + i * e.w + (f.w - 1) := ⟨f.h - 1, wraps⟩
  -- the first row whose end is behind the last index that is not negative
  have first := Nat.find_spec exceeds
  have earlier : ∀ i, i < Nat.find exceeds → (base e x y).toNat + i * e.w + (f.w - 1) < 2147483648 :=
    fun i lt => Nat.lt_of_not_le (Nat.find_min exceeds lt)
  have row : Nat.find exceeds < f.h := by
    have le := Nat.find_min' exceeds wraps
    omega
  have bound := (base e x y).isLt
  have width := e.width
  have width' := f.width
  generalize Nat.find exceeds = i at first earlier row
  have negative (j : Nat) (low : 2147483648 ≤ (base e x y).toNat + (i * e.w + j))
      (high : (base e x y).toNat + (i * e.w + j) < 4294967296) :
      (base e x y + BitVec.ofNat 32 (i * e.w + j)).msb = true := by
    rw [BitVec.msb_eq_true_iff_two_mul_ge, toNat_index, Nat.mod_eq_of_lt high]
    omega
  by_cases start : 2147483648 ≤ (base e x y).toNat + i * e.w
  · refine ⟨i, 0, row, wide, negative 0 (by omega) ?_⟩
    cases i with
    | zero => omega
    | succ i =>
      have before := earlier i (Nat.lt_succ_self i)
      rw [Nat.succ_mul]
      omega
  · refine ⟨i, 2147483648 - ((base e x y).toNat + i * e.w), row, by omega, negative _ (by omega) (by omega)⟩

/-- `SetBuffer` keeps the size, and an access outside stays recorded. -/
theorem setBuffer_keeps (s : LScreen) (x y v : BitVec 32) :
    (s.setBuffer x y v).w = s.w ∧ (s.setBuffer x y v).h = s.h ∧
      (s.pixels.outside = true → (s.setBuffer x y v).pixels.outside = true) := by
  unfold setBuffer Pixels.put Pixels.trap
  simp only
  split
  · refine ⟨rfl, rfl, fun out => ?_⟩
    simp only
    split
    · rfl
    · split
      · exact out
      · rfl
  · exact ⟨rfl, rfl, id⟩

theorem drawPixel_keeps (source : LScreen) (x y : BitVec 32) (i j : Nat) (s : LScreen) :
    (drawPixel source x y i j s).w = s.w ∧ (drawPixel source x y i j s).h = s.h ∧
      (s.pixels.outside = true → (drawPixel source x y i j s).pixels.outside = true) := by
  unfold drawPixel
  split
  · exact setBuffer_keeps s _ _ _
  · exact ⟨rfl, rfl, fun _ => rfl⟩

/-- The size of a target. -/
def Sized (e : Extent) (s : LScreen) : Prop := s.w = BitVec.ofNat 32 e.w ∧ s.h = BitVec.ofNat 32 e.h

theorem Has.sized {s : LScreen} {e : Extent} (has : s.Has e) : Sized e s := ⟨has.w, has.h⟩

theorem Sized.toNat_w {s : LScreen} {e : Extent} (sized : Sized e s) : s.w.toNat = e.w := by
  rw [sized.1, toNat_word e.width]

theorem Sized.toNat_h {s : LScreen} {e : Extent} (sized : Sized e s) : s.h.toNat = e.h := by
  rw [sized.2, toNat_word e.height]

def Trapped (s : LScreen) : Prop := s.pixels.outside = true

theorem drawRow_keeps (source : LScreen) (x y : BitVec 32) (s : LScreen) (i : Nat) :
    (Sized e s → Sized e (drawRow source x y s i)) ∧ (Trapped s → Trapped (drawRow source x y s i)) := by
  constructor
  · intro sized
    refine List.foldlRecOn _ _ sized fun t ht j _ => ?_
    obtain ⟨w, h, -⟩ := drawPixel_keeps source x y i j t
    exact ⟨w.trans ht.1, h.trans ht.2⟩
  · intro trapped
    exact List.foldlRecOn _ _ trapped fun t ht j _ => (drawPixel_keeps source x y i j t).2.2 ht

/-- **An index that wraps round** is written in front of the array. -/
theorem drawAt_traps (has : target.Has e) (from' : source.Has f) (wide : 0 < f.w) (some : 0 < f.h)
    (wraps : 2147483648 ≤ (base e x y).toNat + (f.h - 1) * e.w + (f.w - 1)) :
    Trapped (target.drawAt source x y) := by
  obtain ⟨i, j, row, column, negative⟩ := negative_index wide some wraps
  have here : ∀ s, Sized e s → Trapped (drawPixel source x y i j s) := by
    intro s sized
    rw [drawPixel_eq from' row column, setBuffer_negative sized.1 sized.2 _ negative]
    rfl
  have inRow : ∀ s, Sized e s → Trapped (drawRow source x y s i) := by
    intro s sized
    refine Loop.foldl_reaches (fun t j ht => ?_) (fun t j => (drawPixel_keeps source x y i j t).2.2)
      (List.mem_range.2 (from'.toNat_w ▸ column)) here sized
    obtain ⟨w, h, -⟩ := drawPixel_keeps source x y i j t
    exact ⟨w.trans ht.1, h.trans ht.2⟩
  exact Loop.foldl_reaches (fun t i => (drawRow_keeps source x y t i).1)
    (fun t i => (drawRow_keeps (e := e) source x y t i).2) (List.mem_range.2 (from'.toNat_h ▸ row)) inRow
    ⟨has.w, has.h⟩

end Loops

/-! ## When the source is clipped -/

/-- The target with as much of the source at `(x, y)` as is inside, and no access outside. -/
structure Clipped (e f : Extent) (x y : Int) (target source result : LScreen) : Prop where
  has : result.Has e
  cells : Clips e.w e.h f.w f.h x y (source.value f.w) target.pixels.cells result.pixels.cells

/-- A screen of size `f` is drawn at `(x, y)` onto one of size `e` without an index that is
negative or wraps round; and it is drawn behind the array, or no row runs into cells that it does
not cover. -/
def DrawsInside (e f : Extent) (x y : Int) : Prop :=
  let first := (y * e.w + x).bmod 4294967296
  f.w = 0 ∨ f.h = 0 ∨
    (0 ≤ first ∧ first + (f.h - 1) * e.w + (f.w - 1) < 2147483648 ∧
      (e.w * e.h ≤ first ∨ Fits e.w e.h f.w f.h x y))

/-- A screen of this size. -/
def ofCells (e : Extent) (cells : Nat → BitVec 32) : LScreen :=
  ⟨BitVec.ofNat 32 e.w, BitVec.ofNat 32 e.h, ⟨e.w * e.h, cells, false⟩⟩

theorem has_ofCells (e : Extent) (cells : Nat → BitVec 32) : (ofCells e cells).Has e := ⟨rfl, rfl, rfl, rfl⟩

section Clip

variable {e f : Extent} {x y : BitVec 32}

theorem toInt_base (e : Extent) (x y : BitVec 32) :
    (base e x y).toInt = (y.toInt * e.w + x.toInt).bmod 4294967296 := by
  rw [base, BitVec.toInt_add, BitVec.toInt_mul, toInt_word e.width]
  exact Int.bmod_add_bmod

/-- The first index, as a number, is the place of the point up to a wrap. -/
theorem base_place (e : Extent) (x y : BitVec 32) :
    ((base e x y).toNat : Int) ≡ y.toInt * e.w + x.toInt [ZMOD (4294967296 : Nat)] := by
  have signed : (base e x y).toInt ≡ (base e x y).toNat [ZMOD (4294967296 : Nat)] := by
    rw [BitVec.toInt_eq_toNat_bmod]
    exact Int.bmod_emod
  rw [toInt_base] at signed
  exact signed.symm.trans Int.bmod_emod

/-- Without a negative index the first one is that of the condition. -/
theorem toInt_base_of_small (small : (base e x y).toNat < 2147483648) :
    (base e x y).toInt = (base e x y).toNat := by
  apply BitVec.toInt_eq_toNat_of_msb
  rw [BitVec.msb_eq_false_iff_two_mul_lt]
  omega

theorem toNat_base_of_nonneg (nonneg : 0 ≤ (base e x y).toInt) :
    ((base e x y).toNat : Int) = (base e x y).toInt := by
  have positive : (base e x y).msb = false := by
    rw [BitVec.msb_eq_toInt]
    exact decide_eq_false (Int.not_lt.2 nonneg)
  rw [BitVec.toInt_eq_toNat_of_msb positive]

/-- No index wraps round, in terms of the first one. -/
theorem noWrap_iff (some : 0 < f.h) (wide : 0 < f.w) :
    0 ≤ (base e x y).toInt ∧ (base e x y).toInt + (f.h - 1) * e.w + (f.w - 1) < 2147483648 ↔
      (base e x y).toNat + (f.h - 1) * e.w + (f.w - 1) < 2147483648 := by
  have rows : ((f.h - 1 : Nat) : Int) = f.h - 1 := by omega
  have columns : ((f.w - 1 : Nat) : Int) = f.w - 1 := by omega
  constructor
  · rintro ⟨nonneg, small⟩
    rw [← toNat_base_of_nonneg nonneg, ← rows, ← columns] at small
    exact_mod_cast small
  · intro small
    rw [toInt_base_of_small (by omega), ← rows, ← columns]
    exact ⟨Int.natCast_nonneg _, by exact_mod_cast small⟩

/-- A source without cells is not drawn. -/
theorem drawAt_empty {target source : LScreen} (from' : source.Has f) (empty : f.w = 0 ∨ f.h = 0) :
    target.drawAt source x y = target := by
  rcases empty with narrow | flat
  · have row : ∀ s i, drawRow source x y s i = s := by
      intro s i
      rw [drawRow, from'.toNat_w, narrow]
      rfl
    unfold drawAt
    exact List.foldlRecOn (motive := fun s => s = target) _ _ rfl fun t ht i _ => (row t i).trans ht
  · rw [drawAt, from'.toNat_h, flat]
    rfl

/-- Without a wrap the source is clipped when the picture in its array is. -/
theorem clipped_iff_putRows (small : (base e x y).toNat + (f.h - 1) * e.w + (f.w - 1) < 2147483648) :
    (∀ target source : LScreen, target.Has e → source.Has f →
        Clipped e f x.toInt y.toInt target source (target.drawAt source x y)) ↔
      ∀ (u : Nat → BitVec 32) g,
        Clips e.w e.h f.w f.h x.toInt y.toInt (fun i j => u (i * f.w + j)) g
          (putRows (e.w * e.h) e.w (base e x y).toNat f.w (fun i j => u (i * f.w + j)) g f.h) := by
  constructor
  · intro clipped u g
    have drawn := (clipped (ofCells e g) (ofCells f u) (has_ofCells e g) (has_ofCells f u)).cells
    rw [drawAt_eq (has_ofCells e g) (has_ofCells f u) small] at drawn
    exact drawn
  · intro clips target source has from'
    rw [drawAt_eq has from' small]
    exact ⟨has_withCells has _, clips source.pixels.cells target.pixels.cells⟩

/-- Where an index wraps round, not even a blank screen is drawn inside. -/
theorem not_clipped_of_large {e f : Extent} {x y : BitVec 32} (wide : 0 < f.w) (some : 0 < f.h)
    (large : 2147483648 ≤ (base e x y).toNat + (f.h - 1) * e.w + (f.w - 1)) :
    ¬ ∀ target source : LScreen, target.Has e → source.Has f →
      Clipped e f x.toInt y.toInt target source (target.drawAt source x y) := by
  intro clipped
  have blank := clipped (ofCells e fun _ => 0) (ofCells f fun _ => 0) (has_ofCells e _) (has_ofCells f _)
  have trapped := drawAt_traps (has_ofCells e fun _ => 0) (has_ofCells f fun _ => 0) wide some
    (x := x) (y := y) large
  rw [Trapped, blank.has.inside] at trapped
  cases trapped

theorem drawAt_clips_iff (e f : Extent) (x y : BitVec 32) :
    (∀ target source : LScreen, target.Has e → source.Has f →
        Clipped e f x.toInt y.toInt target source (target.drawAt source x y)) ↔
      DrawsInside e f x.toInt y.toInt := by
  unfold DrawsInside
  rw [← toInt_base]
  by_cases empty : f.w = 0 ∨ f.h = 0
  · refine iff_of_true (fun target source has from' => ?_) (or_assoc.1 (.inl empty))
    rw [drawAt_empty from' empty]
    refine ⟨has, fun p q _ _ => ⟨fun covers => ?_, fun _ => rfl⟩⟩
    unfold Covers at covers
    omega
  · obtain ⟨wide, some⟩ := not_or.1 empty
    have wide := Nat.pos_of_ne_zero wide
    have some := Nat.pos_of_ne_zero some
    have noWrap := noWrap_iff (e := e) (x := x) (y := y) some wide
    by_cases small : (base e x y).toNat + (f.h - 1) * e.w + (f.w - 1) < 2147483648
    · have area := e.area
      have two : Nontrivial (BitVec 32) := ⟨0, 1, by decide⟩
      rw [clipped_iff_putRows small, putRows_clips_iff wide some (base_place e x y)
        (Nat.lt_trans small (by decide)) (show e.w * e.h ≤ 4294967296 by omega)]
      have nonneg := noWrap.2 small
      have cells : (e.w * e.h : Int) ≤ (base e x y).toInt ↔ e.w * e.h ≤ (base e x y).toNat := by
        rw [← toNat_base_of_nonneg nonneg.1]
        exact_mod_cast Iff.rfl
      rw [← cells]
      constructor
      · exact fun drawn => .inr (.inr ⟨nonneg.1, nonneg.2, drawn⟩)
      · rintro (narrow | flat | ⟨-, -, drawn⟩)
        · exact absurd narrow (Nat.ne_of_gt wide)
        · exact absurd flat (Nat.ne_of_gt some)
        · exact drawn
    · apply iff_of_false (not_clipped_of_large wide some (Nat.le_of_not_lt small))
      rintro (narrow | flat | ⟨nonneg, inside, -⟩)
      · omega
      · omega
      · exact small (noWrap.1 ⟨nonneg, inside⟩)

/-- **When drawing clips**, for both overloads: exactly when the source is drawn without a negative
index and fits, or lies behind the array. -/
theorem draw_clips_iff (e f : Extent) (x y : BitVec 32) :
    ((∀ target source : LScreen, target.Has e → source.Has f →
        Clipped e f x.toInt y.toInt target source (target.drawAt source x y)) ↔
      DrawsInside e f x.toInt y.toInt) ∧
    ((∀ (target : LScreen) (source : Placed), source.x = x → source.y = y → target.Has e →
        source.toLScreen.Has f →
        Clipped e f x.toInt y.toInt target source.toLScreen (target.draw source)) ↔
      DrawsInside e f x.toInt y.toInt) := by
  refine ⟨drawAt_clips_iff e f x y, ?_⟩
  rw [← drawAt_clips_iff]
  constructor
  · intro clipped target source has from'
    exact clipped target ⟨source, x, y⟩ rfl rfl has from'
  · rintro clipped target source rfl rfl has from'
    exact clipped target source.toLScreen has from'

end Clip

/-- A screen of two by two, and one of two by one. -/
def square : Extent := ⟨2, 2, by decide, by decide, by decide⟩

def line : Extent := ⟨2, 1, by decide, by decide, by decide⟩

/-- A line drawn at `(1, 0)` runs on in the next row of the square. -/
theorem line_not_clipped :
    ¬ ∀ target source : LScreen, target.Has square → source.Has line →
      Clipped square line 1 0 target source (target.drawAt source 1 0) := by
  intro clipped
  have drawn := clipped (ofCells square fun _ => 0) (ofCells line fun _ => 1) (has_ofCells _ _)
    (has_ofCells _ _)
  have cell := (drawn.cells 0 1 (by decide) (by decide)).2
  have out : ¬ Covers 2 1 1 0 0 1 := by
    unfold Covers
    omega
  exact absurd (cell out) (by decide)

end LScreen

end Lavoro.Screen
