import Mathlib.Data.List.Chain
import Mathlib.Order.Basic

/-!
# Setting boxes in lines

A pen moves over a page of width `W` whose lines are `size` high; where a box would reach the right edge
it is set at the beginning of the next line. `cells` are the places of the boxes, each with what it is a box
of. As long as the pen goes back to the left edge only in front of a line feed, no two of them overlap
(`cells_apart`), however the moves are mixed.
-/

namespace Lavoro.Lib

/-- What the pen does. -/
inductive Move (α : Type) where
  | home
  | down
  | right (d : Nat)
  | box (a : α) (w : Nat)
  deriving Repr, DecidableEq

/-- Where the pen is. -/
structure Pen where
  x : Nat
  y : Nat
  deriving Repr, DecidableEq

/-- A box of `a` that has been set at `(x, y)`. -/
structure Cell (α : Type) where
  a : α
  x : Nat
  y : Nat
  w : Nat
  deriving Repr, DecidableEq

namespace Typeset

variable {α : Type} (W size : Nat)

/-- Where the next box is set. -/
def wrap (w : Nat) (p : Pen) : Pen := if W ≤ p.x + w then ⟨0, p.y + size⟩ else p

/-- The pen behind a move. -/
def next : Move α → Pen → Pen
  | .home, p => ⟨0, p.y⟩
  | .down, p => ⟨p.x, p.y + size⟩
  | .right d, p => ⟨p.x + d, p.y⟩
  | .box _ w, p => ⟨(wrap W size w p).x + w, (wrap W size w p).y⟩

/-- The box that a move sets. -/
def set : Move α → Pen → List (Cell α)
  | .box a w, p => [⟨a, (wrap W size w p).x, (wrap W size w p).y, w⟩]
  | _, _ => []

def cells : List (Move α) → Pen → List (Cell α)
  | [], _ => []
  | m :: moves, p => set W size m p ++ cells moves (next W size m p)

/-- How far a move reaches to the right of the pen. -/
def reach : Move α → Nat
  | .home => 0
  | .down => 0
  | .right d => d
  | .box _ w => w

/-- No coordinate that comes up reaches `limit`. -/
def Bounded (limit : Nat) : List (Move α) → Pen → Prop
  | [], _ => True
  | m :: moves, p =>
    (p.x + reach m < limit ∧ (next W size m p).y < limit) ∧ Bounded limit moves (next W size m p)

instance decidableBounded (limit : Nat) : ∀ (moves : List (Move α)) (p : Pen), Decidable (Bounded W size limit moves p)
  | [], _ => inferInstanceAs (Decidable True)
  | m :: moves, p =>
    let _ : Decidable (Bounded W size limit moves (next W size m p)) := decidableBounded limit moves _
    inferInstanceAs (Decidable ((_ ∧ _) ∧ _))

/-- The pen goes back only in front of a line feed. -/
def Returns (moves : List (Move α)) : Prop := moves.IsChain fun a b => a = .home → b = .down

variable {W size} {p : Pen} {moves : List (Move α)} {c : Cell α}

/-- The two boxes have no point of their lines in common. -/
def Apart (size : Nat) (c d : Cell α) : Prop :=
  ∀ x y, c.x ≤ x → x < c.x + c.w → c.y ≤ y → y < c.y + size → d.x ≤ x → x < d.x + d.w → d.y ≤ y → y < d.y + size → False

theorem wrap_cases (w : Nat) (p : Pen) :
    wrap W size w p = p ∧ p.x + w < W ∨ wrap W size w p = ⟨0, p.y + size⟩ ∧ W ≤ p.x + w := by
  unfold wrap
  split
  · rename_i reached
    exact .inr ⟨rfl, reached⟩
  · rename_i fits
    exact .inl ⟨rfl, Nat.lt_of_not_le fits⟩

/-- The pen never goes up. -/
theorem wrap_below (w : Nat) (p : Pen) : p.y ≤ (wrap W size w p).y := by
  rcases wrap_cases w p with ⟨same, -⟩ | ⟨new, -⟩
  · rw [same]
  · rw [new]
    exact Nat.le_add_right _ _

theorem next_below (m : Move α) (p : Pen) : p.y ≤ (next W size m p).y := by
  cases m with
  | home => exact Nat.le_refl _
  | down => exact Nat.le_add_right _ _
  | right d => exact Nat.le_refl _
  | box a w => exact wrap_below w p

theorem set_below {m : Move α} (mem : c ∈ set W size m p) : p.y ≤ c.y := by
  cases m with
  | box a w =>
    obtain rfl := List.mem_singleton.1 mem
    exact wrap_below w p
  | home => cases mem
  | down => cases mem
  | right d => cases mem

theorem cells_below (mem : c ∈ cells W size moves p) : p.y ≤ c.y := by
  induction moves generalizing p with
  | nil => cases mem
  | cons m moves ih =>
    rcases List.mem_append.1 mem with own | later
    · exact set_below own
    · exact Nat.le_trans (next_below m p) (ih later)

/-- On a later line than the pen, or not to the left of it. -/
def Beyond (size : Nat) (p : Pen) (c : Cell α) : Prop := p.y + size ≤ c.y ∨ p.y ≤ c.y ∧ p.x ≤ c.x

/-- **Every box lies beyond the pen.** -/
theorem cells_beyond (returns : Returns moves) (mem : c ∈ cells W size moves p) : Beyond size p c := by
  induction moves generalizing p with
  | nil => cases mem
  | cons m moves ih =>
    have rest : Returns moves := returns.tail
    cases m with
    | home =>
      -- the boxes behind the line feed are on later lines
      cases moves with
      | nil => cases mem
      | cons m' moves =>
        obtain rfl : m' = .down := (List.isChain_cons_cons.1 returns).1 rfl
        have below := @cells_below α W size ⟨0, p.y + size⟩ moves c mem
        exact .inl below
    | down =>
      have below := @cells_below α W size ⟨p.x, p.y + size⟩ moves c mem
      exact .inl below
    | right d =>
      rcases ih rest mem with below | ⟨level, right⟩
      · exact .inl below
      · exact .inr ⟨level, Nat.le_trans (Nat.le_add_right _ d) right⟩
    | box a w =>
      rcases List.mem_append.1 mem with own | later
      · obtain rfl := List.mem_singleton.1 own
        rcases wrap_cases w p with ⟨same, -⟩ | ⟨new, -⟩
        · rw [same]
          exact .inr ⟨Nat.le_refl _, Nat.le_refl _⟩
        · rw [new]
          exact .inl (Nat.le_refl _)
      · have level : (wrap W size w p).y ≤ c.y := @cells_below α W size (next W size (.box a w) p) moves c later
        have beyond : (wrap W size w p).y + size ≤ c.y ∨ (wrap W size w p).y ≤ c.y ∧ (wrap W size w p).x + w ≤ c.x :=
          ih rest later
        unfold Beyond
        rcases wrap_cases w p with ⟨same, -⟩ | ⟨new, -⟩
        · rw [same] at beyond
          omega
        · rw [new] at level
          exact .inl level

/-- **No two boxes overlap.** -/
theorem cells_apart (returns : Returns moves) : (cells W size moves p).Pairwise (Apart size) := by
  induction moves generalizing p with
  | nil => exact .nil
  | cons m moves ih =>
    have rest : Returns moves := returns.tail
    cases m with
    | box a w =>
      refine List.pairwise_cons.2 ⟨fun c later => ?_, ih rest⟩
      intro x y _ right _ down left _ up _
      rcases cells_beyond rest later with below | ⟨level, beyond⟩
      · exact absurd (Nat.lt_of_lt_of_le down (Nat.le_trans below up)) (Nat.lt_irrefl y)
      · exact absurd (Nat.lt_of_lt_of_le right (Nat.le_trans beyond left)) (Nat.lt_irrefl x)
    | home => exact ih rest
    | down => exact ih rest
    | right d => exact ih rest

/-- A cell has been set for a box among the moves, wherever the pen was. -/
theorem exists_pen (mem : c ∈ cells W size moves p) :
    .box c.a c.w ∈ moves ∧ ∃ q, c = ⟨c.a, (wrap W size c.w q).x, (wrap W size c.w q).y, c.w⟩ := by
  induction moves generalizing p with
  | nil => cases mem
  | cons m moves ih =>
    rcases List.mem_append.1 mem with own | later
    · cases m with
      | box a w =>
        obtain rfl := List.mem_singleton.1 own
        exact ⟨List.mem_cons_self, p, rfl⟩
      | home => cases own
      | down => cases own
      | right d => cases own
    · obtain ⟨box, pen⟩ := ih later
      exact ⟨List.mem_cons_of_mem m box, pen⟩

theorem cells_bounded {limit : Nat} (bounded : Bounded W size limit moves p) (mem : c ∈ cells W size moves p) :
    c.x + c.w < limit ∧ c.y < limit := by
  induction moves generalizing p with
  | nil => cases mem
  | cons m moves ih =>
    obtain ⟨⟨reached, down⟩, rest⟩ := bounded
    rcases List.mem_append.1 mem with own | later
    · cases m with
      | box a w =>
        obtain rfl := List.mem_singleton.1 own
        refine ⟨Nat.lt_of_le_of_lt ?_ reached, down⟩
        show (wrap W size w p).x + w ≤ p.x + w
        rcases wrap_cases w p with ⟨same, -⟩ | ⟨new, -⟩
        · rw [same]
        · rw [new]
          exact Nat.add_le_add_right (Nat.zero_le _) w
      | home => cases own
      | down => cases own
      | right d => cases own
    · exact ih rest later

/-- A box that is not wider than the page lies on it. -/
theorem cells_inside (fits : ∀ a w, .box a w ∈ moves → w ≤ W) (mem : c ∈ cells W size moves p) : c.x + c.w ≤ W := by
  obtain ⟨box, q, place⟩ := exists_pen mem
  have narrow := fits c.a c.w box
  have column : c.x = (wrap W size c.w q).x := congrArg Cell.x place
  rw [column]
  rcases wrap_cases c.w q with ⟨same, left⟩ | ⟨new, -⟩
  · rw [same]
    exact Nat.le_of_lt left
  · rw [new, Nat.zero_add]
    exact narrow

/-- A move takes the pen not further to the right than it reaches, and not more than a line down. -/
theorem next_le (m : Move α) (p : Pen) :
    (next W size m p).x ≤ p.x + reach m ∧ (next W size m p).y ≤ p.y + size := by
  cases m with
  | home => exact ⟨Nat.zero_le _, Nat.le_add_right _ _⟩
  | down => exact ⟨Nat.le_add_right _ _, Nat.le_refl _⟩
  | right d => exact ⟨Nat.le_refl _, Nat.le_add_right _ _⟩
  | box a w =>
    show (wrap W size w p).x + w ≤ p.x + w ∧ (wrap W size w p).y ≤ p.y + size
    rcases wrap_cases w p with ⟨same, -⟩ | ⟨new, -⟩
    · rw [same]
      exact ⟨Nat.le_refl _, Nat.le_add_right _ _⟩
    · rw [new]
      exact ⟨Nat.add_le_add_right (Nat.zero_le _) w, Nat.le_refl _⟩

/-- Moves of which none reaches further than `r`. -/
theorem bounded_of_reach {limit r : Nat} (short : ∀ m ∈ moves, reach m ≤ r) (wide : p.x + moves.length * r < limit)
    (long : p.y + moves.length * size < limit) : Bounded W size limit moves p := by
  induction moves generalizing p with
  | nil => trivial
  | cons m moves ih =>
    obtain ⟨here, others⟩ := List.forall_mem_cons.1 short
    obtain ⟨right, down⟩ := @next_le α W size m p
    rw [List.length_cons, Nat.succ_mul] at wide long
    refine ⟨⟨by omega, by omega⟩, ih others ?_ ?_⟩
    · omega
    · omega

/-- Every box is set not more than a line further down for each of the moves. -/
theorem cells_above (mem : c ∈ cells W size moves p) : c.y ≤ p.y + moves.length * size := by
  induction moves generalizing p with
  | nil => cases mem
  | cons m moves ih =>
    rw [List.length_cons, Nat.succ_mul]
    rcases List.mem_append.1 mem with own | later
    · cases m with
      | box a w =>
        obtain rfl := List.mem_singleton.1 own
        have down : (wrap W size w p).y ≤ p.y + size := (@next_le α W size (.box a w) p).2
        exact Nat.le_trans down (by omega)
      | home => cases own
      | down => cases own
      | right d => cases own
    · have down := (@next_le α W size m p).2
      have above := ih later
      omega

end Typeset

end Lavoro.Lib
