import Mathlib.Data.Int.ModEq
import Lavoro.Efi.Base
import Lavoro.Lib.Walk

/-!
# The package Pyramids (`packages/ACM/Pyramids.cpp`)

`F(l, r)` counts, modulo 1000000000, the trees whose walk is `S[l .. r]`. It memoises in
`P` and `R`, which are global and not cleared between queries; an entry counts when `P` holds
the number of the query. Beside the code's own variables a `Memo` records of each entry which
query made it and whether the call that made it has returned, and what has gone wrong. C++ leaves the order in
which `R[l][r] + F(l + 1, i - 1) * F(i, r)` is evaluated to the compiler; here it is from the left to the right.
-/

namespace Lavoro.Pyramids
open Lib

/-- What can go wrong: an entry of another query is used, or one whose call has not returned; a
number leaves its type; or an array is left. -/
inductive Fault where
  | stale
  | unfinished
  | overflow
  | outside
  deriving Repr, DecidableEq

/-- Who made an entry of the memo. -/
structure Entry where
  query : Nat
  finished : Bool
  deriving Repr, DecidableEq

structure Memo where
  P : Nat → Nat → Int
  R : Nat → Nat → Int
  entry : Nat → Nat → Option Entry
  faults : List Fault

/-- What `F` reads of a query besides: the string, `MarkNum` and how many queries there have been. -/
structure Query where
  S : Nat → UInt16
  markNum : Int
  number : Nat

/-- `1000000000`. -/
def modulus : Int := 1000000000

namespace Memo

def report (m : Memo) (fault : Fault) (wrong : Bool) : Memo :=
  if wrong then { m with faults := m.faults ++ [fault] } else m

/-- `P[l][r]` and `R[l][r]` are accessed. -/
def access (m : Memo) (l r : Nat) : Memo := m.report .outside (400 ≤ l || 400 ≤ r)

/-- `x` is computed in `ll_t`. -/
def compute (m : Memo) (x : Int) : Memo :=
  m.report .overflow (x < -9223372036854775808 || 9223372036854775807 < x)

/-- `P[l][r] = MarkNum, R[l][r] = 0`. -/
def mark (m : Memo) (q : Query) (l r : Nat) : Memo :=
  { m with
    P := fun a b => if a = l ∧ b = r then q.markNum else m.P a b
    R := fun a b => if a = l ∧ b = r then 0 else m.R a b
    entry := fun a b => if a = l ∧ b = r then some ⟨q.number, false⟩ else m.entry a b }

/-- `R[l][r] = x`. -/
def store (m : Memo) (l r : Nat) (x : Int) : Memo :=
  { m with R := fun a b => if a = l ∧ b = r then x else m.R a b }

/-- The entry is used. -/
def use (m : Memo) (q : Query) (l r : Nat) : Memo :=
  (m.report .stale ((m.entry l r).all fun e => e.query ≠ q.number)).report .unfinished
    ((m.entry l r).any fun e => !e.finished)

/-- The call that has made the entry returns. -/
def finish (m : Memo) (q : Query) (l r : Nat) : Memo :=
  { m with entry := fun a b => if a = l ∧ b = r then some ⟨q.number, true⟩ else m.entry a b }

end Memo

/-- The body of the loop of `F`; `F` is the function itself. -/
def turn (F : Nat → Nat → Memo → Option (Int × Memo)) (S : Nat → UInt16) (l r : Nat) (m : Memo)
    (i : Nat) : Option Memo :=
  if S i = S l then do
    let sum := m.R l r
    let (a, m) ← F (l + 1) (i - 1) m
    let (b, m) ← F i r m
    some (((m.compute (a * b)).compute (sum + a * b)).store l r ((sum + a * b).tmod modulus))
  else some m

/-- `F(l, r)`, with calls nested at most `fuel` deep. -/
def F (q : Query) : Nat → Nat → Nat → Memo → Option (Int × Memo)
  | 0, _, _, _ => none
  | fuel + 1, l, r, m =>
    if l = r then some (1, m)
    else
      let m := m.access l r
      if m.P l r = q.markNum then some (m.R l r, m.use q l r)
      else do
        let m ← (List.range' (l + 1) (r - l)).foldlM (turn (F q fuel) q.S l r) (m.mark q l r)
        some (m.R l r, m.finish q l r)

/-- The global variables, and how many queries there have been. -/
structure Globals where
  markNum : Int
  number : Nat
  memo : Memo

/-- Before the first query. -/
def zeroed : Globals := ⟨0, 0, ⟨fun _ _ => 0, fun _ _ => 0, fun _ _ => none, []⟩⟩

/-- A turn of the loop of `Pyramids_Main` for a string that is not empty: the number printed. -/
def ask (text : Str16) (g : Globals) : Option (Int × Globals) := do
  let markNum := g.markNum + 1
  let q : Query := ⟨fun i => text.getD i 0, markNum, g.number + 1⟩
  let (answer, memo) ← F q (text.length + 1) 0 (text.length - 1)
    (g.memo.report .overflow (2147483647 < markNum))
  some (answer, ⟨markNum, g.number + 1, memo⟩)

/-- The queries one after the other, over any number of calls of `Pyramids_Main`. -/
def askAll : List Str16 → Globals → Option (List Int × Globals)
  | [], g => some ([], g)
  | text :: rest, g => do
    let (answer, g) ← ask text g
    let (answers, g) ← askAll rest g
    some (answer :: answers, g)

/-! ## One query -/

/-- What holds of the memo while the query is answered: nothing has gone wrong, and what is
finished is the number of the trees. -/
structure Valid (q : Query) (m : Memo) : Prop where
  faults : m.faults = []
  marked : ∀ l r, m.P l r = q.markNum → ∃ finished, m.entry l r = some ⟨q.number, finished⟩
  exact : ∀ l r, m.entry l r = some ⟨q.number, true⟩ → m.R l r = count q.S l r % modulus
  bounded : ∀ l r, m.P l r ≤ q.markNum
  earlier : ∀ l r e, m.entry l r = some e → e.query ≤ q.number

/-- No call for a part of `S[l .. r]` is unfinished. -/
def Quiet (q : Query) (l r : Nat) (m : Memo) : Prop :=
  ∀ a b, l ≤ a → b ≤ r → m.entry a b ≠ some ⟨q.number, false⟩

/-- The entry is the same. -/
def Same (m m' : Memo) (a b : Nat) : Prop :=
  m'.P a b = m.P a b ∧ m'.R a b = m.R a b ∧ m'.entry a b = m.entry a b

/-- The entries of what is not a part of `S[l .. r]` are the same. -/
def Frame (l r : Nat) (m m' : Memo) : Prop := ∀ a b, ¬ (l ≤ a ∧ b ≤ r) → Same m m' a b

/-- What a call of `F` returns and leaves. -/
structure Counts (q : Query) (l r : Nat) (m : Memo) (x : Int × Memo) : Prop where
  value : x.1 = count q.S l r % modulus
  valid : Valid q x.2
  quiet : Quiet q l r x.2
  frame : Frame l r m x.2

/-- What holds in the loop of `F(l, r)`, which was called with the memo `m₀`, after `n` turns. -/
structure InLoop (q : Query) (l r : Nat) (m₀ : Memo) (n : Nat) (m : Memo) : Prop where
  valid : Valid q m
  sum : m.R l r = splits q.S l r n % modulus
  current : m.entry l r = some ⟨q.number, false⟩
  quiet : Quiet q (l + 1) r m
  frame : ∀ a b, ¬ (l + 1 ≤ a ∧ b ≤ r) → ¬ (a = l ∧ b = r) → Same m₀ m a b

section Steps

variable {q : Query} {l r : Nat} {m m' : Memo}

theorem report_false (m : Memo) (fault : Fault) {wrong : Bool} (fine : wrong = false) :
    m.report fault wrong = m := by
  rw [Memo.report, fine]
  rfl

theorem access_inside (hl : l < 400) (hr : r < 400) (m : Memo) : m.access l r = m := by
  apply report_false
  simp [hl, hr]

theorem compute_fits {x : Int} (low : 0 ≤ x) (high : x ≤ 9223372036854775807) (m : Memo) :
    m.compute x = m := by
  apply report_false
  simp only [Bool.or_eq_false_iff, decide_eq_false_iff_not]
  omega

/-- An entry of this query that is finished may be used. -/
theorem use_finished (entry : m.entry l r = some ⟨q.number, true⟩) : m.use q l r = m := by
  unfold Memo.use
  rw [report_false _ _ (by simp [entry]), report_false _ _ (by simp [entry])]

/-- Quiet everywhere but in a part, and there too. -/
theorem Quiet.of_frame {l' r' : Nat} (h : Quiet q l r m) (frame : Frame l' r' m m')
    (part : Quiet q l' r' m') : Quiet q l r m' := by
  intro a b left right
  by_cases inside : l' ≤ a ∧ b ≤ r'
  · exact part a b inside.1 inside.2
  · rw [(frame a b inside).2.2]
    exact h a b left right

theorem Quiet.part {l' r' : Nat} (h : Quiet q l r m) (left : l ≤ l') (right : r' ≤ r) : Quiet q l' r' m :=
  fun a b hl hr => h a b (Nat.le_trans left hl) (Nat.le_trans hr right)

/-- The interval is marked. -/
theorem Valid.mark (h : Valid q m) (l r : Nat) : Valid q (m.mark q l r) where
  faults := h.faults
  marked a b now := by
    unfold Memo.mark at now ⊢
    simp only at now ⊢
    split
    · exact ⟨false, rfl⟩
    · rename_i other
      rw [if_neg other] at now
      exact h.marked a b now
  exact a b now := by
    unfold Memo.mark at now ⊢
    simp only at now ⊢
    split at now
    · cases now
    · rename_i other
      rw [if_neg other]
      exact h.exact a b now
  bounded a b := by
    unfold Memo.mark
    simp only
    split
    · exact Int.le_refl _
    · exact h.bounded a b
  earlier a b e now := by
    unfold Memo.mark at now
    simp only at now
    split at now
    · cases now
      exact Nat.le_refl _
    · exact h.earlier a b e now

/-- The sum of an interval that is not finished is stored. -/
theorem Valid.store (h : Valid q m) (current : m.entry l r = some ⟨q.number, false⟩) (x : Int) :
    Valid q (m.store l r x) where
  faults := h.faults
  marked := h.marked
  exact a b now := by
    have other : ¬ (a = l ∧ b = r) := by
      rintro ⟨rfl, rfl⟩
      cases current.symm.trans now
    unfold Memo.store
    simp only
    rw [if_neg other]
    exact h.exact a b now
  bounded := h.bounded
  earlier := h.earlier

/-- The interval is finished. -/
theorem Valid.finish (h : Valid q m) (value : m.R l r = count q.S l r % modulus) :
    Valid q (m.finish q l r) where
  faults := h.faults
  marked a b now := by
    unfold Memo.finish
    simp only
    split
    · exact ⟨true, rfl⟩
    · exact h.marked a b now
  exact a b now := by
    unfold Memo.finish at now ⊢
    simp only at now ⊢
    split at now
    · rename_i here
      obtain ⟨rfl, rfl⟩ := here
      exact value
    · exact h.exact a b now
  bounded := h.bounded
  earlier a b e now := by
    unfold Memo.finish at now
    simp only at now
    split at now
    · cases now
      exact Nat.le_refl _
    · exact h.earlier a b e now

theorem count_mod_bounds (S : Nat → UInt16) (l r : Nat) :
    0 ≤ (count S l r % modulus : Int) ∧ (count S l r % modulus : Int) < modulus :=
  ⟨Int.emod_nonneg _ (by decide), Int.emod_lt_of_pos _ (by decide)⟩

/-- The sum and the products stay within `ll_t`. -/
theorem product_bounds {a b : Int} (ha : 0 ≤ a ∧ a < modulus) (hb : 0 ≤ b ∧ b < modulus) :
    0 ≤ a * b ∧ a * b ≤ 999999998000000001 := by
  have most : a ≤ 999999999 ∧ b ≤ 999999999 := by
    unfold modulus at ha hb
    omega
  refine ⟨Int.mul_nonneg ha.1 hb.1, ?_⟩
  calc a * b ≤ 999999999 * b := Int.mul_le_mul_of_nonneg_right most.1 hb.1
    _ ≤ 999999999 * 999999999 := Int.mul_le_mul_of_nonneg_left most.2 (by decide)
    _ = 999999998000000001 := by decide

/-- A sum is computed modulo `modulus`. -/
theorem add_mul_tmod (s a b : Nat) :
    ((s % modulus + a % modulus * (b % modulus) : Int)).tmod modulus = ((s + a * b : Nat) : Int) % modulus := by
  have same : (s % modulus + a % modulus * (b % modulus) : Int) ≡ s + a * b [ZMOD modulus] :=
    (Int.mod_modEq s modulus).add ((Int.mod_modEq a modulus).mul (Int.mod_modEq b modulus))
  have nonneg : 0 ≤ (s % modulus + a % modulus * (b % modulus) : Int) := by
    have pos (n : Nat) : 0 ≤ (n % modulus : Int) := Int.emod_nonneg _ (by decide)
    exact Int.add_nonneg (pos s) (Int.mul_nonneg (pos a) (pos b))
  rw [Int.tmod_eq_emod_of_nonneg nonneg, Nat.cast_add, Nat.cast_mul]
  exact same

/-- The loop is entered. -/
theorem InLoop.start (h : Valid q m) (quiet : Quiet q l r m) : InLoop q l r m 0 (m.mark q l r) where
  valid := h.mark l r
  sum := by simp [Memo.mark, splits]
  current := by simp [Memo.mark]
  quiet a b left right := by
    have other : ¬ (a = l ∧ b = r) := by omega
    unfold Memo.mark
    simp only
    rw [if_neg other]
    exact quiet a b (Nat.le_of_succ_le left) right
  frame a b _ other := by
    unfold Same Memo.mark
    simp only
    rw [if_neg other, if_neg other, if_neg other]
    exact ⟨rfl, rfl, rfl⟩

/-- A call for a part behind the first place leaves the sum and the mark alone. -/
theorem InLoop.call {m₀ : Memo} {n l' r' : Nat} {x : Int × Memo} (h : InLoop q l r m₀ n m)
    (left : l + 1 ≤ l') (right : r' ≤ r) (counts : Counts q l' r' m x) : InLoop q l r m₀ n x.2 := by
  obtain ⟨-, sum, entry⟩ := counts.frame l r (by omega)
  refine ⟨counts.valid, sum.trans h.sum, entry.trans h.current, h.quiet.of_frame counts.frame counts.quiet, ?_⟩
  intro a b out other
  have same := counts.frame a b fun inside => out ⟨Nat.le_trans left inside.1, Nat.le_trans inside.2 right⟩
  obtain ⟨P, R, e⟩ := h.frame a b out other
  exact ⟨same.1.trans P, same.2.1.trans R, same.2.2.trans e⟩

/-- **A turn of the loop**, given what the calls in it do. -/
theorem InLoop.turn {m₀ : Memo} {n fuel : Nat} (h : InLoop q l r m₀ n m) (inside : n < r - l) (bound : r < 400)
    (enough : r + 1 - l ≤ fuel)
    (calls : ∀ l' r' m, Valid q m → Quiet q l' r' m → l' < 400 → r' < 400 → r' + 1 - l' < fuel →
      ∃ x, F q fuel l' r' m = some x ∧ Counts q l' r' m x) :
    ∃ m', Pyramids.turn (F q fuel) q.S l r m (l + 1 + n) = some m' ∧ InLoop q l r m₀ (n + 1) m' := by
  have next : splits q.S l r (n + 1) = splits q.S l r n +
      (if q.S (l + 1 + n) = q.S l then count q.S (l + 1) (l + n) * count q.S (l + 1 + n) r else 0) :=
    Finset.sum_range_succ _ _
  unfold Pyramids.turn
  by_cases again : q.S (l + 1 + n) = q.S l
  · obtain ⟨x, call, counts⟩ := calls (l + 1) (l + n) m h.valid (h.quiet.part (Nat.le_refl _) (by omega))
      (by omega) (by omega) (by omega)
    have h₁ := h.call (Nat.le_refl _) (by omega) counts
    obtain ⟨y, call', counts'⟩ := calls (l + 1 + n) r x.2 h₁.valid (h₁.quiet.part (by omega) (Nat.le_refl _))
      (by omega) bound (by omega)
    have h₂ := h₁.call (by omega) (Nat.le_refl _) counts'
    have product := product_bounds (count_mod_bounds q.S (l + 1) (l + n)) (count_mod_bounds q.S (l + 1 + n) r)
    have small : 0 ≤ m.R l r ∧ m.R l r < 1000000000 := by
      rw [h.sum]
      exact ⟨Int.emod_nonneg _ (by decide), Int.emod_lt_of_pos _ (by decide)⟩
    rw [← counts.value, ← counts'.value] at product
    have value : (m.R l r + x.1 * y.1).tmod modulus = splits q.S l r (n + 1) % modulus := by
      rw [h.sum, counts.value, counts'.value, add_mul_tmod, next, if_pos again]
    refine ⟨y.2.store l r ((m.R l r + x.1 * y.1).tmod modulus), ?_, ?_⟩
    · rw [if_pos again, show l + 1 + n - 1 = l + n by omega]
      simp only [call, call', Option.bind_eq_bind, Option.bind_some]
      rw [compute_fits product.1 (by omega), compute_fits (by omega) (by omega)]
    · refine ⟨h₂.valid.store h₂.current _, ?_, h₂.current, h₂.quiet, fun a b out other => ?_⟩
      · rw [← value]
        simp [Memo.store]
      · obtain ⟨P, R, e⟩ := h₂.frame a b out other
        refine ⟨P, ?_, e⟩
        rw [← R]
        exact if_neg other
  · refine ⟨m, if_neg again, h.valid, ?_, h.current, h.quiet, h.frame⟩
    rw [next, if_neg again, Nat.add_zero]
    exact h.sum

/-- **The loop.** -/
theorem InLoop.run {m₀ : Memo} {fuel : Nat} (start : InLoop q l r m₀ 0 m) (bound : r < 400)
    (enough : r + 1 - l ≤ fuel)
    (calls : ∀ l' r' m, Valid q m → Quiet q l' r' m → l' < 400 → r' < 400 → r' + 1 - l' < fuel →
      ∃ x, F q fuel l' r' m = some x ∧ Counts q l' r' m x) {n : Nat} (le : n ≤ r - l) :
    ∃ m', (List.range' (l + 1) n).foldlM (Pyramids.turn (F q fuel) q.S l r) m = some m' ∧
      InLoop q l r m₀ n m' := by
  induction n with
  | zero => exact ⟨m, rfl, start⟩
  | succ n ih =>
    obtain ⟨m₁, run, h⟩ := ih (Nat.le_of_succ_le le)
    obtain ⟨m', turn, h'⟩ := h.turn le bound enough calls
    refine ⟨m', ?_, h'⟩
    rw [List.range'_1_concat, List.foldlM_append, run]
    simpa using turn

/-- The number of the trees is the sum that the loop computes. -/
theorem splits_all (S : Nat → UInt16) (differ : l ≠ r) : splits S l r (r - l) = count S l r := by
  rcases Nat.lt_or_gt_of_ne differ with lt | gt
  · exact (count_of_lt lt).symm
  · rw [count_of_gt gt, Nat.sub_eq_zero_of_le (Nat.le_of_lt gt)]
    rfl

/-- Behind the last turn the entry is marked as finished. -/
theorem InLoop.counts (done : InLoop q l r m (r - l) m') (quiet : Quiet q l r m) (single : l ≠ r) :
    Counts q l r m (m'.R l r, m'.finish q l r) := by
  have value : m'.R l r = count q.S l r % modulus := by
    rw [done.sum, splits_all q.S single]
  have others : ∀ a b, ¬ (a = l ∧ b = r) → (m'.finish q l r).entry a b = m'.entry a b :=
    fun a b other => if_neg other
  refine ⟨value, done.valid.finish value, ?_, ?_⟩
  · intro a b left right
    by_cases here : a = l ∧ b = r
    · unfold Memo.finish
      simp [here]
    · rw [others a b here]
      by_cases behind : l + 1 ≤ a
      · exact done.quiet a b behind right
      · rw [(done.frame a b (fun inside => behind inside.1) here).2.2]
        exact quiet a b left right
  · intro a b out
    have here : ¬ (a = l ∧ b = r) := by omega
    obtain ⟨P, R, entry⟩ := done.frame a b (by omega) here
    exact ⟨P, R, (others a b here).trans entry⟩

/-- **`F(l, r)`** counts the trees, from a memo that is valid and in which no call for a part of the
interval is unfinished. -/
theorem F_counts {fuel : Nat} (h : Valid q m) (quiet : Quiet q l r m) (hl : l < 400) (hr : r < 400)
    (enough : r + 1 - l < fuel) : ∃ x, F q fuel l r m = some x ∧ Counts q l r m x := by
  induction fuel generalizing l r m with
  | zero => cases enough
  | succ fuel ih =>
    rw [F]
    by_cases single : l = r
    · subst single
      refine ⟨(1, m), if_pos rfl, ?_, h, quiet, fun a b _ => ⟨rfl, rfl, rfl⟩⟩
      rw [count_self]
      rfl
    · rw [if_neg single, access_inside hl hr]
      by_cases known : m.P l r = q.markNum
      · obtain ⟨finished, entry⟩ := h.marked l r known
        cases finished with
        | false => exact absurd entry (quiet l r (Nat.le_refl _) (Nat.le_refl _))
        | true =>
          have value := h.exact l r entry
          refine ⟨(m.R l r, m), ?_, value, h, quiet, fun a b _ => ⟨rfl, rfl, rfl⟩⟩
          simp only [if_pos known, use_finished entry]
      · have begun := InLoop.start h quiet
        obtain ⟨m', run, done⟩ := begun.run hr (Nat.le_of_lt_succ enough) (fun l' r' m h quiet hl hr => ih h quiet hl hr)
          (Nat.le_refl _)
        refine ⟨(m'.R l r, m'.finish q l r), ?_, done.counts quiet single⟩
        simp only [if_neg known, run, Option.bind_eq_bind, Option.bind_some]

end Steps

/-! ## All queries -/

/-- A string that `Input` can store. -/
structure Question where
  text : Str16
  some : text ≠ []
  fits : text.length ≤ 399

/-- The number of the trees whose walk is the text. -/
noncomputable def treesWithWalk (text : Str16) : Nat :=
  Set.ncard {t : OrderedTree UInt16 | t.walk = text}

/-- Between two queries: every entry is of an earlier one. -/
structure Ready (g : Globals) : Prop where
  markNum : g.markNum = g.number
  faults : g.memo.faults = []
  bounded : ∀ l r, g.memo.P l r ≤ g.markNum
  earlier : ∀ l r e, g.memo.entry l r = some e → e.query ≤ g.number

theorem ready_zeroed : Ready zeroed where
  markNum := rfl
  faults := rfl
  bounded _ _ := Int.le_refl _
  earlier _ _ e entry := absurd entry (Option.not_mem_none e)

theorem stretch_text (q : Question) :
    stretch (fun i => q.text.getD i 0) 0 (q.text.length - 1) = q.text := by
  have length := List.length_pos_iff.2 q.some
  apply List.ext_getElem
  · rw [length_stretch]
    omega
  · intro i hi hi'
    simp [stretch, hi']

theorem count_text (q : Question) :
    count (fun i => q.text.getD i 0) 0 (q.text.length - 1) = treesWithWalk q.text := by
  rw [count, walks, stretch_text]
  rfl

/-- **A query** counts the trees and leaves the memo ready for the next one. -/
theorem ask_counts {g : Globals} (ready : Ready g) (few : g.number < 2147483647) (q : Question) :
    ∃ g', ask q.text g = some (treesWithWalk q.text % modulus, g') ∧ Ready g' ∧
      g'.number = g.number + 1 := by
  let query : Query := ⟨fun i => q.text.getD i 0, g.markNum + 1, g.number + 1⟩
  have length := List.length_pos_iff.2 q.some
  have fits := q.fits
  have inRange : g.memo.report .overflow (2147483647 < g.markNum + 1) = g.memo := by
    apply report_false
    rw [decide_eq_false_iff_not, ready.markNum]
    omega
  -- no entry of the memo is of this query
  have valid : Valid query g.memo := by
    refine ⟨ready.faults, fun l r now => ?_, fun l r entry => ?_, fun l r => ?_, fun l r e entry => ?_⟩
    · have bounded := ready.bounded l r
      have now : g.memo.P l r = g.markNum + 1 := now
      omega
    · exact absurd (ready.earlier l r _ entry) (Nat.not_succ_le_self _)
    · exact Int.le_trans (ready.bounded l r) (Int.le_add_one (Int.le_refl _))
    · exact Nat.le_succ_of_le (ready.earlier l r e entry)
  have quiet : Quiet query 0 (q.text.length - 1) g.memo :=
    fun a b _ _ entry => absurd (ready.earlier a b _ entry) (Nat.not_succ_le_self _)
  obtain ⟨x, call, counts⟩ : ∃ x, F query (q.text.length + 1) 0 (q.text.length - 1) g.memo = some x ∧
      Counts query 0 (q.text.length - 1) g.memo x :=
    F_counts valid quiet (by decide) (by omega) (by omega)
  refine ⟨⟨g.markNum + 1, g.number + 1, x.2⟩, ?_, ?_, rfl⟩
  · rw [ask, inRange]
    simp only [query] at call
    simp only [call, Option.bind_eq_bind, Option.bind_some, counts.value, query, count_text]
  · refine ⟨?_, counts.valid.faults, counts.valid.bounded, counts.valid.earlier⟩
    rw [ready.markNum, Nat.cast_add, Nat.cast_one]

theorem askAll_counts {g : Globals} (ready : Ready g) (questions : List Question)
    (few : g.number + questions.length ≤ 2147483647) :
    ∃ g', askAll (questions.map Question.text) g =
        some (questions.map fun q => treesWithWalk q.text % modulus, g') ∧ Ready g' := by
  induction questions generalizing g with
  | nil => exact ⟨g, rfl, ready⟩
  | cons q rest ih =>
    rw [List.length_cons] at few
    obtain ⟨g₁, answered, ready₁, number⟩ := ask_counts ready (by omega) q
    obtain ⟨g', run, ready'⟩ := ih ready₁ (by omega)
    refine ⟨g', ?_, ready'⟩
    simp [askAll, answered, run]

/-- **Pyramids counts trees**: fewer than 2^31 queries are all answered, with the numbers of the
trees that have the walks asked for, and nothing goes wrong. -/
theorem pyramids_count_trees (questions : List Question) (few : questions.length < 2147483648) :
    ∃ g, askAll (questions.map Question.text) zeroed =
        some (questions.map fun q => treesWithWalk q.text % modulus, g) ∧ g.memo.faults = [] := by
  have all : zeroed.number + questions.length ≤ 2147483647 := by
    show 0 + questions.length ≤ 2147483647
    omega
  obtain ⟨g, run, ready⟩ := askAll_counts ready_zeroed questions all
  exact ⟨g, run, ready.faults⟩

/-- The walk a, b, a, b, a. -/
def ababa : Question := ⟨[97, 98, 97, 98, 97], List.cons_ne_nil _ _, by decide⟩

theorem ababa_counted :
    ∃ g, askAll [ababa.text, ababa.text] zeroed =
      some ([treesWithWalk ababa.text % modulus, treesWithWalk ababa.text % modulus], g) ∧
      g.memo.faults = [] :=
  pyramids_count_trees [ababa, ababa] (by decide)

example : (askAll [[97, 98, 97, 98, 97], [97, 97]] zeroed).map Prod.fst = some [2, 0] := by
  decide +kernel

end Lavoro.Pyramids
