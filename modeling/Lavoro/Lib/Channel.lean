import Lavoro.Lib.Cursor

/-!
# Reading a queue that is being filled

The source of a cursor may be a queue to which others append while it is read, and which may
stop handing out chunks before it is empty. `Passed queue total got p`: the elements `got` have
been stepped over, out of `total` that were ever put into the queue. Whatever the chunks are and
whenever more is appended, nothing is lost, seen twice or out of order on the way, and what has
been stepped over when the cursor ends is a prefix (`advance_passed`, `passed_append`).
-/

namespace Lavoro.Lib.Cursor

variable {σ α : Type} {fetch : σ → List α × σ} {queue : σ → List α} {total got : List α}

/-- A chunk that is handed out was the front of the queue. -/
def Drains (fetch : σ → List α × σ) (queue : σ → List α) : Prop :=
  ∀ s, (fetch s).1 ≠ [] → (fetch s).1 ++ queue (fetch s).2 = queue s

/-- The elements fetched and not yet stepped over. -/
def fetched : Cursor α → List α
  | .here a more => a :: more
  | _ => []

def isEnded : Cursor α → Bool
  | .ended => true
  | _ => false

/-- Between what has been stepped over, what is fetched and the queue nothing is missing; of a
cursor that has ended only the first is known. -/
def Passed (queue : σ → List α) (total got : List α) : Cursor α × σ → Prop
  | (.ended, _) => got <+: total
  | (c, s) => got ++ (c.fetched ++ queue s) = total

theorem Passed.isPrefix {p : Cursor α × σ} (h : Passed queue total got p) : got <+: total := by
  match p with
  | (.ended, _) => exact h
  | (.fresh, s) => exact ⟨_, h⟩
  | (.here a more, s) => exact ⟨_, h⟩

/-- As long as the cursor has not ended nothing is missing. -/
theorem Passed.complete {p : Cursor α × σ} (h : Passed queue total got p) (more : p.1 ≠ .ended) :
    got ++ (p.1.fetched ++ queue p.2) = total := by
  match p with
  | (.ended, _) => exact absurd rfl more
  | (.fresh, s) => exact h
  | (.here a more, s) => exact h

/-- A chunk fetched when the last one is used up. -/
theorem refill_passed (drains : Drains fetch queue) {s : σ} (h : got ++ queue s = total) :
    Passed queue total got (refill (fetch s).1, (fetch s).2) := by
  have front := drains s
  match hf : (fetch s).1 with
  | [] => exact ⟨_, h⟩
  | a :: more =>
    rw [hf] at front
    have same : a :: more ++ queue (fetch s).2 = queue s := front (List.cons_ne_nil a more)
    show got ++ (a :: more ++ queue (fetch s).2) = total
    rw [same, h]

/-- **A step passes the element that was shown**, and no other. -/
theorem advance_passed (drains : Drains fetch queue) {p : Cursor α × σ} (h : Passed queue total got p) :
    Passed queue total (got ++ p.1.head?.toList) (advance fetch p) := by
  match p with
  | (.ended, s) =>
    rw [show (Cursor.ended : Cursor α).head?.toList = [] from rfl, List.append_nil]
    exact h
  | (.fresh, s) =>
    apply refill_passed drains
    rw [show (Cursor.fresh : Cursor α).head?.toList = [] from rfl, List.append_nil]
    exact h
  | (.here a (b :: more), s) =>
    have kept : got ++ (a :: b :: more ++ queue s) = total := h
    show got ++ [a] ++ (b :: more ++ queue s) = total
    rw [List.append_assoc]
    exact kept
  | (.here a [], s) =>
    have kept : got ++ ([a] ++ queue s) = total := h
    apply refill_passed drains
    show got ++ [a] ++ queue s = total
    rw [List.append_assoc]
    exact kept

/-- What is kept of a source while it hands out chunks (`Good false`), and when it has handed out an
empty one (`Good true`). -/
theorem advance_good {Good : Bool → σ → Prop} (flows : ∀ s, Good false s → Good (fetch s).1.isEmpty (fetch s).2)
    {p : Cursor α × σ} (h : Good p.1.isEnded p.2) :
    Good (advance fetch p).1.isEnded (advance fetch p).2 := by
  have fetched : ∀ s, Good false s → Good (refill (fetch s).1).isEnded (fetch s).2 := by
    intro s good
    have next := flows s good
    cases hf : (fetch s).1 <;> rwa [hf] at next
  match p with
  | (.ended, s) => exact h
  | (.fresh, s) => exact fetched s h
  | (.here a (b :: more), s) => exact h
  | (.here a [], s) => exact fetched s h

/-- A queue is all that is asked of a source. -/
theorem passed_queue {c : Cursor α} {s : σ} :
    Passed queue total got (c, s) ↔ Passed id total got (c, queue s) := by
  cases c <;> exact Iff.rfl

/-- **What others append** comes behind everything else. -/
theorem passed_append {c : Cursor α} {waiting : List α} (h : Passed id total got (c, waiting)) (more : List α) :
    Passed id (total ++ more) got (c, waiting ++ more) := by
  cases c with
  | ended => exact h.trans (List.prefix_append total more)
  | fresh =>
    have kept : got ++ waiting = total := h
    show got ++ (waiting ++ more) = total ++ more
    rw [← List.append_assoc, kept]
  | here a rest =>
    have kept : got ++ (a :: rest ++ waiting) = total := h
    show got ++ (a :: rest ++ (waiting ++ more)) = total ++ more
    rw [← kept]
    simp only [List.append_assoc, List.cons_append]

/-- **A queue that hands out a chunk whenever it is not empty** supplies all that is in it. -/
theorem supplies_of_drains {Good : σ → Prop} (drains : Drains fetch queue)
    (flows : ∀ s, Good s → ((fetch s).1 = [] → queue s = []) ∧ ((fetch s).1 ≠ [] → Good (fetch s).2)) :
    Supplies fetch fun s l => Good s ∧ queue s = l where
  chunk := by
    rintro s l ⟨good, rfl⟩ some
    exact ⟨_, (drains s some).symm, (flows s good).2 some, rfl⟩
  last := by
    rintro s l ⟨good, rfl⟩ none
    exact (flows s good).1 none

end Lavoro.Lib.Cursor
