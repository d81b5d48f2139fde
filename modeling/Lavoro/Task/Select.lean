import Lavoro.Task.Queue

/-!
# Which task `DoEvents()` selects

Of the first `TaskQueueSelectLength` tasks of the queue the one of the smallest priority,
and of several such the one nearest the head.
-/

namespace Lavoro.Task.Tasks
open Lib

variable {s : Tasks} {q : List Addr}

/-- The priority of a task, as a number. -/
def priority (s : Tasks) (a : Addr) : Nat :=
  match s.kind a with
  | .live p => p.toNat
  | _ => 0

/-- The first `n` tasks from the pointer on. -/
def windowFrom (s : Tasks) : Nat → Option Addr → List Addr
  | 0, _ => []
  | _ + 1, none => []
  | n + 1, some a => a :: s.windowFrom n (s.links.right a)

/-- The tasks among which `DoEvents()` selects. -/
def window (s : Tasks) : List Addr := s.windowFrom taskQueueSelectLength s.taskQueue

theorem priority_of_task? {a : Addr} {t : LTask} (here : s.task? a = some t) :
    s.priority a = t.priority.toNat := by
  rw [priority, kind_of_task? here]

/-- Following the right pointers from a place in the queue. -/
theorem Queued.windowFrom_spec (h : s.Queued q) {xs ys : List Addr} (split : q = xs ++ ys) (n : Nat) :
    s.windowFrom n ys.head? = ys.take n := by
  induction n generalizing xs ys with
  | zero => rfl
  | succ n ih =>
    cases ys with
    | nil => rfl
    | cons a ys =>
      obtain ⟨-, right⟩ := h.links.inside xs a ys split
      have rest : q = (xs ++ [a]) ++ ys := by simp [split]
      rw [List.head?_cons, windowFrom, right, ih rest, List.take_succ_cons]

theorem Queued.window_spec (h : s.Queued q) : s.window = q.take taskQueueSelectLength := by
  have head : s.taskQueue = q.head? := h.links.head
  rw [window, head]
  exact h.windowFrom_spec (List.nil_append q).symm _

/-- The loop of `DoEvents()`, from a place in the queue with a task already selected. -/
theorem Queued.selectFrom_spec (h : s.Queued q) {xs ys : List Addr} (split : q = xs ++ ys) (n : Nat)
    {selected : Option Addr} (live : ∀ b ∈ selected, s.Live b) :
    s.selectFrom n ys.head? selected =
      some ((ys.take n).foldl (List.argAux fun b c => s.priority b < s.priority c) selected) := by
  induction n generalizing xs ys selected with
  | zero => rfl
  | succ n ih =>
    cases ys with
    | nil => rfl
    | cons a ys =>
      obtain ⟨t, here⟩ := h.live a (by simp [split])
      have right : t.right = ys.head? := by
        have right := (h.links.inside xs a ys split).2
        simpa [Tasks.links, here] using right
      have rest : q = (xs ++ [a]) ++ ys := by simp [split]
      rw [List.take_succ_cons, List.foldl_cons]
      cases selected with
      | none =>
        have live' : ∀ b ∈ some a, s.Live b := by
          rintro b mem
          cases mem
          exact ⟨t, here⟩
        have next := ih rest live'
        simpa [selectFrom, here, right, List.argAux] using next
      | some b =>
        obtain ⟨u, there⟩ := live b rfl
        have test : u.priority > t.priority ↔ s.priority a < s.priority b := by
          rw [priority_of_task? here, priority_of_task? there]
          exact UInt16.lt_iff_toNat_lt
        have live' : ∀ c ∈ some (if u.priority > t.priority then a else b), s.Live c := by
          rintro c mem
          cases mem
          split
          · exact ⟨t, here⟩
          · exact ⟨u, there⟩
        have next := ih rest live'
        simp only [selectFrom, List.head?_cons, here, there, right, Option.bind_eq_bind,
          Option.bind_some, List.argAux]
        rw [next]
        simp only [test]
        split <;> rfl

/-- **`DoEvents()` selects** the task of the smallest priority in its window, the nearest to
the head if there are several. -/
theorem Queued.select_spec (h : s.Queued q) : s.select = some (s.window.argmin s.priority) := by
  have head : s.taskQueue = q.head? := h.links.head
  have none : ∀ b ∈ (none : Option Addr), s.Live b := nofun
  rw [select, head, h.selectFrom_spec (List.nil_append q).symm _ none, h.window_spec]
  rfl

end Lavoro.Task.Tasks
