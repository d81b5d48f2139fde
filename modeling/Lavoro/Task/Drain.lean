import Lavoro.Task.Runs

/-!
# Draining the queue

The order in which tasks run whose `Run()` leaves the queue alone, as a matter of lists
(`Drained`): always the one of the smallest priority among the first few, the nearest to the
head if there are several.
-/

namespace Lavoro.Task
open Lib

/-- `a` is what is to be run first of the queue `q`. -/
structure RunsFirst (priority : Addr → Nat) (q : List Addr) (a : Addr) : Prop where
  mem : a ∈ q.take (min taskQueueSelectLength q.length)
  least : ∀ b ∈ q.take (min taskQueueSelectLength q.length), priority a ≤ priority b
  nearest : ∀ b ∈ q.take (min taskQueueSelectLength q.length), priority b = priority a →
    q.idxOf a ≤ q.idxOf b

/-- The queue `q` is drained in this order. -/
inductive Drained (priority : Addr → Nat) : List Addr → List Addr → Prop where
  | empty : Drained priority [] []
  | next {q order : List Addr} {a : Addr} (first : RunsFirst priority q a)
      (rest : Drained priority (q.erase a) order) : Drained priority q (a :: order)

theorem RunsFirst.mem_queue {priority : Addr → Nat} {q : List Addr} {a : Addr}
    (h : RunsFirst priority q a) : a ∈ q :=
  List.mem_of_mem_take h.mem

/-- Only the priorities of the tasks on the queue matter. -/
theorem Drained.congr {p p' : Addr → Nat} {q order : List Addr} (h : Drained p q order)
    (same : ∀ a ∈ q, p a = p' a) : Drained p' q order := by
  induction h with
  | empty => exact .empty
  | @next q order a first rest ih =>
    have same' : ∀ b ∈ q.take (min taskQueueSelectLength q.length), p b = p' b :=
      fun b mem => same b (List.mem_of_mem_take mem)
    refine .next ⟨first.mem, fun b mem => ?_, fun b mem tie => ?_⟩
      (ih fun b mem => same b (List.mem_of_mem_erase mem))
    · rw [← same' a first.mem, ← same' b mem]
      exact first.least b mem
    · rw [← same' a first.mem, ← same' b mem] at tie
      exact first.nearest b mem tie

/-- Every task of the queue runs once. -/
theorem Drained.perm {priority : Addr → Nat} {q order : List Addr} (h : Drained priority q order) :
    order.Perm q := by
  induction h with
  | empty => exact .refl []
  | next first rest ih => exact (ih.cons _).trans (List.perm_cons_erase first.mem_queue).symm

namespace Tasks

/-- `DoEvents()` called `n` times, with tasks whose `Run()` leaves the queue alone: the tasks run. -/
def drain : Nat → Tasks → Option (List (Option Addr) × Tasks)
  | 0, s => some ([], s)
  | n + 1, s => do
    let (a, s) ← s.doEvents []
    let (rest, s) ← drain n s
    some (a :: rest, s)

variable {s : Tasks} {q : List Addr} {a : Addr}

/-- A place in the window is the place on the queue. -/
theorem idxOf_take {n : Nat} (mem : a ∈ q.take n) : (q.take n).idxOf a = q.idxOf a := by
  have whole : (q.take n ++ q.drop n).idxOf a = (q.take n).idxOf a := List.idxOf_append_of_mem mem
  rw [List.take_append_drop] at whole
  exact whole.symm

theorem Queued.selected_first (h : s.Queued q) (selected : a ∈ s.window.argmin s.priority) :
    RunsFirst s.priority q a := by
  obtain ⟨mem, least, nearest⟩ := List.mem_argmin_iff.1 selected
  have window : s.window = q.take (min taskQueueSelectLength q.length) := by
    rw [h.window_spec, List.take_eq_take_min]
  rw [window] at mem least nearest
  refine ⟨mem, least, fun b mem' tie => ?_⟩
  have nearer := nearest b mem' (Nat.le_of_eq tie)
  rwa [idxOf_take mem, idxOf_take mem'] at nearer

/-- What a call of `DoEvents()` does that runs the task `a`, whose `Run()` leaves the queue alone. -/
structure Runs (s : Tasks) (q : List Addr) (a : Addr) (t : Tasks) : Prop where
  first : RunsFirst s.priority q a
  queued : t.Queued (q.erase a)
  gone : t.kind a = .deleted
  others : ∀ b, b ≠ a → t.kind b = s.kind b

/-- **A call** with tasks on the queue. -/
theorem Queued.doEvents_runs (h : s.Queued q) (some' : q ≠ []) :
    ∃ a t, s.doEvents [] = some (some a, t) ∧ s.Runs q a t := by
  have select := h.select_spec
  cases selected : s.window.argmin s.priority with
  | none =>
    have empty := List.argmin_eq_none.1 selected
    rw [h.window_spec, List.take_eq_nil_iff] at empty
    exact absurd (empty.resolve_left (by decide)) some'
  | some a =>
    rw [selected] at select
    have first := h.selected_first selected
    have live := h.live a first.mem_queue
    obtain ⟨s₁, dequeued, queued, kind⟩ := h.dequeue_spec live
    have out : a ∉ q.erase a := h.links.nodup.not_mem_erase
    obtain ⟨s₂, deleted, queued', kind'⟩ := queued.delete_spec ((live_of_kind kind).2 live) out
    refine ⟨a, s₂, by simp [Tasks.doEvents, Tasks.runTask, select, dequeued, deleted], first, queued', ?_,
      fun b other => ?_⟩
    · rw [kind', if_pos rfl]
    · rw [kind', if_neg other, kind]

/-- A call without a task on the queue. -/
theorem Queued.doEvents_idle (h : s.Queued []) (run : List QueueCall) :
    s.doEvents run = some (none, s) := by
  have select : s.select = some none := by
    rw [h.select_spec, h.window_spec]
    rfl
  simp [Tasks.doEvents, select]

theorem Runs.priority_eq {t : Tasks} (h : s.Runs q a t) {b : Addr} (other : b ≠ a) :
    t.priority b = s.priority b := by
  unfold priority
  rw [h.others b other]

/-- **As many calls as there are tasks.** -/
theorem Queued.drain_spec {n : Nat} (h : s.Queued q) (length : q.length = n) :
    ∃ order t, s.drain n = some (order.map some, t) ∧ Drained s.priority q order ∧ t.Queued [] := by
  induction n generalizing s q with
  | zero =>
    obtain rfl := List.length_eq_zero_iff.1 length
    exact ⟨[], s, rfl, .empty, h⟩
  | succ n ih =>
    have some' : q ≠ [] := by
      rintro rfl
      cases length
    obtain ⟨a, s₁, done, runs⟩ := h.doEvents_runs some'
    have shorter : (q.erase a).length = n := by
      rw [List.length_erase_of_mem runs.first.mem_queue, length]
      rfl
    obtain ⟨order, t, drained, rest, empty⟩ := ih runs.queued shorter
    refine ⟨a :: order, t, by simp [drain, done, drained], .next runs.first (rest.congr fun b mem => ?_), empty⟩
    have other : b ≠ a := by
      rintro rfl
      exact h.links.nodup.not_mem_erase mem
    exact runs.priority_eq other

/-- **`DoEvents()` drains the queue.** A call with tasks on the queue runs the one of the smallest
priority in its window, the nearest to the head of several such, and takes exactly that one off;
`n` calls run each of `n` tasks once and leave `TaskQueue` empty, and one more runs nothing. -/
theorem queue_drains (h : s.Queued q) :
    (q ≠ [] → ∃ a t, s.doEvents [] = some (some a, t) ∧ s.Runs q a t) ∧
      ∃ order t, s.drain q.length = some (order.map some, t) ∧ Drained s.priority q order ∧
        order.Perm q ∧ t.taskQueue = none ∧ t.doEvents [] = some (none, t) := by
  refine ⟨h.doEvents_runs, ?_⟩
  obtain ⟨order, t, drained, rest, empty⟩ := h.drain_spec rfl
  exact ⟨order, t, drained, rest, rest.perm, empty.links.head, empty.doEvents_idle []⟩

/-- Two tasks on the queue. -/
theorem pair_queued : ∃ s : Tasks, s.Queued [0, 1] := by
  have none : noTasks.Queued [] := NoTasks.queued ⟨rfl, fun _ => rfl⟩
  have made : ((noTasks.create 0 5).create 1 2).Queued [] :=
    (none.create_spec rfl 5).create_spec rfl 2
  obtain ⟨s₁, -, queued₁, kind₁⟩ := made.addTask_spec (a := 1) ⟨_, rfl⟩
  have live : s₁.Live 0 := (live_of_kind kind₁).2 ⟨_, rfl⟩
  obtain ⟨s₂, -, queued₂, -⟩ := queued₁.addTask_spec live
  exact ⟨s₂, queued₂⟩

theorem pair_drains :
    ∃ (s t : Tasks) (order : List Addr), s.drain 2 = some (order.map some, t) ∧ order.Perm [0, 1] ∧
      t.taskQueue = none := by
  obtain ⟨s, queued⟩ := pair_queued
  obtain ⟨-, order, t, drained, -, perm, empty, -⟩ := queue_drains queued
  exact ⟨s, t, order, drained, perm, empty⟩

end Tasks

end Lavoro.Task
