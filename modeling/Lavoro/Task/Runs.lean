import Lavoro.Lib.Reach
import Lavoro.Task.Select

/-!
# Runs of the task queue

The program constructs tasks, adds and dequeues them and calls `DoEvents()`; a `Run()` does
the same, short of `DoEvents()` and `delete`. `WellLinked` says of the memory that the links
represent a queue, in every state of every run (`queue_well_linked`). With tasks whose
`Run()` leaves the queue alone, calling `DoEvents()` drains it (`queue_drains`).
-/

namespace Lavoro.Task
open Lib

/-- A call on the queue. -/
inductive QueueCall where
  | create (task : Addr) (priority : UInt16)
  | addTask (task : Addr)
  | dequeue (task : Addr)
  deriving DecidableEq

namespace QueueCall

/-- `none` where a task is accessed that is not there. -/
def perform (s : Tasks) : QueueCall → Option Tasks
  | .create a priority => some (s.create a priority)
  | .addTask a => s.addTask a
  | .dequeue a => s.dequeue a

/-- Memory is allocated where there is no task; `AddTask` and `Dequeue` are called for tasks
that are there, on the queue or not. -/
def Allowed (s : Tasks) : QueueCall → Prop
  | .create a _ => ¬ s.Live a
  | .addTask a => s.Live a
  | .dequeue a => s.Live a

end QueueCall

namespace Tasks

/-- A `Run()` that does these calls. -/
def runTask : List QueueCall → Tasks → Option Tasks
  | [], s => some s
  | c :: rest, s => do
    let s ← c.perform s
    runTask rest s

/-- Each call is allowed where it is done. -/
def RunAllowed : List QueueCall → Tasks → Prop
  | [], _ => True
  | c :: rest, s => c.Allowed s ∧ ∀ t, c.perform s = some t → RunAllowed rest t

/-- `DoEvents()`, the selected task's `Run()` doing the calls `run`: the task it has run. -/
def doEvents (run : List QueueCall) (s : Tasks) : Option (Option Addr × Tasks) := do
  match ← s.select with
  | none => some (none, s)
  | some a =>
    let s ← s.runTask run
    let s ← s.dequeue a
    let s ← s.delete a
    some (some a, s)

end Tasks

/-- What the program does next. -/
inductive Event where
  | call (c : QueueCall)
  | doEvents (run : List QueueCall)

namespace Event

def perform (s : Tasks) : Event → Option Tasks
  | .call c => c.perform s
  | .doEvents run => (s.doEvents run).map Prod.snd

def Allowed (s : Tasks) : Event → Prop
  | .call c => c.Allowed s
  | .doEvents run => ∀ a, s.select = some (some a) → s.RunAllowed run

/-- An event that is allowed. -/
def Step (s : Tasks) (e : Event) (t : Tasks) : Prop := e.Allowed s ∧ e.perform s = some t

end Event

namespace Tasks

/-- There is no task, and no queue. -/
def NoTasks (s : Tasks) : Prop := s.taskQueue = none ∧ ∀ a, s.cells a = .fresh

/-- The `Right` links lead through the tasks `q` from the pointer `p` on, and end there. -/
def Leads (s : Tasks) : List Addr → Option Addr → Prop
  | [], p => p = none
  | a :: rest, p => p = some a ∧ ∃ t, s.task? a = some t ∧ s.Leads rest t.right

/-- The representation of the queue `q` in the memory. -/
structure WellLinked (s : Tasks) (q : List Addr) : Prop where
  leads : s.Leads q s.taskQueue
  nodup : q.Nodup
  head : ∀ a t, s.taskQueue = some a → s.task? a = some t → t.left = none
  inverse : ∀ a b t u, s.task? a = some t → s.task? b = some u →
    (t.right = some b ↔ u.left = some a)
  running : ∀ a, s.Live a → (s.isRunning a = some true ↔ a ∈ q)
  off : ∀ a t, s.task? a = some t → a ∉ q → t.left = none ∧ t.right = none
  addTask : ∀ a ∈ q, s.addTask a = some s

variable {s : Tasks} {q : List Addr} {a : Addr}

theorem links_of_task? {t : LTask} (here : s.task? a = some t) :
    s.links.left a = t.left ∧ s.links.right a = t.right := by
  simp [links, here]

theorem Queued.leads (h : s.Queued q) {xs ys : List Addr} (split : q = xs ++ ys) :
    s.Leads ys ys.head? := by
  induction ys generalizing xs with
  | nil => rfl
  | cons a ys ih =>
    obtain ⟨t, here⟩ := h.live a (by simp [split])
    have right : t.right = ys.head? := by
      rw [← (links_of_task? here).2]
      exact (h.links.inside xs a ys split).2
    have rest : q = (xs ++ [a]) ++ ys := by simp [split]
    refine ⟨rfl, t, here, ?_⟩
    rw [right]
    exact ih rest

/-- **The queue is well linked** where the links represent it. -/
theorem Queued.wellLinked (h : s.Queued q) : s.WellLinked q where
  leads := by
    have head : s.taskQueue = q.head? := h.links.head
    rw [head]
    exact h.leads (List.nil_append q).symm
  nodup := h.links.nodup
  head a t first here := by
    have head : q.head? = some a := h.links.head.symm.trans first
    obtain ⟨rest, rfl⟩ := List.head?_eq_some_iff.1 head
    rw [← (links_of_task? here).1]
    exact (h.links.inside [] a rest rfl).1
  inverse a b t u here there := by
    rw [← (links_of_task? here).2, ← (links_of_task? there).1]
    exact h.links.right_iff_left
  running a live := by
    rw [h.isRunning_spec live, Option.some.injEq, decide_eq_true_iff]
  off a t here out := by
    rw [← (links_of_task? here).1, ← (links_of_task? here).2]
    exact h.links.outside a out
  addTask a mem := by
    have running := h.isRunning_spec (h.live a mem)
    simp [Tasks.addTask, running, mem]

/-- No task is there any more that was not there. -/
theorem live_create {priority : UInt16} {b : Addr} (live : s.Live b) : (s.create a priority).Live b := by
  obtain ⟨t, there⟩ := live
  unfold Live create
  rw [task?_put]
  split
  · exact ⟨_, rfl⟩
  · exact ⟨t, there⟩

/-- **One call** on the queue. -/
theorem Queued.perform (h : s.Queued q) {c : QueueCall} (allowed : c.Allowed s) :
    ∃ t q', c.perform s = some t ∧ t.Queued q' ∧ ∀ a, s.Live a → t.Live a := by
  cases c with
  | create a priority =>
    have out : a ∉ q := fun mem => allowed (h.live a mem)
    refine ⟨s.create a priority, q, rfl, h.put out ?_, fun b live => live_create live⟩
    rintro t made
    cases made
    exact ⟨rfl, rfl⟩
  | addTask a =>
    obtain ⟨t, added, queued, kind⟩ := h.addTask_spec allowed
    exact ⟨t, _, added, queued, fun b live => (live_of_kind kind).2 live⟩
  | dequeue a =>
    obtain ⟨t, dequeued, queued, kind⟩ := h.dequeue_spec allowed
    exact ⟨t, _, dequeued, queued, fun b live => (live_of_kind kind).2 live⟩

/-- **A `Run()`.** -/
theorem Queued.runTask (h : s.Queued q) {run : List QueueCall} (allowed : s.RunAllowed run) :
    ∃ t q', s.runTask run = some t ∧ t.Queued q' ∧ ∀ a, s.Live a → t.Live a := by
  induction run generalizing s q with
  | nil => exact ⟨s, q, rfl, h, fun _ live => live⟩
  | cons c rest ih =>
    obtain ⟨s₁, q₁, done, queued, live₁⟩ := h.perform allowed.1
    obtain ⟨t, q', run, queued', live'⟩ := ih queued (allowed.2 s₁ done)
    exact ⟨t, q', by simp [Tasks.runTask, done, run], queued', fun a live => live' a (live₁ a live)⟩

theorem Queued.selected_mem (h : s.Queued q) (selected : s.select = some (some a)) :
    a ∈ q.take taskQueueSelectLength := by
  rw [h.select_spec] at selected
  have mem := List.argmin_mem (Option.some.inj selected)
  rwa [h.window_spec] at mem

/-- **`DoEvents()`** ends with the task it has run off the queue and deleted. -/
theorem Queued.doEvents (h : s.Queued q) {run : List QueueCall} (selected : s.select = some (some a))
    (allowed : s.RunAllowed run) :
    ∃ r q', s.doEvents run = some (some a, r) ∧ r.Queued q' := by
  have there := h.live a (List.mem_of_mem_take (h.selected_mem selected))
  obtain ⟨s₁, q₁, done, queued, live⟩ := h.runTask allowed
  obtain ⟨s₂, dequeued, queued₂, kind⟩ := queued.dequeue_spec (live a there)
  have live₂ : s₂.Live a := (live_of_kind kind).2 (live a there)
  obtain ⟨s₃, deleted, queued₃, -⟩ := queued₂.delete_spec live₂ queued.links.nodup.not_mem_erase
  exact ⟨s₃, _, by simp [Tasks.doEvents, selected, done, dequeued, deleted], queued₃⟩

/-- **One event**: it accesses no task that is not there, and leaves a queue. -/
theorem Queued.event (h : s.Queued q) {e : Event} (allowed : e.Allowed s) :
    ∃ t q', e.perform s = some t ∧ t.Queued q' := by
  cases e with
  | call c =>
    obtain ⟨t, q', done, queued, -⟩ := h.perform allowed
    exact ⟨t, q', done, queued⟩
  | doEvents run =>
    cases selected : s.window.argmin s.priority with
    | none =>
      have select : s.select = some none := by rw [h.select_spec, selected]
      exact ⟨s, q, by simp [Event.perform, Tasks.doEvents, select], h⟩
    | some a =>
      have select : s.select = some (some a) := by rw [h.select_spec, selected]
      obtain ⟨t, q', done, queued⟩ := h.doEvents select (allowed a select)
      exact ⟨t, q', by simp [Event.perform, done], queued⟩

theorem NoTasks.queued (h : s.NoTasks) : s.Queued [] := by
  have none : ∀ a, s.task? a = none := fun a => by rw [task?, h.2 a]
  refine ⟨Links.Represents.empty h.1 (fun a => ?_) fun a => ?_, fun a mem => absurd mem List.not_mem_nil⟩
  · simp [links, none a]
  · simp [links, none a]

end Tasks

/-- **The queue is well linked** in every state of every run, and no event of a run accesses a
task that is not there. -/
theorem queue_well_linked {s : Tasks} (h : Reach Event.Step (fun _ _ => True) Tasks.NoTasks s) :
    ∃ q, s.WellLinked q ∧ ∀ e : Event, e.Allowed s → ∃ t, e.perform s = some t := by
  have queued : ∃ q, s.Queued q := by
    refine h.invariant (fun s => ∃ q, s.Queued q) ?_ ?_
    · intro s none
      exact ⟨[], none.queued⟩
    · rintro s e t ⟨q, queued⟩ - ⟨allowed, done⟩
      obtain ⟨t', q', done', queued'⟩ := queued.event allowed
      cases done.symm.trans done'
      exact ⟨q', queued'⟩
  obtain ⟨q, queued⟩ := queued
  refine ⟨q, queued.wellLinked, fun e allowed => ?_⟩
  obtain ⟨t, -, done, -⟩ := queued.event allowed
  exact ⟨t, done⟩

/-- No task and no queue yet. -/
def noTasks : Tasks := ⟨fun _ => .fresh, none⟩

/-- A task is constructed and added, and its `Run()` adds it again. -/
theorem readding_reach :
    ∃ s, Reach Event.Step (fun _ _ => True) Tasks.NoTasks s ∧ s.taskQueue = none ∧
      s.kind 0 = .deleted := by
  have create : Event.Step noTasks (.call (.create 0 1)) (noTasks.create 0 1) := by
    refine ⟨?_, rfl⟩
    rintro ⟨t, there⟩
    cases there
  have added : ∃ t, Event.Step (noTasks.create 0 1) (.call (.addTask 0)) t ∧
      ∃ u, Event.Step t (.doEvents [.addTask 0]) u ∧ u.taskQueue = none ∧ u.kind 0 = .deleted :=
    ⟨_, ⟨⟨_, rfl⟩, rfl⟩, _, ⟨fun a _ => ⟨⟨_, rfl⟩, fun _ _ => trivial⟩, rfl⟩, rfl, rfl⟩
  obtain ⟨t, add, u, run, empty, deleted⟩ := added
  have start : Reach Event.Step (fun _ _ => True) Tasks.NoTasks noTasks := .start ⟨rfl, fun _ => rfl⟩
  exact ⟨u, .next (.next (.next start trivial create) trivial add) trivial run, empty, deleted⟩

theorem readding_well_linked : ∃ (s : Tasks) (q : List Addr), s.kind 0 = .deleted ∧ s.WellLinked q := by
  obtain ⟨s, reach, -, deleted⟩ := readding_reach
  obtain ⟨q, linked, -⟩ := queue_well_linked reach
  exact ⟨s, q, deleted, linked⟩

end Lavoro.Task
