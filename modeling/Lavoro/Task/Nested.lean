import Lavoro.Lib.Reach
import Lavoro.Task.Select

/-!
# Nested calls of `DoEvents()`

`DoEvents()` runs the task it selects while the task is still on the queue, and dequeues and
deletes it when `Run()` returns. A `Run()` that calls `DoEvents()` itself, as every call on a
socket does, therefore finds the running tasks on the queue, and can start them again. It
does not as long as a task that is waiting precedes every running one in the window.
-/

namespace Lavoro.Task
open Lib

/-- The tasks, those whose `Run()` has not returned, the innermost first, and what has
happened: the tasks started and the tasks deleted, in order. -/
structure Machine where
  tasks : Tasks
  running : List Addr
  started : List Addr
  deleted : List Addr

/-- What the program, or a running task, does next: `new`, `AddTask`, `DoEvents` up to the
call of `Run()`, or the return of the innermost `Run()` and the rest of its `DoEvents`. -/
inductive Action where
  | create (task : Addr) (priority : UInt16)
  | addTask (task : Addr)
  | doEvents
  | finish
  deriving DecidableEq

/-- `none` where a task is accessed that is not there. -/
def step (s : Machine) : Action → Option Machine
  | .create a priority => some { s with tasks := s.tasks.create a priority }
  | .addTask a => do
    let tasks ← s.tasks.addTask a
    some { s with tasks }
  | .doEvents => do
    match ← s.tasks.select with
    | none => some s
    | some a => some { s with running := a :: s.running, started := s.started ++ [a] }
  | .finish =>
    match s.running with
    | [] => some s
    | a :: rest => do
      let tasks ← s.tasks.dequeue a
      let tasks ← tasks.delete a
      some { s with tasks, running := rest, deleted := s.deleted ++ [a] }

/-- Memory is allocated where there has been no task; a task handed to `AddTask` is there. -/
def Enabled (s : Machine) : Action → Prop
  | .create a _ => s.tasks.kind a = .fresh
  | .addTask a => s.tasks.Live a
  | .doEvents => True
  | .finish => s.running ≠ []

instance (s : Tasks) (a : Addr) : Decidable (s.Live a) :=
  decidable_of_iff ((s.task? a).isSome = true) Option.isSome_iff_exists

instance (s : Machine) : (a : Action) → Decidable (Enabled s a)
  | .create a _ => inferInstanceAs (Decidable (s.tasks.kind a = .fresh))
  | .addTask a => inferInstanceAs (Decidable (s.tasks.Live a))
  | .doEvents => .isTrue trivial
  | .finish => inferInstanceAs (Decidable (s.running ≠ []))

/-- An action that is enabled. -/
def execute (s : Machine) (a : Action) : Option Machine :=
  if Enabled s a then step s a else none

def Step (s : Machine) (a : Action) (t : Machine) : Prop := Enabled s a ∧ step s a = some t

/-- There has been no task yet. -/
def initial : Machine := ⟨⟨fun _ => .fresh, none⟩, [], [], []⟩

/-- `a` is selected rather than `b`: its priority is smaller, or it is the same and `a` is
nearer the head. -/
def Precedes (s : Tasks) (a b : Addr) : Prop :=
  s.priority a < s.priority b ∨ s.priority a = s.priority b ∧ s.window.idxOf a < s.window.idxOf b

/-- Every running task in the window is preceded by a waiting one. -/
def Waiting (s : Machine) : Prop :=
  ∀ b ∈ s.tasks.window, b ∈ s.running → ∃ a ∈ s.tasks.window, a ∉ s.running ∧ Precedes s.tasks a b

/-- The actions that start no task again. -/
def Careful (s : Machine) : Action → Prop
  | .doEvents => Waiting s
  | _ => True

instance (s : Machine) : Decidable (Waiting s) := by
  unfold Waiting Precedes
  infer_instance

instance (s : Machine) : (a : Action) → Decidable (Careful s a)
  | .doEvents => inferInstanceAs (Decidable (Waiting s))
  | .create _ _ => .isTrue trivial
  | .addTask _ => .isTrue trivial
  | .finish => .isTrue trivial

/-- Every task is started at most once; the tasks started are those still running, which
are there, and those deleted, once each, to which the queue does not lead any more. -/
structure RunsOnce (s : Machine) : Prop where
  started : s.started.Nodup
  ended : s.started.Perm (s.running ++ s.deleted)
  there : ∀ a ∈ s.running, s.tasks.Live a
  gone : ∀ a ∈ s.deleted, s.tasks.kind a = .deleted
  dequeued : ∀ n, ∀ a ∈ s.tasks.windowFrom n s.tasks.taskQueue, a ∉ s.deleted

/-- What holds between two actions, `q` being the queue. -/
structure Sound (s : Machine) (q : List Addr) : Prop where
  queued : s.tasks.Queued q
  linked : ∀ a ∈ s.running, a ∈ q
  started : s.started.Nodup
  ended : s.started.Perm (s.running ++ s.deleted)
  gone : ∀ a ∈ s.deleted, s.tasks.kind a = .deleted

variable {s t : Machine} {q : List Addr} {a : Addr}

theorem Sound.not_deleted (h : Sound s q) (mem : a ∈ q) : a ∉ s.deleted := by
  intro gone
  obtain ⟨p, live⟩ := Tasks.live_iff_kind.1 (h.queued.live a mem)
  rw [h.gone a gone] at live
  cases live

theorem Sound.runsOnce (h : Sound s q) : RunsOnce s where
  started := h.started
  ended := h.ended
  there a mem := h.queued.live a (h.linked a mem)
  gone := h.gone
  dequeued n a mem := by
    have head : s.tasks.taskQueue = q.head? := h.queued.links.head
    rw [head, h.queued.windowFrom_spec (List.nil_append q).symm n] at mem
    exact h.not_deleted (List.mem_of_mem_take mem)

/-- The selected task has been started before exactly if it is running. -/
theorem Sound.started_iff (h : Sound s q) (mem : a ∈ q) : a ∈ s.started ↔ a ∈ s.running := by
  rw [h.ended.mem_iff, List.mem_append]
  exact or_iff_left (h.not_deleted mem)

theorem Sound.window_subset (h : Sound s q) (mem : a ∈ s.tasks.window) : a ∈ q := by
  rw [h.queued.window_spec] at mem
  exact List.mem_of_mem_take mem

/-- **The task selected is a waiting one** exactly if every running one is preceded. -/
theorem selected_waits_iff (s : Machine) {a : Addr} (selected : a ∈ s.tasks.window.argmin s.tasks.priority) :
    a ∉ s.running ↔ Waiting s := by
  obtain ⟨mem, least, nearest⟩ := List.mem_argmin_iff.1 selected
  constructor
  · intro waits b mem' runs
    refine ⟨a, mem, waits, ?_⟩
    rcases Nat.lt_or_eq_of_le (least b mem') with less | same
    · exact .inl less
    · refine .inr ⟨same, Nat.lt_of_le_of_ne (nearest b mem' (Nat.le_of_eq same.symm)) fun place => ?_⟩
      have equal : a = b := (List.idxOf_inj mem).1 place
      exact waits (equal ▸ runs)
  · intro waiting runs
    obtain ⟨b, mem', -, less | ⟨same, nearer⟩⟩ := waiting a mem runs
    · exact Nat.not_lt_of_le (least b mem') less
    · exact Nat.not_lt_of_le (nearest b mem' (Nat.le_of_eq same)) nearer

/-! ## One action -/

theorem Sound.create (h : Sound s q) {priority : UInt16} (fresh : s.tasks.kind a = .fresh) :
    Sound { s with tasks := s.tasks.create a priority } q where
  queued := h.queued.create_spec fresh priority
  linked := h.linked
  started := h.started
  ended := h.ended
  gone b mem := by
    have other : b ≠ a := by
      rintro rfl
      have gone := h.gone b mem
      rw [fresh] at gone
      cases gone
    have gone := h.gone b mem
    unfold Tasks.kind at gone ⊢
    simpa [Tasks.create, Tasks.put, other] using gone

theorem Sound.addTask (h : Sound s q) (live : s.tasks.Live a) :
    ∃ t q', step s (.addTask a) = some t ∧ Sound t q' := by
  obtain ⟨tasks, added, queued, kind⟩ := h.queued.addTask_spec live
  refine ⟨{ s with tasks }, _, by simp [step, added], queued, fun b runs => ?_, h.started, h.ended, ?_⟩
  · have mem := h.linked b runs
    split
    · exact mem
    · exact List.mem_cons_of_mem _ mem
  · intro b mem
    show tasks.kind b = _
    rw [kind]
    exact h.gone b mem

/-- `DoEvents()` up to the call of `Run()`. -/
theorem Sound.doEvents (h : Sound s q) :
    ∃ t, step s .doEvents = some t ∧ (t.started.Nodup ↔ Waiting s) ∧ (Waiting s → Sound t q) := by
  have select := h.queued.select_spec
  cases selected : s.tasks.window.argmin s.tasks.priority with
  | none =>
    rw [selected] at select
    have empty := List.argmin_eq_none.1 selected
    have waiting : Waiting s := by
      intro b mem
      rw [empty] at mem
      cases mem
    exact ⟨s, by simp [step, select], iff_of_true h.started waiting, fun _ => h⟩
  | some a =>
    rw [selected] at select
    have mem := h.window_subset (List.argmin_mem selected)
    have waits := selected_waits_iff s selected
    have front : (s.started ++ [a]).Perm (a :: s.started) := List.perm_append_singleton a s.started
    have once : (s.started ++ [a]).Nodup ↔ Waiting s := by
      rw [front.nodup_iff, List.nodup_cons, and_iff_left h.started, h.started_iff mem, waits]
    refine ⟨{ s with running := a :: s.running, started := s.started ++ [a] },
      by simp [step, select], once, fun waiting => ?_⟩
    refine ⟨h.queued, fun b runs => ?_, once.2 waiting, ?_, h.gone⟩
    · rcases List.mem_cons.1 runs with rfl | runs
      · exact mem
      · exact h.linked b runs
    · exact front.trans (h.ended.cons a)

/-- The return of the innermost `Run()`. -/
theorem Sound.finish (h : Sound s q) (busy : s.running ≠ []) :
    ∃ t q', step s .finish = some t ∧ Sound t q' := by
  obtain ⟨a, rest, running⟩ := List.exists_cons_of_ne_nil busy
  have mem : a ∈ q := h.linked a (by simp [running])
  have once : (s.running ++ s.deleted).Nodup := h.ended.nodup_iff.1 h.started
  rw [running, List.cons_append, List.nodup_cons] at once
  obtain ⟨tasks, dequeued, queued, kind⟩ := h.queued.dequeue_spec (h.queued.live a mem)
  have live : tasks.Live a := (Tasks.live_of_kind kind).2 (h.queued.live a mem)
  have out : a ∉ q.erase a := h.queued.links.nodup.not_mem_erase
  obtain ⟨tasks', deleted, queued', kind'⟩ := queued.delete_spec live out
  refine ⟨{ s with tasks := tasks', running := rest, deleted := s.deleted ++ [a] }, q.erase a,
    by simp [step, running, dequeued, deleted], queued', fun b runs => ?_, h.started, ?_, fun b gone => ?_⟩
  · have other : b ≠ a := by
      rintro rfl
      exact once.1 (List.mem_append_left _ runs)
    exact (List.mem_erase_of_ne other).2 (h.linked b (by rw [running]; exact List.mem_cons_of_mem _ runs))
  · have moved : (s.running ++ s.deleted).Perm (rest ++ (s.deleted ++ [a])) := by
      rw [running, ← List.append_assoc]
      exact (List.perm_append_singleton a (rest ++ s.deleted)).symm
    exact h.ended.trans moved
  · show tasks'.kind b = _
    rw [kind']
    by_cases same : b = a
    · exact if_pos same
    · rw [if_neg same, kind]
      rcases List.mem_append.1 gone with gone | here
      · exact h.gone b gone
      · exact absurd (List.mem_singleton.1 here) same

/-- An action that is enabled accesses no deleted task. -/
theorem Sound.step_some (h : Sound s q) {a : Action} (enabled : Enabled s a) :
    ∃ t, step s a = some t := by
  cases a with
  | create => exact ⟨_, rfl⟩
  | addTask =>
    obtain ⟨t, -, done, -⟩ := h.addTask enabled
    exact ⟨t, done⟩
  | doEvents =>
    obtain ⟨t, done, -⟩ := h.doEvents
    exact ⟨t, done⟩
  | finish =>
    obtain ⟨t, -, done, -⟩ := h.finish enabled
    exact ⟨t, done⟩

theorem Sound.step_keeps (h : Sound s q) {a : Action} (careful : Careful s a) (taken : Step s a t) :
    ∃ q', Sound t q' := by
  obtain ⟨enabled, done⟩ := taken
  cases a with
  | create =>
    cases done
    exact ⟨q, h.create enabled⟩
  | addTask =>
    obtain ⟨t', q', done', kept⟩ := h.addTask enabled
    cases done.symm.trans done'
    exact ⟨q', kept⟩
  | doEvents =>
    obtain ⟨t', done', -, kept⟩ := h.doEvents
    cases done.symm.trans done'
    exact ⟨q, kept careful⟩
  | finish =>
    obtain ⟨t', q', done', kept⟩ := h.finish enabled
    cases done.symm.trans done'
    exact ⟨q', kept⟩

/-! ## Runs -/

theorem sound_initial : Sound initial [] :=
  ⟨⟨Links.Represents.empty rfl (fun _ => rfl) fun _ => rfl, nofun⟩, nofun, List.nodup_nil, .refl _,
    nofun⟩

theorem execute_sound {s t : Machine} {a : Action} (done : execute s a = some t) : Step s a t := by
  unfold execute at done
  split at done
  · rename_i enabled
    exact ⟨enabled, done⟩
  · cases done

/-- **Every task runs once** in every run in which `DoEvents()` is called only while each
running task in its window is preceded by a waiting one: in each state reached no task has
been started twice and no enabled action accesses a deleted task. The next `DoEvents()` then
starts no task again exactly if the condition holds. -/
theorem tasks_run_once (h : Reach Step Careful (· = initial) s) :
    RunsOnce s ∧ (∀ a, Enabled s a → ∃ t, step s a = some t) ∧
      ∀ t, step s .doEvents = some t → (t.started.Nodup ↔ Waiting s) := by
  have sound : ∃ q, Sound s q := by
    refine h.invariant (fun s => ∃ q, Sound s q) ?_ ?_
    · rintro s rfl
      exact ⟨[], sound_initial⟩
    · rintro s a t ⟨q, sound⟩ careful taken
      exact sound.step_keeps careful taken
  obtain ⟨q, sound⟩ := sound
  refine ⟨sound.runsOnce, fun _ enabled => sound.step_some enabled, fun t done => ?_⟩
  obtain ⟨t', done', once, -⟩ := sound.doEvents
  cases done.symm.trans done'
  exact once

/-- A task runs and adds another one, of a smaller priority, which runs within it. -/
def nestedRun : List Action :=
  [.create 0 1, .addTask 0, .doEvents, .create 1 0, .addTask 1, .doEvents, .finish, .finish]

theorem nested_tasks_run_once :
    ∃ s, runActions execute Careful nestedRun initial = some s ∧ s.deleted = [1, 0] ∧ RunsOnce s := by
  have run : (runActions execute Careful nestedRun initial).map Machine.deleted = some [1, 0] := by
    decide
  obtain ⟨s, run, deleted⟩ := Option.map_eq_some_iff.1 run
  have reach : Reach Step Careful (· = initial) s :=
    .of_runActions (fun _ _ _ => execute_sound) (.start rfl) run
  exact ⟨s, run, deleted, (tasks_run_once reach).1⟩

/-- A task on the queue whose `Run()` calls `DoEvents()`. -/
def reentrantRun : List Action := [.create 0 0, .addTask 0, .doEvents, .doEvents]

/-- It is started again within itself; when the inner `Run()` has returned and the task has
been deleted, the return of the outer one accesses it. -/
theorem running_task_started_again :
    ∃ s t, Reach Step (fun _ _ => True) (· = initial) s ∧ ¬ s.started.Nodup ∧
      step s .finish = some t ∧ step t .finish = none := by
  have run : ∃ s ∈ runActions execute (fun _ _ => True) reentrantRun initial,
      s.started = [0, 0] ∧ ∃ t ∈ step s .finish, step t .finish = none := by
    decide
  obtain ⟨s, run, started, t, done, fault⟩ := run
  refine ⟨s, t, .of_runActions (fun _ _ _ => execute_sound) (.start rfl) run, ?_, done, fault⟩
  rw [started]
  decide

end Lavoro.Task
