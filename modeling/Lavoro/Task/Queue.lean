import Mathlib.Data.List.MinMax
import Lavoro.Lib.DList

/-!
# The task queue (`ltask.hpp`, `ltask.cpp`)

Tasks live in memory at addresses that are not used twice; an operation that reads or
writes a task that is not there any more is `none`. The queue is a doubly linked list,
`TaskQueue` its head. Every operation is stated by what it does to the links (`links`) and
by what it leaves alone (`kind`: which tasks there are, and their priorities).
-/

namespace Lavoro.Task
open Lib

/-- A pointer to a task that is not `NULL`. -/
abbrev Addr := Nat

structure LTask where
  priority : UInt16
  left : Option Addr
  right : Option Addr
  deriving Repr, DecidableEq

/-- What is at an address: nothing yet, a task, or a task that has been deleted. -/
inductive Cell where
  | fresh
  | live (task : LTask)
  | deleted
  deriving Repr, DecidableEq

structure Tasks where
  cells : Addr → Cell
  taskQueue : Option Addr

/-- `TaskQueueSelectLength`. -/
def taskQueueSelectLength : Nat := 4

namespace Tasks

/-- The task at an address, if it is there. -/
def task? (s : Tasks) (a : Addr) : Option LTask :=
  match s.cells a with
  | .live t => some t
  | _ => none

def put (s : Tasks) (a : Addr) (c : Cell) : Tasks :=
  { s with cells := fun b => if b = a then c else s.cells b }

/-- A write through a pointer, unless it is `NULL`. -/
def write (s : Tasks) (task : Option Addr) (f : LTask → LTask) : Option Tasks :=
  match task with
  | none => some s
  | some a => (s.task? a).map fun t => s.put a (.live (f t))

/-- `if (task) task->Left = p`. -/
def setLeft (s : Tasks) (task p : Option Addr) : Option Tasks :=
  s.write task fun t => { t with left := p }

/-- `if (task) task->Right = p`. -/
def setRight (s : Tasks) (task p : Option Addr) : Option Tasks :=
  s.write task fun t => { t with right := p }

/-- `new LTask(Priority)`. -/
def create (s : Tasks) (a : Addr) (priority : UInt16) : Tasks :=
  s.put a (.live ⟨priority, none, none⟩)

/-- `IsRunning()`. -/
def isRunning (s : Tasks) (a : Addr) : Option Bool :=
  (s.task? a).map fun t => t.left != none || t.right != none || s.taskQueue == some a

/-- `Enqueue()`. -/
def enqueue (s : Tasks) (a : Addr) : Option Tasks := do
  let prior := s.taskQueue
  let s ← { s with taskQueue := some a }.setRight (some a) prior
  s.setLeft prior (some a)

/-- `Dequeue()`. -/
def dequeue (s : Tasks) (a : Addr) : Option Tasks := do
  let t ← s.task? a
  let s ← s.setRight t.left t.right
  let s ← s.setLeft t.right t.left
  let s ← s.setLeft (some a) none
  let s ← s.setRight (some a) none
  if s.taskQueue = some a then some { s with taskQueue := t.right } else some s

/-- `delete task`. -/
def delete (s : Tasks) (a : Addr) : Option Tasks :=
  (s.task? a).map fun _ => s.put a .deleted

/-- `AddTask(task)`. -/
def addTask (s : Tasks) (a : Addr) : Option Tasks := do
  if ← s.isRunning a then some s else s.enqueue a

/-- The loop of `DoEvents()` over at most `n` tasks from `taskQueue` on. -/
def selectFrom (s : Tasks) : Nat → Option Addr → Option Addr → Option (Option Addr)
  | 0, _, selectedTask => some selectedTask
  | _ + 1, none, selectedTask => some selectedTask
  | n + 1, some a, selectedTask => do
    let t ← s.task? a
    match selectedTask with
    | none => s.selectFrom n t.right (some a)
    | some b => do
      let u ← s.task? b
      s.selectFrom n t.right (some (if u.priority > t.priority then a else b))

/-- The task that `DoEvents()` selects. -/
def select (s : Tasks) : Option (Option Addr) :=
  s.selectFrom taskQueueSelectLength s.taskQueue none

end Tasks

/-! ## What the operations do to the links -/

/-- What of a cell is not a link. -/
inductive Kind where
  | fresh
  | live (priority : UInt16)
  | deleted
  deriving DecidableEq

def Cell.kind : Cell → Kind
  | .fresh => .fresh
  | .live t => .live t.priority
  | .deleted => .deleted

/-- The cell holds no links. -/
def Cell.Unlinked (c : Cell) : Prop := ∀ t, c = .live t → t.left = none ∧ t.right = none

namespace Tasks

def kind (s : Tasks) (a : Addr) : Kind := (s.cells a).kind

/-- The links of the tasks that are there. -/
def links (s : Tasks) : Links Addr where
  head := s.taskQueue
  left a := (s.task? a).bind LTask.left
  right a := (s.task? a).bind LTask.right

/-- There is a task at this address. -/
def Live (s : Tasks) (a : Addr) : Prop := ∃ t, s.task? a = some t

variable {s : Tasks} {a : Addr} {p : Option Addr}

theorem live_iff_kind : s.Live a ↔ ∃ priority, s.kind a = .live priority := by
  unfold Live task? kind
  cases s.cells a with
  | fresh => simp [Cell.kind]
  | live t => simp [Cell.kind]
  | deleted => simp [Cell.kind]

/-- Operations that change links only keep the tasks. -/
theorem live_of_kind {s' : Tasks} (same : s'.kind = s.kind) : s'.Live a ↔ s.Live a := by
  rw [live_iff_kind, live_iff_kind, same]

theorem task?_put (s : Tasks) (a b : Addr) (t : LTask) :
    (s.put a (.live t)).task? b = if a = b then some t else s.task? b := by
  by_cases here : a = b
  · simp [task?, put, here]
  · simp [task?, put, here, Ne.symm here]

theorem kind_put {c : Cell} (same : c.kind = s.kind a) : (s.put a c).kind = s.kind := by
  funext b
  unfold kind put
  simp only
  split
  · rename_i here
    rw [here, same]
    rfl
  · rfl

theorem kind_of_task? {t : LTask} (here : s.task? a = some t) : s.kind a = .live t.priority := by
  unfold task? at here
  unfold kind
  cases hc : s.cells a with
  | fresh => simp [hc] at here
  | deleted => simp [hc] at here
  | live u =>
    rw [hc] at here
    cases here
    rfl

/-- A write that changes links only. -/
theorem write_spec {task : Option Addr} {f : LTask → LTask} (live : ∀ a ∈ task, s.Live a)
    (keeps : ∀ t, (f t).priority = t.priority) :
    ∃ s', s.write task f = some s' ∧ s'.taskQueue = s.taskQueue ∧ s'.kind = s.kind ∧
      ∀ b, s'.task? b = if task = some b then (s.task? b).map f else s.task? b := by
  cases task with
  | none => exact ⟨s, rfl, rfl, rfl, fun b => by simp⟩
  | some a =>
    obtain ⟨t, here⟩ := live a rfl
    have same : (Cell.live (f t)).kind = s.kind a := by
      rw [kind_of_task? here]
      exact congrArg Kind.live (keeps t)
    refine ⟨s.put a (.live (f t)), by simp [write, here], rfl, kind_put same, fun b => ?_⟩
    rw [task?_put]
    by_cases at' : a = b
    · subst at'
      simp [here]
    · simp [at']

/-- `if (task) task->Left = p` on the links. -/
theorem setLeft_spec {task : Option Addr} (p : Option Addr) (live : ∀ a ∈ task, s.Live a) :
    ∃ s', s.setLeft task p = some s' ∧ s'.links = s.links.setLeft task p ∧ s'.kind = s.kind := by
  obtain ⟨s', done, head, kind, tasks⟩ :=
    write_spec (f := fun t => { t with left := p }) live fun _ => rfl
  refine ⟨s', done, Links.ext head (funext fun b => ?_) (funext fun b => ?_), kind⟩
  · simp only [links, Links.setLeft, tasks]
    split
    · rename_i here
      obtain ⟨t, there⟩ := live b here
      rw [there]
      rfl
    · rfl
  · simp only [links, Links.setLeft, tasks]
    split
    · cases s.task? b <;> rfl
    · rfl

/-- `if (task) task->Right = p` on the links. -/
theorem setRight_spec {task : Option Addr} (p : Option Addr) (live : ∀ a ∈ task, s.Live a) :
    ∃ s', s.setRight task p = some s' ∧ s'.links = s.links.setRight task p ∧ s'.kind = s.kind := by
  obtain ⟨s', done, head, kind, tasks⟩ :=
    write_spec (f := fun t => { t with right := p }) live fun _ => rfl
  refine ⟨s', done, Links.ext head (funext fun b => ?_) (funext fun b => ?_), kind⟩
  · simp only [links, Links.setRight, tasks]
    split
    · cases s.task? b <;> rfl
    · rfl
  · simp only [links, Links.setRight, tasks]
    split
    · rename_i here
      obtain ⟨t, there⟩ := live b here
      rw [there]
      rfl
    · rfl

/-- **The queue**: the links represent the list `q`, whose tasks are all there. -/
structure Queued (s : Tasks) (q : List Addr) : Prop where
  links : s.links.Represents q
  live : ∀ a ∈ q, s.Live a

variable {q : List Addr}

theorem Queued.live_head (h : s.Queued q) : ∀ a ∈ s.taskQueue, s.Live a := by
  intro a first
  have head : q.head? = some a := h.links.head.symm.trans first
  exact h.live a (List.mem_of_mem_head? head)

/-- The neighbours of a task are tasks of the queue. -/
theorem Queued.live_left (h : s.Queued q) (a : Addr) : ∀ b ∈ s.links.left a, s.Live b := by
  intro b left
  by_cases mem : a ∈ q
  · obtain ⟨xs, ys, rfl⟩ := List.append_of_mem mem
    have last : xs.getLast? = some b := (h.links.inside xs a ys rfl).1.symm.trans left
    exact h.live b (List.mem_append_left _ (List.mem_of_getLast? last))
  · rw [(h.links.outside a mem).1] at left
    cases left

theorem Queued.live_right (h : s.Queued q) (a : Addr) : ∀ b ∈ s.links.right a, s.Live b := by
  intro b right
  by_cases mem : a ∈ q
  · obtain ⟨xs, ys, rfl⟩ := List.append_of_mem mem
    have first : ys.head? = some b := (h.links.inside xs a ys rfl).2.symm.trans right
    exact h.live b (List.mem_append_right _ (List.mem_cons_of_mem _ (List.mem_of_mem_head? first)))
  · rw [(h.links.outside a mem).2] at right
    cases right

/-- `IsRunning()` tells whether a task is on the queue. -/
theorem Queued.isRunning_spec (h : s.Queued q) (live : s.Live a) :
    s.isRunning a = some (decide (a ∈ q)) := by
  obtain ⟨t, here⟩ := live
  have left : s.links.left a = t.left := by simp [Tasks.links, here]
  have right : s.links.right a = t.right := by simp [Tasks.links, here]
  have linked := h.links.linked_iff a
  rw [left, right] at linked
  have head : s.links.head = s.taskQueue := rfl
  rw [head] at linked
  simp only [isRunning, here, Option.map_some, Option.some.injEq]
  rw [Bool.eq_iff_iff, decide_eq_true_iff, ← linked]
  simp [or_assoc]

/-- **`Enqueue()`** puts a task that is not on the queue at its head. -/
theorem Queued.enqueue_spec (h : s.Queued q) (live : s.Live a) (out : a ∉ q) :
    ∃ s', s.enqueue a = some s' ∧ s'.Queued (a :: q) ∧ s'.kind = s.kind := by
  have live₁ : ∀ b ∈ some a, Live { s with taskQueue := some a } b := by
    rintro b mem
    cases mem
    exact live
  obtain ⟨s₁, step₁, links₁, kind₁⟩ := setRight_spec s.taskQueue live₁
  have live₂ : ∀ b ∈ s.taskQueue, s₁.Live b := fun b first => (live_of_kind kind₁).2 (h.live_head b first)
  obtain ⟨s₂, step₂, links₂, kind₂⟩ := setLeft_spec (some a) live₂
  have kind : s₂.kind = s.kind := kind₂.trans kind₁
  refine ⟨s₂, ?_, ⟨?_, ?_⟩, kind⟩
  · simp [enqueue, step₁, step₂]
  · have push : s₂.links = s.links.push a := by
      rw [links₂, links₁]
      rfl
    rw [push]
    exact h.links.push out
  · intro b mem
    rw [live_of_kind kind]
    rcases List.mem_cons.1 mem with rfl | mem
    · exact live
    · exact h.live b mem

/-- **`AddTask`** puts a task at the head of the queue if it is not on it, and else does
nothing. -/
theorem Queued.addTask_spec (h : s.Queued q) (live : s.Live a) :
    ∃ s', s.addTask a = some s' ∧ s'.Queued (if a ∈ q then q else a :: q) ∧ s'.kind = s.kind := by
  have running := h.isRunning_spec live
  by_cases mem : a ∈ q
  · refine ⟨s, ?_, ?_, rfl⟩
    · simp [addTask, running, mem]
    · rwa [if_pos mem]
  · obtain ⟨s', step, queued, kind⟩ := h.enqueue_spec live mem
    refine ⟨s', ?_, ?_, kind⟩
    · simp [addTask, running, mem, step]
    · rwa [if_neg mem]

/-- **`Dequeue()`** takes a task off the queue, wherever it stands. -/
theorem Queued.dequeue_spec (h : s.Queued q) (live : s.Live a) :
    ∃ s', s.dequeue a = some s' ∧ s'.Queued (q.erase a) ∧ s'.kind = s.kind := by
  obtain ⟨t, here⟩ := live
  have left : s.links.left a = t.left := by simp [Tasks.links, here]
  have right : s.links.right a = t.right := by simp [Tasks.links, here]
  obtain ⟨s₁, step₁, links₁, kind₁⟩ := setRight_spec t.right (left ▸ h.live_left a)
  have live₂ : ∀ b ∈ t.right, s₁.Live b :=
    fun b mem => (live_of_kind kind₁).2 ((right ▸ h.live_right a) b mem)
  obtain ⟨s₂, step₂, links₂, kind₂⟩ := setLeft_spec t.left live₂
  have live₃ : ∀ b ∈ some a, s₂.Live b := by
    rintro b mem
    cases mem
    exact (live_of_kind (kind₂.trans kind₁)).2 ⟨t, here⟩
  obtain ⟨s₃, step₃, links₃, kind₃⟩ := setLeft_spec none live₃
  have live₄ : ∀ b ∈ some a, s₃.Live b := fun b mem => (live_of_kind kind₃).2 (live₃ b mem)
  obtain ⟨s₄, step₄, links₄, kind₄⟩ := setRight_spec none live₄
  have kind : s₄.kind = s.kind := kind₄.trans (kind₃.trans (kind₂.trans kind₁))
  have links : s₄.links = (((s.links.setRight t.left t.right).setLeft t.right t.left).setLeft
      (some a) none).setRight (some a) none := by
    rw [links₄, links₃, links₂, links₁]
  have head : s₄.taskQueue = s.taskQueue := congrArg Links.head links
  have unlink : s.links.unlink a =
      { s₄.links with head := if s.taskQueue = some a then t.right else s.taskQueue } := by
    rw [links, Links.unlink, left, right]
    rfl
  have erased := h.links.unlink a
  have stay : ∀ b ∈ q.erase a, s₄.Live b :=
    fun b mem => (live_of_kind kind).2 (h.live b (List.mem_of_mem_erase mem))
  rw [unlink] at erased
  by_cases first : s.taskQueue = some a
  · rw [if_pos first] at erased
    refine ⟨{ s₄ with taskQueue := t.right }, ?_, ⟨erased, stay⟩, kind⟩
    simp [dequeue, here, step₁, step₂, step₃, step₄, head, first]
  · rw [if_neg first, ← head] at erased
    refine ⟨s₄, ?_, ⟨erased, stay⟩, kind⟩
    simp [dequeue, here, step₁, step₂, step₃, step₄, head, first]

/-- A cell off the queue is replaced. -/
theorem Queued.put (h : s.Queued q) {c : Cell} (out : a ∉ q) (unlinked : Cell.Unlinked c) :
    (s.put a c).Queued q := by
  obtain ⟨left, right⟩ := h.links.outside a out
  have here : ((s.put a c).task? a).bind LTask.left = none ∧
      ((s.put a c).task? a).bind LTask.right = none := by
    cases c with
    | fresh => simp [task?, Tasks.put]
    | deleted => simp [task?, Tasks.put]
    | live t =>
      rw [task?_put, if_pos rfl]
      exact unlinked t rfl
  have there : ∀ b, b ≠ a → (s.put a c).task? b = s.task? b := by
    intro b other
    simp [task?, Tasks.put, other]
  have links : (s.put a c).links = s.links := by
    refine Links.ext rfl (funext fun b => ?_) (funext fun b => ?_)
    · by_cases same : b = a
      · subst same
        exact here.1.trans left.symm
      · simp [Tasks.links, there b same]
    · by_cases same : b = a
      · subst same
        exact here.2.trans right.symm
      · simp [Tasks.links, there b same]
  refine ⟨links ▸ h.links, fun b mem => ?_⟩
  have other : b ≠ a := by
    rintro rfl
    exact out mem
  obtain ⟨t, at'⟩ := h.live b mem
  exact ⟨t, (there b other).trans at'⟩

/-- **`new LTask`** leaves the queue alone. -/
theorem Queued.create_spec (h : s.Queued q) (fresh : s.kind a = .fresh) (priority : UInt16) :
    (s.create a priority).Queued q := by
  refine h.put (fun mem => ?_) ?_
  · obtain ⟨p, live⟩ := live_iff_kind.1 (h.live a mem)
    rw [fresh] at live
    cases live
  · rintro t made
    cases made
    exact ⟨rfl, rfl⟩

/-- **`delete`** of a task that is off the queue. -/
theorem Queued.delete_spec (h : s.Queued q) (live : s.Live a) (out : a ∉ q) :
    ∃ s', s.delete a = some s' ∧ s'.Queued q ∧
      ∀ b, s'.kind b = if b = a then .deleted else s.kind b := by
  obtain ⟨t, here⟩ := live
  refine ⟨s.put a .deleted, by simp [delete, here], h.put out nofun, fun b => ?_⟩
  unfold kind Tasks.put
  simp only
  split <;> rfl

end Tasks

end Lavoro.Task
