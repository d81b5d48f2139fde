import Mathlib.Data.List.Induction
import Lavoro.Stream.Writer

/-!
# What a writer has handed on

A sequence of calls on a writer is, step by step, a sequence of bytes put into the buffer and
of flushes. `logged` is a sink that keeps a list of the payloads besides; at every moment the
payloads, followed by what is still in the buffer, are the bytes written so far.
-/

namespace Lavoro

/-- A call on a writer. -/
inductive WriteCall where
  | byte (ch : UInt8)
  | bytes (buffer : List UInt8)
  | units (buffer : Str16)
  | flush
  deriving Repr

/-- A step of a call. -/
inductive WriteStep where
  | put (ch : UInt8)
  | flush
  deriving Repr, DecidableEq

/-- The steps of a call, in order. -/
def WriteCall.steps : WriteCall → List WriteStep
  | .byte ch => [.put ch]
  | .bytes buffer => buffer.map .put
  | .units buffer => buffer.map fun unit => .put unit.toUInt8
  | .flush => [.flush]

/-- The byte that a step writes. -/
def WriteStep.byte? : WriteStep → Option UInt8
  | .put ch => some ch
  | .flush => none

/-- The bytes that the steps write. -/
def bytesWritten (steps : List WriteStep) : List UInt8 := steps.filterMap WriteStep.byte?

@[simp] theorem bytesWritten_nil : bytesWritten [] = [] := rfl

@[simp] theorem bytesWritten_snoc_put (steps : List WriteStep) (ch : UInt8) :
    bytesWritten (steps ++ [.put ch]) = bytesWritten steps ++ [ch] :=
  List.filterMap_append

@[simp] theorem bytesWritten_snoc_flush (steps : List WriteStep) :
    bytesWritten (steps ++ [.flush]) = bytesWritten steps :=
  List.filterMap_append.trans (List.append_nil _)

namespace Writer

variable {σ : Type}

/-- A call, as the member does it. -/
def call (writeBuffer : WriteBuffer σ) : WriteCall → LWriter × σ → LWriter × σ
  | .byte ch => write writeBuffer ch
  | .bytes buffer => writeAll writeBuffer buffer
  | .units buffer => writeUnits writeBuffer buffer
  | .flush => flush writeBuffer

def step (writeBuffer : WriteBuffer σ) : WriteStep → LWriter × σ → LWriter × σ
  | .put ch => write writeBuffer ch
  | .flush => flush writeBuffer

def runCalls (writeBuffer : WriteBuffer σ) (calls : List WriteCall) (p : LWriter × σ) : LWriter × σ :=
  calls.foldl (fun q c => call writeBuffer c q) p

def runSteps (writeBuffer : WriteBuffer σ) (steps : List WriteStep) (p : LWriter × σ) : LWriter × σ :=
  steps.foldl (fun q a => step writeBuffer a q) p

@[simp] theorem runSteps_snoc (writeBuffer : WriteBuffer σ) (steps : List WriteStep) (a : WriteStep)
    (p : LWriter × σ) :
    runSteps writeBuffer (steps ++ [a]) p = step writeBuffer a (runSteps writeBuffer steps p) :=
  List.foldl_append

/-- A call does its steps. -/
theorem call_eq_runSteps (writeBuffer : WriteBuffer σ) (c : WriteCall) (p : LWriter × σ) :
    call writeBuffer c p = runSteps writeBuffer c.steps p := by
  cases c with
  | byte ch => rfl
  | bytes buffer =>
    rw [WriteCall.steps, runSteps, List.foldl_map]
    rfl
  | units buffer =>
    rw [WriteCall.steps, runSteps, List.foldl_map]
    rfl
  | flush => rfl

theorem runCalls_eq_runSteps (writeBuffer : WriteBuffer σ) (calls : List WriteCall) (p : LWriter × σ) :
    runCalls writeBuffer calls p = runSteps writeBuffer (calls.flatMap WriteCall.steps) p := by
  induction calls generalizing p with
  | nil => rfl
  | cons c calls ih =>
    have others := ih (call writeBuffer c p)
    rw [call_eq_runSteps] at others
    rw [List.flatMap_cons, runSteps, List.foldl_append]
    exact (congrArg (runCalls writeBuffer calls) (call_eq_runSteps writeBuffer c p)).trans others

/-! ## The log -/

/-- A sink that also keeps the list of the payloads it has been handed. -/
def logged (send : List UInt8 → σ → σ) (payload : List UInt8) (s : σ × List (List UInt8)) :
    σ × List (List UInt8) :=
  (send payload s.1, s.2 ++ [payload])

/-- Without its log. -/
def erase (p : LWriter × σ × List (List UInt8)) : LWriter × σ := (p.1, p.2.1)

section Erasure

variable (send : List UInt8 → σ → σ)

theorem sendPending_erase (p : LWriter × σ × List (List UInt8)) :
    sendPending send (erase p) = (sendPending (logged send) p).1 := by
  by_cases some : p.1.pending ≠ []
  · rw [sendPending, sendPending, if_pos some]
    exact if_pos some
  · rw [sendPending, sendPending, if_neg some]
    exact if_neg some

theorem flush_erase (p : LWriter × σ × List (List UInt8)) :
    flush (sendPending send) (erase p) = erase (flush (sendPending (logged send)) p) :=
  congrArg (Prod.mk empty) (sendPending_erase send p)

theorem step_erase (a : WriteStep) (p : LWriter × σ × List (List UInt8)) :
    step (sendPending send) a (erase p) = erase (step (sendPending (logged send)) a p) := by
  cases a with
  | flush => exact flush_erase send p
  | put ch =>
    have flushed := flush_erase send p
    unfold step write
    by_cases full : p.1.pending.length = writerBufferSize
    · simp only [erase] at flushed ⊢
      simp only [full, dif_pos, flushed]
    · simp [erase, full]

/-- The log changes nothing. -/
theorem runSteps_erase (steps : List WriteStep) (p : LWriter × σ × List (List UInt8)) :
    runSteps (sendPending send) steps (erase p) = erase (runSteps (sendPending (logged send)) steps p) := by
  induction steps generalizing p with
  | nil => rfl
  | cons a steps ih =>
    have others := ih (step (sendPending (logged send)) a p)
    rw [← step_erase] at others
    exact others

end Erasure

/-- The payloads and the buffer of a writer hold what has been written, in order. -/
structure InOrder (p : LWriter × σ × List (List UInt8)) (written : List UInt8) : Prop where
  current : p.1.pending.length ≤ writerBufferSize
  kept : p.2.2.flatten ++ p.1.pending = written
  payloads : ∀ payload ∈ p.2.2, 1 ≤ payload.length ∧ payload.length ≤ writerBufferSize

section Order

variable {send : List UInt8 → σ → σ} {p : LWriter × σ × List (List UInt8)} {written : List UInt8}

/-- A fresh writer has handed on nothing. -/
theorem inOrder_empty (s : σ) : InOrder (empty, s, []) [] where
  current := empty.bound
  kept := rfl
  payloads _ mem := absurd mem List.not_mem_nil

/-- **A flush** at any fill level. -/
theorem inOrder_flush (h : InOrder p written) : InOrder (flush (sendPending (logged send)) p) written where
  current := empty.bound
  kept := by
    have kept := h.kept
    unfold flush sendPending
    split
    · simpa [logged, empty] using kept
    · rename_i none
      rw [Decidable.not_not.1 none] at kept
      simpa [empty] using kept
  payloads := by
    unfold flush sendPending
    split
    · rename_i some
      intro payload mem
      rcases List.mem_append.1 mem with old | new
      · exact h.payloads payload old
      · rw [List.mem_singleton.1 new]
        exact ⟨List.length_pos_iff.2 some, h.current⟩
    · exact h.payloads

/-- **A byte put into the buffer**, which is flushed before if it is full. -/
theorem inOrder_write (h : InOrder p written) (ch : UInt8) :
    InOrder (write (sendPending (logged send)) ch p) (written ++ [ch]) := by
  unfold write
  split
  · have flushed : InOrder (flush (sendPending (logged send)) p) written := inOrder_flush h
    have kept := flushed.kept
    refine ⟨Nat.succ_pos 127, ?_, flushed.payloads⟩
    rw [← kept]
    simp [flush, empty]
  · rename_i room
    have bound := p.1.bound
    refine ⟨?_, ?_, h.payloads⟩
    · simp only [List.length_append, List.length_singleton]
      omega
    · rw [← h.kept, List.append_assoc]

theorem inOrder_step (steps : List WriteStep) (a : WriteStep) (h : InOrder p (bytesWritten steps)) :
    InOrder (step (sendPending (logged send)) a p) (bytesWritten (steps ++ [a])) := by
  cases a with
  | put ch =>
    rw [bytesWritten_snoc_put]
    exact inOrder_write h ch
  | flush =>
    rw [bytesWritten_snoc_flush]
    exact inOrder_flush h

/-- **A run** keeps the order from a fresh writer on. -/
theorem inOrder_runSteps (send : List UInt8 → σ → σ) (steps : List WriteStep) (s : σ) :
    InOrder (runSteps (sendPending (logged send)) steps (empty, s, [])) (bytesWritten steps) := by
  induction steps using List.reverseRecOn with
  | nil => exact inOrder_empty s
  | append_singleton steps a ih =>
    rw [runSteps_snoc]
    exact inOrder_step steps a ih

end Order

/-! ## A sink that receives everything -/

section Receiving

variable {send : List UInt8 → σ → σ} {received : σ → List UInt8} {Good : σ → Prop}

/-- A flush moves the buffer to what the sink has received. -/
theorem received_flush {p : LWriter × σ} (good : Good p.2)
    (takes : ∀ payload s, Good s → Good (send payload s) ∧ received (send payload s) = received s ++ payload) :
    Good (flush (sendPending send) p).2 ∧
      received (flush (sendPending send) p).2 = received p.2 ++ p.1.pending := by
  unfold flush sendPending
  split
  · exact takes p.1.pending p.2 good
  · rename_i none
    rw [Decidable.not_not.1 none, List.append_nil]
    exact ⟨good, rfl⟩

/-- What a sink that takes every payload has received, and what is still in the buffer. -/
theorem received_runSteps (steps : List WriteStep) {s : σ} (good : Good s)
    (takes : ∀ payload s, Good s → Good (send payload s) ∧ received (send payload s) = received s ++ payload) :
    let p := runSteps (sendPending send) steps (empty, s)
    Good p.2 ∧ received p.2 ++ p.1.pending = received s ++ bytesWritten steps := by
  induction steps using List.reverseRecOn with
  | nil => exact ⟨good, rfl⟩
  | append_singleton steps a ih =>
    obtain ⟨good, kept⟩ := ih
    obtain ⟨good', all⟩ := received_flush good takes
    rw [runSteps_snoc]
    cases a with
    | flush =>
      rw [bytesWritten_snoc_flush, ← kept, ← all]
      exact ⟨good', List.append_nil _⟩
    | put ch =>
      rw [bytesWritten_snoc_put, ← List.append_assoc, ← kept]
      simp only [step, write]
      split
      · exact ⟨good', congrArg (· ++ [ch]) all⟩
      · exact ⟨good, (List.append_assoc _ _ _).symm⟩

end Receiving

/-- After its last step a run has something in the buffer exactly when that step was a byte. -/
theorem pending_runSteps_eq_nil_iff (writeBuffer : WriteBuffer σ) (steps : List WriteStep) (s : σ) :
    (runSteps writeBuffer steps (empty, s)).1.pending = [] ↔ ∀ ch, steps.getLast? ≠ some (.put ch) := by
  induction steps using List.reverseRecOn with
  | nil => simp [runSteps, empty]
  | append_singleton steps a ih =>
    rw [runSteps_snoc, List.getLast?_concat]
    cases a with
    | flush => simp [step, flush, empty]
    | put ch =>
      simp only [step, write]
      split <;> simp

end Writer

end Lavoro
