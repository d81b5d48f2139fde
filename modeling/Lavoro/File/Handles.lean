import Lavoro.File.Lines
import Lavoro.File.Reading

/-!
# Calls through handles

Every member of `LFile` makes its calls through the one handle it was constructed with, and what
these calls keep (`Kept`) is kept by all members. Below it is used twice: behind an open handle
nothing traps (`Present`), and what has trapped stays so.
-/

namespace Lavoro
open Lib

variable {Node : Type} [DecidableEq Node]

/-- What no call through a handle ends. -/
structure Kept (fw : Firmware Node) (K : Option (Handle Node) × World Node → Prop) : Prop where
  read : ∀ n x, K x → K (Efi.read fw n x).2.2
  write : ∀ payload x, K x → K (Efi.write fw payload x)
  setPosition : ∀ position h w, K (some h, w) →
    K (some (Efi.setPosition fw position h w).1, (Efi.setPosition fw position h w).2)

namespace LFile

/-! ## What the members keep -/

section Kept

variable {fw : Firmware Node} {K : Option (Handle Node) × World Node → Prop}
variable {s : LFile Node × World Node}

theorem next_kept (kept : Kept fw K) (h : K (s.1.handle, s.2)) : K ((next fw s).1.handle, (next fw s).2) :=
  Reader.next_keeps (readBuffer_keeps kept.read) h

theorem current_kept (kept : Kept fw K) (h : K (s.1.handle, s.2)) :
    K ((current fw s).2.1.handle, (current fw s).2.2) :=
  Reader.current_keeps (readBuffer_keeps kept.read) h

theorem read_kept (kept : Kept fw K) (n : Nat) (h : K (s.1.handle, s.2)) :
    K ((read fw n s).2.1.handle, (read fw n s).2.2) :=
  Reader.read_keeps (readBuffer_keeps kept.read) n h

theorem flush_kept (kept : Kept fw K) (h : K (s.1.handle, s.2)) : K ((flush fw s).1.handle, (flush fw s).2) := by
  obtain ⟨f, w⟩ := s
  by_cases none : f.writer.pending = []
  · rw [flush_none none]
    exact h
  · rw [flush_some none]
    exact kept.write _ _ h

theorem write_kept (kept : Kept fw K) (ch : UInt8) (h : K (s.1.handle, s.2)) :
    K ((write fw ch s).1.handle, (write fw ch s).2) := by
  obtain ⟨f, w⟩ := s
  by_cases full : f.writer.pending.length = writerBufferSize
  · rw [write_full full]
    exact kept.write _ _ h
  · obtain ⟨writer, -, room⟩ := write_room fw ch w full
    rw [room]
    exact h

/-- A sequence of `Write`s. -/
theorem foldl_write_kept {α : Type} (kept : Kept fw K) (toByte : α → UInt8) (l : List α) {q : LWriter}
    {x : Option (Handle Node) × World Node} (h : K x) :
    K (l.foldl (fun p a => Writer.write (writeBuffer fw) (toByte a) p) (q, x)).2 := by
  induction l generalizing q x with
  | nil => exact h
  | cons a l ih =>
    have wrote := write_kept kept (toByte a) (s := (⟨Reader.construct fun _ => 0, q, x.1⟩, x.2)) h
    exact ih wrote

theorem writeAll_kept (kept : Kept fw K) (bytes : List UInt8) (h : K (s.1.handle, s.2)) :
    K ((writeAll fw bytes s).1.handle, (writeAll fw bytes s).2) :=
  foldl_write_kept kept id bytes h

theorem writeUnits_kept (kept : Kept fw K) (units : Str16) (h : K (s.1.handle, s.2)) :
    K ((writeUnits fw units s).1.handle, (writeUnits fw units s).2) :=
  foldl_write_kept kept UInt16.toUInt8 units h

theorem setPosition_kept (kept : Kept fw K) (position : Nat) (h : K (s.1.handle, s.2)) :
    K ((setPosition fw position s).1.handle, (setPosition fw position s).2) := by
  have flushed := flush_kept kept (s := ({ s.1 with reader := Reader.reset s.1.reader }, s.2)) h
  unfold setPosition
  simp only
  split
  · rename_i missing
    rw [missing] at flushed
    simpa only [missing] using flushed
  · rename_i a handle
    rw [handle] at flushed
    exact kept.setPosition position a _ flushed

theorem readLineTurn_kept (kept : Kept fw K) (x : Str16 × LFile Node × World Node)
    (h : K (x.2.1.handle, x.2.2)) :
    K ((readLineTurn fw x).state.2.1.handle, (readLineTurn fw x).state.2.2) := by
  have shown := current_kept kept h
  unfold readLineTurn
  split
  · exact h
  · simp only
    split
    · exact next_kept kept shown
    · exact next_kept kept (current_kept kept shown)

theorem readLine_kept (kept : Kept fw K) (turns : Nat) (h : K (s.1.handle, s.2)) :
    K ((readLine fw turns s).state.2.1.handle, (readLine fw turns s).state.2.2) := by
  apply Loop.after_keeps (readLineTurn_kept kept) turns
  exact h

end Kept

/-! ## Open handles and traps -/

section Handles

variable {fw : Firmware Node} {s : LFile Node × World Node}

/-- The handle is open and no call has trapped. -/
def Present (x : Option (Handle Node) × World Node) : Prop := x.1.isSome ∧ x.2.trapped = false

def Trapped (x : Option (Handle Node) × World Node) : Prop := x.2.trapped = true

theorem present_kept (fw : Firmware Node) : Kept fw Present where
  read n x h := by
    obtain ⟨_ | a, w⟩ := x
    · exact absurd h.1 Bool.false_ne_true
    · unfold Efi.read
      simp only
      split <;> exact h
  write payload x h := by
    obtain ⟨_ | a, w⟩ := x
    · exact absurd h.1 Bool.false_ne_true
    · exact h
  setPosition _ _ _ h := h

theorem trapped_kept (fw : Firmware Node) : Kept fw Trapped where
  read n x h := by
    obtain ⟨_ | a, w⟩ := x
    · rfl
    · unfold Efi.read
      simp only
      split <;> exact h
  write payload x h := by
    obtain ⟨_ | a, w⟩ := x
    · rfl
    · exact h
  setPosition _ _ _ h := h

theorem delete_trapped (fw : Firmware Node) (s : LFile Node × World Node) :
    (delete fw s).2.trapped = s.2.trapped := by
  unfold delete
  split
  · rfl
  · simp only [Efi.delete]
    split <;> rfl

omit [DecidableEq Node] in
/-- The first `Next()` through a missing handle. -/
theorem next_closed (fw : Firmware Node) (buffer : Buffer readerBufferSize) (writer : LWriter)
    (w : World Node) :
    (next fw (⟨Reader.construct buffer, writer, none⟩, w)).2 = w.trap ∧
      Reader.atEnd (next fw (⟨Reader.construct buffer, writer, none⟩, w)).1.reader = true ∧
      (next fw (⟨Reader.construct buffer, writer, none⟩, w)).1.handle = none := by
  simp [next, onReader, readBuffer, Reader.next, Reader.nextStep, Reader.construct,
    Reader.fileReadBuffer, Efi.read, Reader.atEnd, Reader.markEnd, sizeAtEnd]

omit [DecidableEq Node] in
/-- **It traps.** -/
theorem next_missing (fw : Firmware Node) (buffer : Buffer readerBufferSize) (writer : LWriter) (w : World Node) :
    (next fw (⟨Reader.construct buffer, writer, none⟩, w)).2.trapped = true := by
  rw [(next_closed fw buffer writer w).1]
  rfl

omit [DecidableEq Node] in
/-- So does the first `Current()`. -/
theorem current_missing (fw : Firmware Node) (buffer : Buffer readerBufferSize) (writer : LWriter) (w : World Node) :
    (current fw (⟨Reader.construct buffer, writer, none⟩, w)).2.2.trapped = true := by
  simp [current, onReader, readBuffer, Reader.current, Reader.currentStep, Reader.nextStep, Reader.construct,
    Reader.fileReadBuffer, Efi.read, Reader.atEnd, Reader.markEnd, sizeAtEnd, World.trap]

/-- And the first `ReadLine`. -/
theorem readLine_missing (fw : Firmware Node) (buffer : Buffer readerBufferSize) (writer : LWriter) (turns : Nat) (w : World Node) :
    (readLine fw (turns + 1) (⟨Reader.construct buffer, writer, none⟩, w)).state.2.2.trapped = true := by
  apply Loop.after_makes (readLineTurn_kept (trapped_kept fw)) turns
  have shown := current_missing fw buffer writer w
  unfold readLineTurn
  split
  · rename_i ended
    exact absurd ended Bool.false_ne_true
  · simp only
    split
    · exact next_kept (trapped_kept fw) shown
    · exact next_kept (trapped_kept fw) (current_kept (trapped_kept fw) shown)

end Handles

/-! ## Opening -/

section Opening

variable {fw : Firmware Node} {path : Str16} {create : Bool} {w : World Node}

/-- `OpenVolume` and `Open` succeed on this path. -/
def Opens (fw : Firmware Node) (path : Str16) (create : Bool) (w : World Node) : Prop :=
  path ≠ [] ∧ fw.opens w.opens = .granted ∧ (create = true ∨ (w.file (fw.nodeOf path)).isSome)

/-- **The handle is missing exactly where they do not.** -/
theorem construct_isSome : (construct fw path create w).1.handle.isSome ↔ Opens fw path create w := by
  unfold construct Opens
  simp only [← List.length_pos_iff]
  split
  · rename_i named
    rw [and_iff_right named]
    unfold Efi.openFile
    simp only
    split
    · split <;> simp_all
    · simp_all
  · rename_i unnamed
    exact iff_of_false Bool.false_ne_true fun opens => unnamed opens.1

theorem construct_trapped : (construct fw path create w).2.trapped = w.trapped := by
  unfold construct
  simp only
  split
  · unfold Efi.openFile
    simp only
    split
    · split <;> rfl
    · rfl
  · rfl

/-- A file that opens. -/
theorem construct_present (opens : Opens fw path create w) (h : w.trapped = false) :
    Present ((construct fw path create w).1.handle, (construct fw path create w).2) :=
  ⟨construct_isSome.2 opens, construct_trapped.trans h⟩

/-- A file that does not open; every file stays as it is. -/
theorem construct_missing (missing : ¬ Opens fw path create w) :
    ∃ i, construct fw path create w =
      (⟨Reader.construct (fw.heap w.opens), Writer.empty, none⟩, { w with opens := i }) := by
  unfold construct
  split
  · rename_i named
    unfold Efi.openFile
    simp only
    split
    · rename_i granted
      split
      · rename_i there
        exact absurd ⟨List.length_pos_iff.1 named, granted, .inr (by rw [there]; rfl)⟩ missing
      · exact absurd ⟨List.length_pos_iff.1 named, granted, .inl rfl⟩ missing
      · exact ⟨w.opens + 1, rfl⟩
    · exact ⟨w.opens + 1, rfl⟩
  · exact ⟨w.opens, rfl⟩

/-- The first `Next()` of a file that does not open. -/
theorem next_construct_missing (missing : ¬ Opens fw path create w) :
    Trapped ((next fw (construct fw path create w)).1.handle, (next fw (construct fw path create w)).2) := by
  obtain ⟨i, constructed⟩ := construct_missing missing
  rw [constructed]
  exact next_missing _ _ _ _

/-- A file that opens for reading is opened at its start. -/
theorem construct_opened (opens : Opens fw path false w) :
    construct fw path false w =
      (⟨Reader.construct (fw.heap w.opens), Writer.empty, some ⟨fw.nodeOf path, 0⟩⟩,
        { w with opens := w.opens + 1 }) := by
  obtain ⟨named, granted, created | there⟩ := opens
  · cases created
  · obtain ⟨c, there⟩ := Option.isSome_iff_exists.1 there
    rw [construct_eq named, openFile_present path false granted there]

end Opening

/-! ## The first read -/

section First

variable (fw : Firmware Node) (buffer : Buffer readerBufferSize) (writer : LWriter) (w : World Node) (n : Node)

omit [DecidableEq Node] in
/-- **The first `Next()`** is at the end of a file that is empty or cannot be read. -/
theorem next_atEnd_iff :
    Reader.atEnd (next fw (⟨Reader.construct buffer, writer, some ⟨n, 0⟩⟩, w)).1.reader = true ↔
      w.content n = [] ∨ fw.reads w.reads = .fails := by
  let fetched := (Reader.fileFetch (Efi.read fw) (some ⟨n, 0⟩, w)).1
  have step := Reader.next_view (s := (some ⟨n, 0⟩, w)) (Reader.fileReadBuffer_refills (Efi.read_fits fw))
    (Reader.plain_construct buffer)
  rw [Reader.view_construct] at step
  have moved : Reader.view (next fw (⟨Reader.construct buffer, writer, some ⟨n, 0⟩⟩, w)).1.reader =
      Cursor.refill fetched := congrArg Prod.fst step
  have ended : Reader.atEnd (next fw (⟨Reader.construct buffer, writer, some ⟨n, 0⟩⟩, w)).1.reader = true ↔
      fetched = [] := by
    rw [Reader.atEnd_iff_view, moved]
    cases fetched <;> simp [Cursor.refill]
  apply ended.trans
  cases answer : fw.reads w.reads with
  | fails => exact iff_of_true (fileFetch_fails answer) (.inr rfl)
  | gives more =>
    have pos := ReadAnswer.span_pos more
    simp only [fetched, fileFetch_gives answer, List.drop_zero, List.take_eq_nil_iff, reduceCtorEq, or_false]
    exact or_iff_right (by omega)

end First

end LFile

/-! ## Loads and commands -/

section Traps

variable {Node : Type}

/-- Where nothing has trapped there is what a call would have trapped without. -/
theorem provided_of_fine {w : World Node} {provided : Prop} (fine : w.trapped = false)
    (missing : ¬ provided → w.trapped = true) : provided := by
  refine Classical.byContradiction fun absent => ?_
  have trapped := missing absent
  rw [fine] at trapped
  cases trapped

/-- However many turns its loops are given, what gets to these worlds makes no call through a missing
handle. -/
def NeverTraps (reached : Nat → World Node) : Prop := ∀ turns, (reached turns).trapped = false

theorem neverTraps_iff {reached : Nat → World Node} {provided : Prop} (sound : provided → NeverTraps reached)
    (turns : Nat) (missing : ¬ provided → (reached turns).trapped = true) :
    NeverTraps reached ↔ provided :=
  ⟨fun never => provided_of_fine (never turns) missing, sound⟩

end Traps

end Lavoro
