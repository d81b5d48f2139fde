import Lavoro.Console.Copy
import Lavoro.File.Handles
import Lavoro.File.Landed

/-!
# The command `mv`

`mv` copies as `cp` does and deletes the source without having looked at any result.
Below is what it leaves behind for every answer of the firmware: a source that cannot be
opened traps at the first read, a destination that cannot be opened traps at the first
byte sent, and otherwise the destination holds what landed over what it held.
-/

namespace Lavoro.Console
open Lib

variable {Node : Type} [DecidableEq Node] {fw : Firmware Node}

/-! ## A source that cannot be opened -/

theorem openFile_refused (path : Str16) (create : Bool) {w : World Node}
    (refused : fw.opens w.opens ≠ .granted) :
    Efi.openFile fw path create w = (none, { w with opens := w.opens + 1 }) := by
  unfold Efi.openFile
  cases answer : fw.opens w.opens with
  | granted => exact absurd answer refused
  | noVolume => rfl
  | refused => rfl

/-- Without a source the copy ends in a trap. -/
theorem copyFile_noSource {src dst : Str16} (srcPath : src ≠ []) (dstPath : dst ≠ [])
    (file : Node → Option (List UInt8)) (refused : fw.opens 0 ≠ .granted) :
    ∃ st, (∃ fuel, copyFile fw src dst fuel (World.start file) = some st) ∧
      st.world.trapped = true ∧ st.file.handle = none := by
  have first := openFile_refused src false (w := World.start file) refused
  obtain ⟨y, w', second⟩ : ∃ y w', Efi.openFile fw dst true { World.start file with opens := 1 } = (y, w') :=
    ⟨_, _, rfl⟩
  obtain ⟨world, ended, handle⟩ := LFile.next_closed fw (fw.heap 0) Writer.empty w'
  have opened := openBoth_eq srcPath dstPath first second rfl
  have stop : copyTurn fw (openBoth fw src dst (World.start file)) =
      .leave (openBoth fw src dst (World.start file)) := by
    rw [copyTurn, opened]
    simp only [ended, if_true]
  refine ⟨_, copyFile_of_leaves ((Loop.leaves_leave stop).2 rfl), ?_, ?_⟩
  · rw [opened]
    simp only
    rw [LFile.flush_none rfl, world]
    rfl
  · rw [opened]
    exact handle

/-! ## A destination that cannot be opened -/

/-- The copy of the file `s` to a file that could not be opened. -/
structure Uncopied (fw : Firmware Node) (s : Node) (c : List UInt8) (file : Node → Option (List UInt8))
    (out left : List UInt8) (st : Copying Node) : Prop where
  reading : Reading fw s c out left st.file st.world
  closed : st.fileCopy.handle = none
  waits : st.fileCopy.writer.pending = [] ↔ out = []
  files : st.world.file = file
  deletes : st.world.deletes = 0
  trapped : out = [] → st.world.trapped = false

/-- A write through a missing handle is kept in the buffer or traps. -/
theorem write_closed (fw : Firmware Node) {f : LFile Node} {w : World Node} (ch : UInt8)
    (closed : f.handle = none) :
    ∃ writer t, writer.pending ≠ [] ∧
      LFile.write fw ch (f, w) = ({ f with writer }, { w with trapped := t }) := by
  by_cases full : f.writer.pending.length = writerBufferSize
  · refine ⟨⟨[ch], Nat.succ_pos 127⟩, true, List.cons_ne_nil ch [], ?_⟩
    rw [LFile.write_full full, closed]
    obtain ⟨reader, writer, handle⟩ := f
    cases closed
    rfl
  · obtain ⟨writer, pending, room⟩ := LFile.write_room fw ch w full
    refine ⟨writer, w.trapped, ?_, room⟩
    rw [pending]
    exact List.append_ne_nil_of_right_ne_nil _ (List.cons_ne_nil ch [])

theorem uncopied_turn {s : Node} {c : List UInt8} {file : Node → Option (List UInt8)}
    {out left : List UInt8} {st : Copying Node} (src : file s = some c) {b : UInt8}
    (h : Uncopied fw s c file out (b :: left) st) :
    ∃ st', copyTurn fw st = .again st' ∧ Uncopied fw s c file (out ++ [b]) left st' := by
  obtain ⟨srcFile, fileCopy, world⟩ := st
  obtain ⟨writer, t, pending, wrote⟩ := write_closed fw b h.closed (w := world)
  have unread : ∀ i, out.length < i →
      (({ world with trapped := t } : World Node).content s).drop i = c.drop i := by
    intro i _
    have files : world.file = file := h.files
    rw [World.content, files, src]
    rfl
  obtain ⟨srcFile', k, turn, reading⟩ := reading_turn h.reading wrote rfl unread
  have some : out ++ [b] ≠ [] := List.append_ne_nil_of_right_ne_nil _ (List.cons_ne_nil b [])
  exact ⟨_, turn, {
    reading := reading
    closed := h.closed
    waits := iff_of_false pending some
    files := h.files
    deletes := h.deletes
    trapped := fun none => absurd none some }⟩

theorem uncopied_loop {s : Node} {c out left : List UInt8} {file : Node → Option (List UInt8)}
    {st : Copying Node} (src : file s = some c) (h : Uncopied fw s c file out left st) :
    ∃ st', Loop.Leaves (copyTurn fw) st st' ∧ Uncopied fw s c file (readable fw.reads 0 c) [] st' :=
  copyTurn_leaves (Uncopied fw s c file) (fun _ _ done => done.reading)
    (fun _ _ _ _ moving => uncopied_turn src moving) h

/-- The last flush of such a copy. -/
theorem uncopied_flush {s : Node} {c out left : List UInt8} {file : Node → Option (List UInt8)}
    {st : Copying Node} (h : Uncopied fw s c file out left st) :
    (LFile.flush fw (st.fileCopy, st.world)).2.file = file ∧
      (LFile.flush fw (st.fileCopy, st.world)).2.deletes = 0 ∧
      ((LFile.flush fw (st.fileCopy, st.world)).2.trapped = false ↔ out = []) := by
  by_cases empty : st.fileCopy.writer.pending = []
  · have nothing := h.waits.1 empty
    rw [LFile.flush_none empty]
    exact ⟨h.files, h.deletes, iff_of_true (h.trapped nothing) nothing⟩
  · have something := fun none => empty (h.waits.2 none)
    rw [LFile.flush_some empty, h.closed]
    exact ⟨h.files, h.deletes, iff_of_false (Bool.false_ne_true ∘ Eq.symm) something⟩

/-- Without a destination the copy leaves every file alone, and traps if a byte was read. -/
theorem copyFile_noDestination {src dst : Str16} (srcPath : src ≠ []) (dstPath : dst ≠ [])
    {file : Node → Option (List UInt8)} {c : List UInt8} (open0 : fw.opens 0 = .granted)
    (open1 : fw.opens 1 ≠ .granted) (source : file (fw.nodeOf src) = some c) :
    ∃ st, (∃ fuel, copyFile fw src dst fuel (World.start file) = some st) ∧
      (∃ h, st.file.handle = some h ∧ h.node = fw.nodeOf src) ∧ st.world.file = file ∧
      st.world.deletes = 0 ∧ (st.world.trapped = false ↔ readable fw.reads 0 c = []) := by
  have first := openFile_present src false (w := World.start file) open0 source
  have second := openFile_refused dst true (w := { World.start file with opens := 1 }) open1
  have holds : HoldsFile fw (fw.nodeOf src) c
      (some ⟨fw.nodeOf src, 0⟩, { World.start file with opens := 2 }) (readable fw.reads 0 c) :=
    ⟨_, rfl, rfl, Nat.zero_le _, rfl, rfl, congrArg (fun x => (x.getD []).drop 0) source⟩
  have moved := Reader.delivers_construct (Reader.fileReadBuffer_refills (Efi.read_fits fw))
    (readable_supplies fw _ c) (fw.heap 0) holds
  obtain ⟨handle, k, world⟩ := next_onlyRead fw (s := fw.nodeOf src)
    (w := { World.start file with opens := 2 })
    (f := ⟨Reader.construct (fw.heap 0), Writer.empty, some ⟨fw.nodeOf src, 0⟩⟩) ⟨_, rfl, rfl⟩
  have opened := openBoth_eq srcPath dstPath first second rfl
  have begun : Uncopied fw (fw.nodeOf src) c file [] (readable fw.reads 0 c)
      (openBoth fw src dst (World.start file)) := by
    rw [opened]
    simp only at world
    exact {
      reading := ⟨rfl, moved, handle⟩
      closed := rfl
      waits := Iff.rfl
      files := by rw [world]; rfl
      deletes := by rw [world]; rfl
      trapped := fun _ => by rw [world]; rfl }
  obtain ⟨st, leaves, done⟩ := uncopied_loop source begun
  obtain ⟨files, deletes, trapped⟩ := uncopied_flush done
  exact ⟨_, copyFile_of_leaves leaves, done.reading.source, files, deletes, trapped⟩

/-! ## What `mv` leaves behind -/

/-- The run of `mv` on the typed line ends, and if no call went through a missing handle
then the source still holds what it held or the destination holds exactly that. -/
def KeepsData (fw : Firmware Node) (szCurrentPath szLine : Str16)
    (file : Node → Option (List UInt8)) : Prop :=
  ∃ w, (∃ fuel, mv fw szCurrentPath szLine fuel (World.start file) = some w) ∧
    (w.trapped = false →
      w.file (fw.nodeOf (mvSource szCurrentPath szLine)) =
          file (fw.nodeOf (mvSource szCurrentPath szLine)) ∨
        w.file (fw.nodeOf (mvDestination szCurrentPath szLine)) =
          file (fw.nodeOf (mvSource szCurrentPath szLine)))

section Result

variable {szCurrentPath szLine : Str16} {file : Node → Option (List UInt8)} {c : List UInt8}
variable {s d : Node}

theorem mv_of_copyFile {fuel : Nat} {w : World Node} {st : Copying Node}
    (h : copyFile fw (mvSource szCurrentPath szLine) (mvDestination szCurrentPath szLine) fuel w =
      some st) :
    mv fw szCurrentPath szLine fuel w = some (LFile.delete fw (st.file, st.world)).2 := by
  rw [mv, h]
  rfl

theorem mv_unique {w r r' : World Node} {fuel fuel' : Nat}
    (h : mv fw szCurrentPath szLine fuel w = some r)
    (h' : mv fw szCurrentPath szLine fuel' w = some r') : r = r' := by
  obtain ⟨st, run, rfl⟩ := Option.map_eq_some_iff.1 h
  obtain ⟨st', run', rfl⟩ := Option.map_eq_some_iff.1 h'
  rw [copyFile_unique run run']

/-- What `KeepsData` says of the world that a run ends in. -/
theorem keepsData_iff {w : World Node} {fuel : Nat}
    (run : mv fw szCurrentPath szLine fuel (World.start file) = some w)
    (source : file (fw.nodeOf (mvSource szCurrentPath szLine)) = some c) :
    KeepsData fw szCurrentPath szLine file ↔
      (w.trapped = false → w.file (fw.nodeOf (mvSource szCurrentPath szLine)) = some c ∨
        w.file (fw.nodeOf (mvDestination szCurrentPath szLine)) = some c) := by
  rw [KeepsData, source]
  constructor
  · rintro ⟨w', ⟨fuel', run'⟩, kept⟩
    rw [mv_unique run run']
    exact kept
  · intro kept
    exact ⟨w, ⟨fuel, run⟩, kept⟩

/-- `Delete()` on the source takes it away or leaves every file alone. -/
theorem delete_result (fw : Firmware Node) {st : Copying Node} (h : ∃ a, st.file.handle = some a ∧ a.node = s)
    (none : st.world.deletes = 0) :
    (LFile.delete fw (st.file, st.world)).2.trapped = st.world.trapped ∧
      ∀ n, (LFile.delete fw (st.file, st.world)).2.file n =
        if fw.deletes 0 = true ∧ n = s then Option.none else st.world.file n := by
  obtain ⟨a, ha, rfl⟩ := h
  cases answer : fw.deletes 0 <;>
    simp [LFile.delete, ha, Efi.delete, none, answer, World.setFile]

/-- A source that cannot be opened: the run has no defined end. -/
theorem keepsData_noSource (refused : fw.opens 0 ≠ .granted) :
    KeepsData fw szCurrentPath szLine file := by
  obtain ⟨st, ⟨fuel, run⟩, trapped, closed⟩ := copyFile_noSource
    (mvSource_ne_nil szCurrentPath szLine) (mvDestination_ne_nil szCurrentPath szLine) file refused
  refine ⟨_, ⟨fuel, mv_of_copyFile run⟩, fun fine => ?_⟩
  rw [LFile.delete, closed, trapped] at fine
  cases fine

end Result

end Lavoro.Console
