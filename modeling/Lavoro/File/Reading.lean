import Lavoro.File.Lines
import Lavoro.File.Transfer

/-!
# Opening and reading a file

What opening a file gives, and what reading it leaves alone. When no call fails, a file that
is only read delivers its content, and after a seek its content from there on (`Reads`).
-/

namespace Lavoro
open Lib

variable {Node : Type} [DecidableEq Node]

/-- The source `x` of a reader is open on `s`, in the world `w` but for the reads made. -/
def OnlyRead (s : Node) (w : World Node) (x : Option (Handle Node) × World Node) : Prop :=
  (∃ h, x.1 = some h ∧ h.node = s) ∧ ∃ k, x.2 = { w with reads := k }

omit [DecidableEq Node] in
theorem read_onlyRead (fw : Firmware Node) {s : Node} {w : World Node} (n : Nat)
    (x : Option (Handle Node) × World Node) (h : OnlyRead s w x) : OnlyRead s w (Efi.read fw n x).2.2 := by
  obtain ⟨x1, x2⟩ := x
  obtain ⟨⟨a, rfl, ha⟩, k, rfl⟩ := h
  unfold Efi.read
  simp only
  split
  · exact ⟨⟨a, rfl, ha⟩, k + 1, rfl⟩
  · exact ⟨⟨_, rfl, ha⟩, k + 1, rfl⟩

omit [DecidableEq Node] in
/-- `Next()` moves the handle and makes reads, and nothing else. -/
theorem next_onlyRead (fw : Firmware Node) {s : Node} {f : LFile Node} {w : World Node}
    (h : ∃ a, f.handle = some a ∧ a.node = s) :
    OnlyRead s w ((LFile.next fw (f, w)).1.handle, (LFile.next fw (f, w)).2) :=
  Reader.next_keeps (LFile.readBuffer_keeps (read_onlyRead fw)) ⟨h, w.reads, rfl⟩

/-! ## Files that stay -/

/-- The files are as in `file`. -/
def HasFiles (file : Node → Option (List UInt8)) (x : Option (Handle Node) × World Node) : Prop := x.2.file = file

/-- The same, and nothing waits in the writer. -/
structure Unwritten (file : Node → Option (List UInt8)) (s : LFile Node × World Node) : Prop where
  idle : s.1.writer.pending = []
  file : HasFiles file (s.1.handle, s.2)

section Unwritten

variable {fw : Firmware Node} {file : Node → Option (List UInt8)} {s : LFile Node × World Node}

omit [DecidableEq Node] in
theorem read_file (fw : Firmware Node) (n : Nat) (x : Option (Handle Node) × World Node)
    (h : HasFiles file x) : HasFiles file (Efi.read fw n x).2.2 := by
  unfold Efi.read
  split
  · exact h
  · split <;> exact h

omit [DecidableEq Node] in
theorem next_files (h : HasFiles file (s.1.handle, s.2)) :
    HasFiles file ((LFile.next fw s).1.handle, (LFile.next fw s).2) :=
  Reader.next_keeps (LFile.readBuffer_keeps (read_file fw)) h

omit [DecidableEq Node] in
theorem current_files (h : HasFiles file (s.1.handle, s.2)) :
    HasFiles file ((LFile.current fw s).2.1.handle, (LFile.current fw s).2.2) :=
  Reader.current_keeps (LFile.readBuffer_keeps (read_file fw)) h

omit [DecidableEq Node] in
theorem readLineTurn_files (x : Str16 × LFile Node × World Node) (h : HasFiles file (x.2.1.handle, x.2.2)) :
    HasFiles file ((LFile.readLineTurn fw x).state.2.1.handle, (LFile.readLineTurn fw x).state.2.2) := by
  unfold LFile.readLineTurn
  split
  · exact h
  · simp only
    split
    · exact next_files (current_files h)
    · exact next_files (current_files (current_files h))

omit [DecidableEq Node] in
/-- `ReadLine`. -/
theorem readLine_files (turns : Nat) (h : HasFiles file (s.1.handle, s.2)) :
    HasFiles file ((LFile.readLine fw turns s).state.2.1.handle, (LFile.readLine fw turns s).state.2.2) := by
  apply Loop.after_keeps readLineTurn_files turns
  exact h

omit [DecidableEq Node] in
theorem Unwritten.next (fw : Firmware Node) (h : Unwritten file s) : Unwritten file (LFile.next fw s) :=
  ⟨h.idle, next_files h.file⟩

omit [DecidableEq Node] in
theorem Unwritten.read (fw : Firmware Node) (h : Unwritten file s) (n : Nat) :
    Unwritten file (LFile.read fw n s).2 :=
  ⟨h.idle, Reader.read_keeps (LFile.readBuffer_keeps (read_file fw)) n h.file⟩

theorem Unwritten.setPosition (fw : Firmware Node) (h : Unwritten file s) (position : Nat) :
    Unwritten file (LFile.setPosition fw position s) := by
  obtain ⟨⟨reader, writer, handle⟩, w⟩ := s
  obtain ⟨idle, same⟩ := h
  have flushed : LFile.flush fw ((⟨Reader.reset reader, writer, handle⟩ : LFile Node), w) =
      (⟨Reader.reset reader, Writer.empty, handle⟩, w) := LFile.flush_none idle
  cases handle <;> simp only [LFile.setPosition, flushed] <;> exact ⟨rfl, same⟩

/-- Opening a file that need not be there. -/
theorem unwritten_construct (path : Str16) (w : World Node) :
    Unwritten w.file (LFile.construct fw path false w) := by
  refine ⟨rfl, ?_⟩
  unfold LFile.construct
  simp only
  split
  · unfold Efi.openFile
    simp only
    split
    · split
      · rfl
      · simp_all
      · rfl
    · rfl
  · rfl

end Unwritten

/-! ## Opening -/

section Open

variable {fw : Firmware Node} {c : List UInt8}

/-- A file that is there is opened at its start. -/
theorem openFile_present (path : Str16) (create : Bool) {w : World Node}
    (granted : fw.opens w.opens = .granted) (there : w.file (fw.nodeOf path) = some c) :
    Efi.openFile fw path create w = (some ⟨fw.nodeOf path, 0⟩, { w with opens := w.opens + 1 }) := by
  simp [Efi.openFile, granted, there]

/-- A file opened for creation is there afterwards, with the content it had. -/
theorem openFile_create (path : Str16) {w : World Node}
    (granted : fw.opens w.opens = .granted) :
    ∃ w', Efi.openFile fw path true w = (some ⟨fw.nodeOf path, 0⟩, w') ∧
      w'.file (fw.nodeOf path) = some (w.content (fw.nodeOf path)) ∧
      (∀ n, n ≠ fw.nodeOf path → w'.file n = w.file n) ∧ w'.reads = w.reads ∧
      w'.writes = w.writes ∧ w'.deletes = w.deletes ∧ w'.trapped = w.trapped := by
  cases there : w.file (fw.nodeOf path) with
  | some old =>
    refine ⟨_, openFile_present path true granted there, ?_, fun _ _ => rfl, rfl, rfl, rfl, rfl⟩
    rw [World.content, there]
    rfl
  | none =>
    refine ⟨{ w.setFile (fw.nodeOf path) (some []) with opens := w.opens + 1 }, ?_, ?_, ?_, rfl, rfl,
      rfl, rfl⟩
    · simp [Efi.openFile, granted, there]
    · rw [World.content, there]
      exact World.setFile_file_same _ _ _
    · intro n ne
      exact World.setFile_file_ne _ _ ne

theorem construct_eq {path : Str16} (some : path ≠ []) (create : Bool) (w : World Node) :
    LFile.construct fw path create w =
      ({ reader := Reader.construct (fw.heap w.opens), writer := Writer.empty,
         handle := (Efi.openFile fw path create w).1 }, (Efi.openFile fw path create w).2) := by
  have long := List.length_pos_iff.2 some
  simp [LFile.construct, long]

end Open

/-! ## Files that are only read -/

/-- No call that opens, reads or seeks fails; `Read` may still hand out any number of bytes. -/
structure Readable (fw : Firmware Node) : Prop where
  opens : ∀ i, fw.opens i = .granted
  reads : ∀ i, fw.reads i ≠ .fails
  seeks : ∀ i, fw.seeks i = true

/-- A file system without failures in which every path names a file of its own. -/
def flawless : Firmware Str16 where
  nodeOf := id
  opens _ := .granted
  reads _ := .gives 126
  writes _ := .stores
  deletes _ := true
  seeks _ := true
  heap _ _ := 0

theorem flawless_readable : Readable flawless := ⟨fun _ => rfl, fun _ => nofun, fun _ => rfl⟩

/-- A file that is open on `n`, which holds `c`, and has not been written: its reader delivers `l`. -/
structure Reads (fw : Firmware Node) (n : Node) (c l : List UInt8) (s : LFile Node × World Node) :
    Prop where
  delivers : Reader.Delivers (HoldsFile fw n c) (s.1.reader, s.1.handle, s.2) l
  source : ∃ h, s.1.handle = some h ∧ h.node = n
  content : s.2.content n = c
  idle : s.1.writer.pending = []

section Reads

variable {fw : Firmware Node} {n : Node} {c l : List UInt8}

omit [DecidableEq Node] in
/-- A handle at the position `p` of an unchanged file. -/
theorem holdsFile_at (reads : ∀ i, fw.reads i ≠ .fails) {w : World Node} {p : Nat} (content : w.content n = c)
    (inside : p ≤ c.length) : HoldsFile fw n c (some ⟨n, p⟩, w) (c.drop p) := by
  have whole := readable_all reads 0 c
  refine ⟨_, rfl, rfl, ?_, ?_, (readable_all reads _ _).symm, by rw [content]⟩
  · rwa [whole]
  · rw [whole]

/-- A file that has been opened and primed delivers its content. -/
theorem open_reads (well : Readable fw) {path : Str16} (named : path ≠ []) {w : World Node}
    (there : w.file (fw.nodeOf path) = some c) :
    Reads fw (fw.nodeOf path) c c (LFile.next fw (LFile.construct fw path false w)) := by
  have opened := openFile_present path false (well.opens w.opens) there
  have content : ({ w with opens := w.opens + 1 } : World Node).content (fw.nodeOf path) = c := by
    rw [World.content]
    exact congrArg (Option.getD · []) there
  have holds := holdsFile_at (p := 0) well.reads content (Nat.zero_le _)
  have delivers := Reader.delivers_construct (Reader.fileReadBuffer_refills (Efi.read_fits fw))
    (readable_supplies fw _ c) (fw.heap w.opens) holds
  obtain ⟨source, k, world⟩ := next_onlyRead fw (s := fw.nodeOf path)
    (w := { w with opens := w.opens + 1 })
    (f := ⟨Reader.construct (fw.heap w.opens), Writer.empty, some ⟨fw.nodeOf path, 0⟩⟩) ⟨_, rfl, rfl⟩
  rw [construct_eq named, opened]
  refine ⟨delivers, source, ?_, rfl⟩
  rw [world]
  exact content

omit [DecidableEq Node] in
/-- **`Read`** takes a slice off the front. -/
theorem Reads.read {s : LFile Node × World Node} (h : Reads fw n c l s) (k : Nat) :
    (LFile.read fw k s).1 = l.take k ∧ Reads fw n c (l.drop k) (LFile.read fw k s).2 := by
  obtain ⟨bytes, delivers⟩ := Reader.read_delivers (Reader.fileReadBuffer_refills (Efi.read_fits fw))
    (readable_supplies fw n c) k h.delivers
  have only : OnlyRead n s.2 (Reader.read (LFile.readBuffer fw) k (s.1.reader, s.1.handle, s.2)).2.2 :=
    Reader.read_keeps (LFile.readBuffer_keeps (read_onlyRead fw)) k ⟨h.source, s.2.reads, rfl⟩
  obtain ⟨source, j, world⟩ := only
  refine ⟨bytes, delivers, source, ?_, h.idle⟩
  show World.content (Reader.read (LFile.readBuffer fw) k (s.1.reader, s.1.handle, s.2)).2.2.2 n = c
  rw [world]
  exact h.content

/-- `SetPosition` of a file that has not been written. -/
theorem setPosition_idle {f : LFile Node} {w : World Node} {pos p : Nat} (idle : f.writer.pending = [])
    (handle : f.handle = some ⟨n, pos⟩) (sought : fw.seeks w.seeks = true) (inside : p ≤ (w.content n).length)
    (small : (w.content n).length < 18446744073709551616) :
    LFile.setPosition fw p (f, w) =
      (⟨Reader.reset f.reader, Writer.empty, some ⟨n, p⟩⟩, { w with seeks := w.seeks + 1 }) := by
  have target : (if p = 18446744073709551615 then (w.content n).length else p) = p := by
    split
    · omega
    · rfl
  simp [LFile.setPosition, LFile.flush, LFile.onWriter, Writer.flush, LFile.writeBuffer, Writer.sendPending,
    Writer.reset, idle, handle, Efi.setPosition, sought, target]

/-- **`SetPosition`**, before the end has been read, and `Next()`: the content from there on. -/
theorem Reads.seek (well : Readable fw) {s : LFile Node × World Node} (h : Reads fw n c l s)
    (more : l ≠ []) {p : Nat} (inside : p ≤ c.length) (small : c.length < 18446744073709551615) :
    Reads fw n c (c.drop p) (LFile.next fw (LFile.setPosition fw p s)) := by
  obtain ⟨f, w⟩ := s
  obtain ⟨a, handle, rfl⟩ := h.source
  have going : Reader.atEnd f.reader = false := by
    rw [← Bool.not_eq_true]
    exact fun ended => more ((Reader.atEnd_delivers h.delivers).1 ended)
  obtain ⟨plain, fresh⟩ := Reader.plain_reset h.delivers.plain going
  have content : w.content a.node = c := h.content
  have moved := setPosition_idle (p := p) h.idle handle (well.seeks w.seeks) (by rwa [content])
    (by rw [content]; omega)
  have holds := holdsFile_at (w := { w with seeks := w.seeks + 1 }) well.reads content inside
  have delivers := Reader.delivers_fresh (Reader.fileReadBuffer_refills (Efi.read_fits fw))
    (readable_supplies fw _ c) plain fresh holds
  obtain ⟨source, k, world⟩ := next_onlyRead fw (s := a.node) (w := { w with seeks := w.seeks + 1 })
    (f := ⟨Reader.reset f.reader, Writer.empty, some ⟨a.node, p⟩⟩) ⟨_, rfl, rfl⟩
  rw [moved]
  refine ⟨delivers, source, ?_, rfl⟩
  rw [world]
  exact content

end Reads

end Lavoro
