import Lavoro.Lib.Loop
import Lavoro.Console.Path
import Lavoro.File.Reading

/-!
# Copying a file in the console

`cp` and `mv` open the source for reading and the destination for creation, prime the
source's reader, move byte by byte until the reader is at its end and flush the
destination's writer; `mv` then deletes the source. The branches start at the line as
typed, in `szLine`.
-/

namespace Lavoro.Console
open Lib

variable {Node : Type} [DecidableEq Node]

/-- The two `LFile`s of a copy and the world they live in. -/
structure Copying (Node : Type) where
  file : LFile Node
  fileCopy : LFile Node
  world : World Node

/-- Both files opened and the source's reader primed. -/
def openBoth (fw : Firmware Node) (src dst : Str16) (w : World Node) : Copying Node :=
  let file := LFile.construct fw src false w
  let fileCopy := LFile.construct fw dst true file.2
  let primed := LFile.next fw (file.1, fileCopy.2)
  { file := primed.1, fileCopy := fileCopy.1, world := primed.2 }

/-- `while (!file->Reader.AtEnd()) { fileCopy->Writer.Write(file->Reader.Current());
file->Reader.Next(); }`. -/
def copyTurn (fw : Firmware Node) (st : Copying Node) : Turn (Copying Node) (Copying Node) :=
  if Reader.atEnd st.file.reader then .leave st
  else
    let c := LFile.current fw (st.file, st.world)
    let wrote := LFile.write fw (toByte c.1) (st.fileCopy, c.2.2)
    let moved := LFile.next fw (c.2.1, wrote.2)
    .again { file := moved.1, fileCopy := wrote.1, world := moved.2 }

/-- The common part of `cp` and `mv`, up to `fileCopy->Writer.Flush()`. -/
def copyFile (fw : Firmware Node) (src dst : Str16) (fuel : Nat) (w : World Node) :
    Option (Copying Node) :=
  (Loop.run (copyTurn fw) fuel (openBoth fw src dst w)).map fun st =>
    let flushed := LFile.flush fw (st.fileCopy, st.world)
    { st with fileCopy := flushed.1, world := flushed.2 }

/-- The source path of `cp`. -/
def cpSource (szCurrentPath szLine : Str16) : Str16 :=
  resolve szCurrentPath (strAt (cutFrom cutFirst 3 szLine) 3)

/-- The destination path of `cp`: what follows the first NUL. -/
def cpDestination (szCurrentPath szLine : Str16) : Str16 :=
  let line := cutFrom cutFirst 3 szLine
  resolve szCurrentPath (strAt line (strLen line + 1))

/-- The source path of `mv`. -/
def mvSource (szCurrentPath szLine : Str16) : Str16 :=
  resolve szCurrentPath (strAt (cutFrom cutAll 3 szLine) 3)

/-- The destination path of `mv`. -/
def mvDestination (szCurrentPath szLine : Str16) : Str16 :=
  let line := cutFrom cutAll 3 szLine
  resolve szCurrentPath (strAt line (strLen line + 1))

theorem cpSource_ne_nil (szCurrentPath szLine : Str16) : cpSource szCurrentPath szLine ≠ [] :=
  resolve_ne_nil _ _

theorem cpDestination_ne_nil (szCurrentPath szLine : Str16) :
    cpDestination szCurrentPath szLine ≠ [] :=
  resolve_ne_nil _ _

theorem mvSource_ne_nil (szCurrentPath szLine : Str16) : mvSource szCurrentPath szLine ≠ [] :=
  resolve_ne_nil _ _

theorem mvDestination_ne_nil (szCurrentPath szLine : Str16) :
    mvDestination szCurrentPath szLine ≠ [] :=
  resolve_ne_nil _ _

/-- The branch `cp`: the world after it, or `none` while `fuel` turns are too few. -/
def cp (fw : Firmware Node) (szCurrentPath szLine : Str16) (fuel : Nat) (w : World Node) :
    Option (World Node) :=
  (copyFile fw (cpSource szCurrentPath szLine) (cpDestination szCurrentPath szLine) fuel w).map
    fun st => LFile.destroy (st.fileCopy, LFile.destroy (st.file, st.world))

/-- The branch `mv`. -/
def mv (fw : Firmware Node) (szCurrentPath szLine : Str16) (fuel : Nat) (w : World Node) :
    Option (World Node) :=
  (copyFile fw (mvSource szCurrentPath szLine) (mvDestination szCurrentPath szLine) fuel w).map
    fun st =>
      let deleted := LFile.delete fw (st.file, st.world)
      LFile.destroy (st.fileCopy, LFile.destroy deleted)

/-! ## The copying loop -/

/-- The source of a copy, the file `s` that held `c`: of what the reads deliver, `out` has
been taken and `left` has not. -/
structure Reading (fw : Firmware Node) (s : Node) (c out left : List UInt8) (file : LFile Node)
    (w : World Node) : Prop where
  whole : out ++ left = readable fw.reads 0 c
  delivers : Reader.Delivers (HoldsFile fw s c) (file.reader, file.handle, w) left
  source : ∃ h, file.handle = some h ∧ h.node = s

/-- One turn of the loop for a source with `b` still to be read, whatever the write of `b`
does in front of what is behind it. -/
theorem reading_turn {fw : Firmware Node} {s : Node} {c out left : List UInt8} {b : UInt8}
    {file fileCopy : LFile Node} {w : World Node} (h : Reading fw s c out (b :: left) file w)
    {q : LFile Node × World Node} (wrote : LFile.write fw b (fileCopy, w) = q)
    (reads : q.2.reads = w.reads)
    (unread : ∀ i, out.length < i → (q.2.content s).drop i = c.drop i) :
    ∃ file' k, copyTurn fw ⟨file, fileCopy, w⟩ = .again ⟨file', q.1, { q.2 with reads := k }⟩ ∧
      Reading fw s c (out ++ [b]) left file' { q.2 with reads := k } := by
  have shown : LFile.current fw (file, w) = ((b.toNat : Int), file, w) := by
    simp only [LFile.current, Reader.current_delivers_cons (LFile.readBuffer fw) h.delivers, LFile.onReader]
  have delivers := h.delivers.source (file.handle, q.2) fun l' shorter holds =>
    holds.transfer (by rw [← h.whole, List.length_append]; omega) reads unread
  have moved := Reader.next_delivers (Reader.fileReadBuffer_refills (Efi.read_fits fw))
    (readable_supplies fw s c) delivers
  obtain ⟨source, k, world⟩ := next_onlyRead fw (w := q.2) h.source
  simp only at world
  refine ⟨(LFile.next fw (file, q.2)).1, k, ?_, ?_, ?_, source⟩
  · simp [copyTurn, Reader.atEnd_delivers_cons h.delivers, shown, wrote, world]
  · rw [← h.whole, List.append_assoc, List.singleton_append]
  · rw [← world]
    exact moved

/-- The copy of the file `s`, of content `c`, to `d`, which held `old`: of what the reads
deliver, `out` has been given to the writer and `left` has not. `w` is the world before. -/
structure Copied (fw : Firmware Node) (s d : Node) (c old : List UInt8) (w : World Node)
    (out left : List UInt8) (st : Copying Node) : Prop where
  reading : Reading fw s c out left st.file st.world
  writing : ∃ blocks, Written fw d old out blocks st.fileCopy st.world
  frame : ∀ n, n ≠ d → st.world.file n = w.file n
  deletes : st.world.deletes = w.deletes
  trapped : st.world.trapped = w.trapped

/-- A write to the destination touches neither another file nor the counters of other calls. -/
theorem write_frame (fw : Firmware Node) {d : Node} {f : LFile Node} {w : World Node} (ch : UInt8)
    (h : ∃ p, f.handle = some ⟨d, p⟩) :
    (∀ n, n ≠ d → (LFile.write fw ch (f, w)).2.file n = w.file n) ∧
      (LFile.write fw ch (f, w)).2.reads = w.reads ∧
      (LFile.write fw ch (f, w)).2.deletes = w.deletes ∧
      (LFile.write fw ch (f, w)).2.trapped = w.trapped := by
  obtain ⟨p, hp⟩ := h
  by_cases full : f.writer.pending.length = writerBufferSize
  · rw [LFile.write_full full, hp]
    exact ⟨fun n ne => World.setFile_file_ne _ _ ne, rfl, rfl, rfl⟩
  · obtain ⟨writer, -, room⟩ := LFile.write_room fw ch w full
    rw [room]
    exact ⟨fun _ _ => rfl, rfl, rfl, rfl⟩

/-- The copy is the loop and the flush behind it. -/
theorem copyFile_of_leaves {fw : Firmware Node} {src dst : Str16} {w : World Node} {st : Copying Node}
    (h : Loop.Leaves (copyTurn fw) (openBoth fw src dst w) st) :
    ∃ fuel, copyFile fw src dst fuel w = some { st with
      fileCopy := (LFile.flush fw (st.fileCopy, st.world)).1
      world := (LFile.flush fw (st.fileCopy, st.world)).2 } := by
  obtain ⟨fuel, run⟩ := h
  exact ⟨fuel, by rw [copyFile, run]; rfl⟩

/-- A copy has one result. -/
theorem copyFile_unique {fw : Firmware Node} {src dst : Str16} {w : World Node} {fuel fuel' : Nat}
    {st st' : Copying Node} (h : copyFile fw src dst fuel w = some st)
    (h' : copyFile fw src dst fuel' w = some st') : st = st' := by
  obtain ⟨r, hr, rfl⟩ := Option.map_eq_some_iff.1 h
  obtain ⟨r', hr', rfl⟩ := Option.map_eq_some_iff.1 h'
  rw [Loop.Leaves.unique ⟨fuel, hr⟩ ⟨fuel', hr'⟩]

section Loop

variable {fw : Firmware Node} {s d : Node} {c old : List UInt8} {w : World Node}
variable {out left : List UInt8} {st : Copying Node}

/-- **One turn of the loop** moves one byte. -/
theorem copied_turn (same : s = d → old = c) (src : s ≠ d → w.content s = c) {b : UInt8}
    (h : Copied fw s d c old w out (b :: left) st) :
    ∃ st', copyTurn fw st = .again st' ∧ Copied fw s d c old w (out ++ [b]) left st' := by
  obtain ⟨file, fileCopy, world⟩ := st
  obtain ⟨blocks, writing⟩ := h.writing
  obtain ⟨blocks', wrote⟩ := written_write b writing
  obtain ⟨frame, reads, deletes, trapped⟩ := write_frame fw b ⟨_, writing.handle⟩
  generalize hq : LFile.write fw b (fileCopy, world) = q at *
  -- the write lies in front of what is still to be read
  have unread : ∀ i, out.length < i → (q.2.content s).drop i = c.drop i := by
    intro i behind
    by_cases eq : s = d
    · have written : (out ++ [b]).length ≤ i := by
        rw [List.length_append, List.length_singleton]
        omega
      rw [eq, wrote.drop written, same eq]
    · rw [World.content, frame s eq, h.frame s eq]
      exact congrArg (List.drop i) (src eq)
  obtain ⟨file', k, turn, reading⟩ := reading_turn h.reading hq reads unread
  refine ⟨_, turn, reading, ⟨blocks', wrote.reads k⟩, ?_, ?_, ?_⟩
  · intro n ne
    exact (frame n ne).trans (h.frame n ne)
  · exact deletes.trans h.deletes
  · exact trapped.trans h.trapped

/-- The loop leaves when its source is used up. -/
theorem copyTurn_leave (h : Reading fw s c out [] st.file st.world) :
    copyTurn fw st = .leave st ∧ out = readable fw.reads 0 c := by
  refine ⟨?_, by rw [← h.whole, List.append_nil]⟩
  simp [copyTurn, (Reader.atEnd_delivers h.delivers).2 rfl]

/-- **The rule for the loop**: it ends with everything that the reads deliver gone through its turns. -/
theorem copyTurn_leaves (Inv : List UInt8 → List UInt8 → Copying Node → Prop)
    (reading : ∀ out st, Inv out [] st → Reading fw s c out [] st.file st.world)
    (turn : ∀ out b left st, Inv out (b :: left) st →
      ∃ st', copyTurn fw st = .again st' ∧ Inv (out ++ [b]) left st')
    (h : Inv out left st) :
    ∃ st', Loop.Leaves (copyTurn fw) st st' ∧ Inv (readable fw.reads 0 c) [] st' := by
  have leave : ∀ out st, Inv out [] st →
      ∃ st', Loop.Leaves (copyTurn fw) st st' ∧ Inv (readable fw.reads 0 c) [] st' := by
    intro out st done
    obtain ⟨stop, all⟩ := copyTurn_leave (reading out st done)
    exact ⟨st, (Loop.leaves_leave stop).2 rfl, all ▸ done⟩
  exact Loop.leaves_of_consuming Inv (fun _ => Inv (readable fw.reads 0 c) []) turn leave left out st h

/-- The bytes have been given to the writer. -/
theorem copied_loop (same : s = d → old = c) (src : s ≠ d → w.content s = c)
    (h : Copied fw s d c old w out left st) :
    ∃ st', Loop.Leaves (copyTurn fw) st st' ∧ Copied fw s d c old w (readable fw.reads 0 c) [] st' :=
  copyTurn_leaves (Copied fw s d c old w) (fun _ _ done => done.reading)
    (fun _ _ _ _ moving => copied_turn same src moving) h

end Loop

/-! ## The whole copy -/

section Copy

variable {fw : Firmware Node} {src dst : Str16} {file : Node → Option (List UInt8)} {c : List UInt8}

/-- The state in which the loop starts, by what the two opens gave. -/
theorem openBoth_eq (srcPath : src ≠ []) (dstPath : dst ≠ []) {x y : Option (Handle Node)}
    {w w' : World Node} (first : Efi.openFile fw src false (World.start file) = (x, w))
    (second : Efi.openFile fw dst true w = (y, w')) (opens : w.opens = 1) :
    openBoth fw src dst (World.start file) =
      { file := (LFile.next fw (⟨Reader.construct (fw.heap 0), Writer.empty, x⟩, w')).1
        fileCopy := ⟨Reader.construct (fw.heap 1), Writer.empty, y⟩
        world := (LFile.next fw (⟨Reader.construct (fw.heap 0), Writer.empty, x⟩, w')).2 } := by
  rw [openBoth, construct_eq srcPath, first, construct_eq dstPath]
  simp only [second, opens]
  rfl

/-- Both opens granted: the loop starts with nothing copied. -/
theorem openBoth_copied (srcPath : src ≠ []) (dstPath : dst ≠ []) (open0 : fw.opens 0 = .granted)
    (open1 : fw.opens 1 = .granted) (source : file (fw.nodeOf src) = some c) :
    Copied fw (fw.nodeOf src) (fw.nodeOf dst) c ((World.start file).content (fw.nodeOf dst))
      (World.start file) [] (readable fw.reads 0 c) (openBoth fw src dst (World.start file)) := by
  have first := openFile_present src false (w := World.start file) open0 source
  obtain ⟨w', second, old, frame, reads, writes, deletes, trapped⟩ :=
    openFile_create dst (w := { World.start file with opens := 1 }) open1
  have holds : HoldsFile fw (fw.nodeOf src) c (some ⟨fw.nodeOf src, 0⟩, w') (readable fw.reads 0 c) := by
    refine ⟨_, rfl, rfl, Nat.zero_le _, rfl, by rw [reads]; rfl, ?_⟩
    by_cases same : fw.nodeOf src = fw.nodeOf dst
    · rw [World.content, same, old, World.content, ← same]
      exact congrArg (fun x => (x.getD []).drop 0) source
    · rw [World.content, frame _ same]
      exact congrArg (fun x => (x.getD []).drop 0) source
  have moved := Reader.delivers_construct (Reader.fileReadBuffer_refills (Efi.read_fits fw))
    (readable_supplies fw _ c) (fw.heap 0) holds
  obtain ⟨handle, k, world⟩ := next_onlyRead fw (s := fw.nodeOf src) (w := w')
    (f := ⟨Reader.construct (fw.heap 0), Writer.empty, some ⟨fw.nodeOf src, 0⟩⟩) ⟨_, rfl, rfl⟩
  have opened := openBoth_eq srcPath dstPath first second rfl
  rw [opened]
  simp only at world
  refine ⟨⟨rfl, moved, handle⟩, ⟨[], ?_⟩, ?_, ?_, ?_⟩
  · refine ⟨fun _ mem => absurd mem List.not_mem_nil, rfl, fun _ => rfl, rfl, ?_, ?_⟩
    · simp only [world]
      exact writes
    · simp only [world]
      exact old
  · intro n ne
    simp only [world]
    exact frame n ne
  · simp only [world]
    exact deletes
  · simp only [world]
    exact trapped

/-- A flush of the destination touches neither another file nor the counters of other calls. -/
theorem flush_frame (fw : Firmware Node) {d : Node} {f : LFile Node} {w : World Node} (h : ∃ p, f.handle = some ⟨d, p⟩) :
    (∀ n, n ≠ d → (LFile.flush fw (f, w)).2.file n = w.file n) ∧
      (LFile.flush fw (f, w)).2.deletes = w.deletes ∧
      (LFile.flush fw (f, w)).2.trapped = w.trapped := by
  obtain ⟨p, hp⟩ := h
  by_cases empty : f.writer.pending = []
  · rw [LFile.flush_none empty]
    exact ⟨fun _ _ => rfl, rfl, rfl⟩
  · rw [LFile.flush_some empty, hp]
    exact ⟨fun n ne => World.setFile_file_ne _ _ ne, rfl, rfl⟩

/-- The state after the copying: what landed of what the reads delivered lies over the
old content of the destination, and nothing else has changed. -/
structure CopyDone (fw : Firmware Node) (s d : Node) (c : List UInt8)
    (file : Node → Option (List UInt8)) (st : Copying Node) : Prop where
  source : ∃ h, st.file.handle = some h ∧ h.node = s
  copy : st.world.file d = some (overwrite 0 ((World.start file).content d) 0
    (landing fw.writes 0 (readable fw.reads 0 c)))
  frame : ∀ n, n ≠ d → st.world.file n = file n
  deletes : st.world.deletes = 0
  trapped : st.world.trapped = false

/-- **What the copying does** when both files are opened; it ends. -/
theorem copyFile_granted (srcPath : src ≠ []) (dstPath : dst ≠ []) (open0 : fw.opens 0 = .granted)
    (open1 : fw.opens 1 = .granted) (source : file (fw.nodeOf src) = some c) :
    ∃ st, (∃ fuel, copyFile fw src dst fuel (World.start file) = some st) ∧
      CopyDone fw (fw.nodeOf src) (fw.nodeOf dst) c file st := by
  have held : (World.start file).content (fw.nodeOf src) = c := by
    rw [World.content]
    exact congrArg (Option.getD · []) source
  have begun := openBoth_copied srcPath dstPath open0 open1 source
  obtain ⟨st, leaves, done⟩ :=
    copied_loop (fun same => same ▸ held) (fun _ => held) begun
  obtain ⟨blocks, writing⟩ := done.writing
  obtain ⟨frame, deletes, trapped⟩ := flush_frame fw (w := st.world) ⟨_, writing.handle⟩
  refine ⟨_, copyFile_of_leaves leaves, ?_⟩
  exact {
    source := done.reading.source
    copy := written_flush writing
    frame := fun n ne => (frame n ne).trans (done.frame n ne)
    deletes := deletes.trans done.deletes
    trapped := trapped.trans done.trapped }

end Copy

end Lavoro.Console
