import Lavoro.Console.Contents
import Lavoro.Console.Cp

/-!
# Copies in the midst of a session

A copy on a file system without failures, whatever calls have been made before it: what the reader has
delivered lies over the start of the destination, or waits for it in the writer, also where the
source is the destination itself.
-/

namespace Lavoro.Console
open Lib LFile

variable {Node : Type} [DecidableEq Node] {fw : Firmware Node} {s d : Node} {c old out left : List UInt8}
variable {w : World Node} {st : Copying Node}

/-- The copy of the file `s`, of content `c`, to `d`, which held `old`: `out` has been given to the
writer, and `left` has not. But for `d` the files are as in `w`. -/
structure Duplicating (fw : Firmware Node) (s d : Node) (c old : List UInt8) (w : World Node)
    (out left : List UInt8) (st : Copying Node) : Prop where
  reading : Reading fw s c out left st.file st.world
  writing : Buffers d (st.fileCopy.writer, st.fileCopy.handle, st.world) ⟨overwrite 0 old 0 out, out.length⟩
  frame : ∀ n, n ≠ d → st.world.file n = w.file n

omit [DecidableEq Node] in
/-- Behind what has been written the file is as it was. -/
theorem buffers_behind {p : LWriter × Option (Handle Node) × World Node} {i : Nat}
    (h : Buffers d p ⟨overwrite 0 old 0 out, out.length⟩) (behind : out.length ≤ i) :
    (p.2.2.content d).drop i = old.drop i := by
  obtain ⟨pos, there, -, file, same⟩ := h
  obtain ⟨content, length⟩ := Unbuffered.mk.inj same
  have written : (overwrite 0 old 0 out).drop i = old.drop i := drop_overwrite_behind (by omega)
  rw [content, drop_overwrite_behind (by omega)] at written
  rw [World.content, file]
  exact written

/-- **One turn of the loop** moves one byte. -/
theorem duplicating_turn (well : Writable fw) (same : s = d → old = c) (src : s ≠ d → w.content s = c) {b : UInt8}
    (h : Duplicating fw s d c old w out (b :: left) st) :
    ∃ st', copyTurn fw st = .again st' ∧ Duplicating fw s d c old w (out ++ [b]) left st' := by
  obtain ⟨file, fileCopy, world⟩ := st
  have handle : ∃ p, fileCopy.handle = some ⟨d, p⟩ := by
    obtain ⟨pos, -, handle, -⟩ := h.writing
    exact ⟨pos, handle⟩
  obtain ⟨frame, reads, -⟩ := write_frame fw (w := world) b handle
  have more : Unbuffered.write ⟨overwrite 0 old 0 out, out.length⟩ b =
      ⟨overwrite 0 old 0 (out ++ [b]), (out ++ [b]).length⟩ := by
    have joined : overwrite 0 (overwrite 0 old 0 out) (0 + out.length) [b] = overwrite 0 old 0 (out ++ [b]) :=
      overwrite_append
    rw [Nat.zero_add] at joined
    rw [Unbuffered.write, joined, List.length_append, List.length_singleton]
  have wrote : Buffers d ((LFile.write fw b (fileCopy, world)).1.writer,
      (LFile.write fw b (fileCopy, world)).1.handle, (LFile.write fw b (fileCopy, world)).2)
      ⟨overwrite 0 old 0 (out ++ [b]), (out ++ [b]).length⟩ := by
    rw [← more]
    exact write_buffers well b h.writing
  generalize hq : LFile.write fw b (fileCopy, world) = q at *
  -- the write lies in front of what is still to be read
  have unread : ∀ i, out.length < i → (q.2.content s).drop i = c.drop i := by
    intro i behind
    by_cases eq : s = d
    · rw [eq, ← same eq]
      exact buffers_behind wrote (by rw [List.length_append]; exact behind)
    · rw [World.content, frame s eq, h.frame s eq]
      exact congrArg (List.drop i) (src eq)
  obtain ⟨file', k, turn, reading⟩ := reading_turn h.reading hq reads unread
  refine ⟨_, turn, reading, wrote, fun n ne => ?_⟩
  exact (frame n ne).trans (h.frame n ne)

/-- Both opens granted: the loop starts with nothing copied. -/
theorem openBoth_duplicating (well : Readable fw) {src dst : Str16} (srcPath : src ≠ []) (dstPath : dst ≠ [])
    (w : World Node) (there : w.file (fw.nodeOf src) = some c) :
    Duplicating fw (fw.nodeOf src) (fw.nodeOf dst) c (w.content (fw.nodeOf dst)) w [] c (openBoth fw src dst w) := by
  have first := openFile_present src false (well.opens w.opens) there
  obtain ⟨w', second, created, frame, -⟩ :=
    openFile_create dst (w := { w with opens := w.opens + 1 }) (well.opens (w.opens + 1))
  have content : w'.content (fw.nodeOf src) = c := by
    have held : w.content (fw.nodeOf src) = c := by rw [World.content, there, Option.getD_some]
    by_cases same : fw.nodeOf src = fw.nodeOf dst
    · rw [World.content, same, created, ← same]
      exact held
    · rw [World.content, frame _ same]
      exact held
  have holds := holdsFile_at (p := 0) well.reads content (Nat.zero_le _)
  rw [List.drop_zero] at holds
  have moved := Reader.delivers_construct (Reader.fileReadBuffer_refills (Efi.read_fits fw))
    (readable_supplies fw _ c) (fw.heap w.opens) holds
  obtain ⟨handle, k, world⟩ := next_onlyRead fw (s := fw.nodeOf src) (w := w')
    (f := ⟨Reader.construct (fw.heap w.opens), Writer.empty, some ⟨fw.nodeOf src, 0⟩⟩) ⟨_, rfl, rfl⟩
  have opened : openBoth fw src dst w =
      { file := (LFile.next fw (⟨Reader.construct (fw.heap w.opens), Writer.empty, some ⟨fw.nodeOf src, 0⟩⟩, w')).1
        fileCopy := ⟨Reader.construct (fw.heap (w.opens + 1)), Writer.empty, some ⟨fw.nodeOf dst, 0⟩⟩
        world := (LFile.next fw
          (⟨Reader.construct (fw.heap w.opens), Writer.empty, some ⟨fw.nodeOf src, 0⟩⟩, w')).2 } := by
    rw [openBoth, construct_eq srcPath, first, construct_eq dstPath]
    simp only [second]
  rw [opened]
  simp only at world
  have whole : [] ++ c = readable fw.reads 0 c := (readable_all well.reads 0 c).symm
  refine ⟨⟨whole, moved, handle⟩, ?_, fun n ne => ?_⟩
  · refine buffers_idle rfl rfl ?_
    simp only [world]
    exact created
  · simp only [world]
    exact frame n ne

/-- **The copying**, up to what is done with the source behind it. -/
theorem copyThen_leaves (well : Healthy fw) {src dst : Str16} (srcPath : src ≠ []) (dstPath : dst ≠ [])
    (w : World Node) (there : w.file (fw.nodeOf src) = some c)
    (finish : LFile Node × World Node → LFile Node × World Node) :
    ∃ enough file w', (∀ turns, enough ≤ turns →
        copyThen fw turns finish src dst w = .leave (finish (file, w')).2) ∧
      (∃ h, file.handle = some h ∧ h.node = fw.nodeOf src) ∧
      w'.file = Function.update w.file (fw.nodeOf dst)
        (some (c ++ (w.content (fw.nodeOf dst)).drop c.length)) := by
  have held : w.content (fw.nodeOf src) = c := by rw [World.content, there, Option.getD_some]
  have begun := openBoth_duplicating well.toReadable srcPath dstPath w there
  obtain ⟨st, ⟨enough, run⟩, done⟩ :=
    copyTurn_leaves (Duplicating fw (fw.nodeOf src) (fw.nodeOf dst) c (w.content (fw.nodeOf dst)) w)
      (fun _ _ done => done.reading)
      (fun _ _ _ _ moving => duplicating_turn well.toWritable (fun same => same ▸ held) (fun _ => held) moving) begun
  rw [readable_all well.reads] at done
  have flushed := flush_buffers well.toWritable done.writing
  rw [overwrite_zero] at flushed
  obtain ⟨pos, -, handle, -⟩ := done.writing
  obtain ⟨frame, -⟩ := flush_frame fw (w := st.world) ⟨pos, handle⟩
  refine ⟨enough, st.file, (LFile.flush fw (st.fileCopy, st.world)).2, ?_, done.reading.source, ?_⟩
  · intro turns le
    rw [copyThen, Loop.after_eq_leave_iff.2 (Loop.run_mono run le)]
    rfl
  · funext m
    by_cases same : m = fw.nodeOf dst
    · obtain ⟨pos', old', -, landed, content⟩ := flushed
      rw [same, Function.update_self, (Unbuffered.mk.inj content).1]
      exact landed
    · rw [Function.update_of_ne same]
      exact (frame m same).trans (done.frame m same)

/-- **`cp`**, at any time. -/
theorem cp_file (well : Healthy fw) {src dst : Str16} (srcPath : src ≠ []) (dstPath : dst ≠ [])
    (w : World Node) (there : w.file (fw.nodeOf src) = some c) :
    ∃ enough w', (∀ turns, enough ≤ turns → copyThen fw turns id src dst w = .leave w') ∧
      w'.file = Function.update w.file (fw.nodeOf dst)
        (some (c ++ (w.content (fw.nodeOf dst)).drop c.length)) := by
  obtain ⟨enough, file, w', leaves, -, files⟩ := copyThen_leaves well srcPath dstPath w there id
  exact ⟨enough, w', leaves, files⟩

/-- **`mv`**, at any time: where the destination is the source, it is gone. -/
theorem mv_file (well : Healthy fw) {src dst : Str16} (srcPath : src ≠ []) (dstPath : dst ≠ [])
    (w : World Node) (there : w.file (fw.nodeOf src) = some c) :
    ∃ enough w', (∀ turns, enough ≤ turns → copyThen fw turns (LFile.delete fw) src dst w = .leave w') ∧
      w'.file = Function.update (Function.update w.file (fw.nodeOf dst)
        (some (c ++ (w.content (fw.nodeOf dst)).drop c.length))) (fw.nodeOf src) none := by
  obtain ⟨enough, file, w', leaves, ⟨⟨n, p⟩, handle, node⟩, files⟩ :=
    copyThen_leaves well srcPath dstPath w there (LFile.delete fw)
  refine ⟨enough, _, leaves, ?_⟩
  obtain rfl : n = fw.nodeOf src := node
  rw [← files]
  funext m
  simp [LFile.delete, handle, Efi.delete, well.deletes, World.setFile, Function.update_apply]

end Lavoro.Console
