import Lavoro.Console.Resolution
import Lavoro.File.Unbuffered

/-!
# `addline` appends

`addline` counts the bytes of its file through the reader, sends the handle to that position and
writes the text of the line, a carriage return and a line feed. Whatever the reads hand out, the
count is the length of the file, so that the buffered writer puts all of it behind the old end. The path that is put
together is taken to be shorter than `MAX_PATH`.
-/

namespace Lavoro
open Lib

/-- Bytes written at the end of a file without a buffer. -/
theorem Unbuffered.foldl_write_end (bytes old : List UInt8) :
    bytes.foldl Unbuffered.write ⟨old, old.length⟩ = ⟨old ++ bytes, (old ++ bytes).length⟩ := by
  induction bytes generalizing old with
  | nil => rw [List.foldl_nil, List.append_nil]
  | cons b bytes ih =>
    have one : Unbuffered.write ⟨old, old.length⟩ b = ⟨old ++ [b], (old ++ [b]).length⟩ := by
      simp [Unbuffered.write, overwrite_eq (Nat.le_refl _)]
    rw [List.foldl_cons, one, ih, List.append_assoc, List.singleton_append]

namespace Console

variable {Node : Type} [DecidableEq Node]

/-- The file that `addline` counts: it is open on `n`, the reader still delivers `l`, and but for
the reads made the world is `w`. -/
structure Counts (fw : Firmware Node) (n : Node) (w : World Node) (l : List UInt8)
    (s : LFile Node × World Node) : Prop where
  delivers : Reader.Delivers (HoldsFile fw n (w.content n)) (s.1.reader, s.1.handle, s.2) l
  only : OnlyRead n w (s.1.handle, s.2)
  idle : s.1.writer.pending = []

section Counting

variable {fw : Firmware Node} {n : Node} {w : World Node} {l : List UInt8} {s : LFile Node × World Node}

omit [DecidableEq Node] in
/-- `Next()` counts one byte. -/
theorem counts_next (h : Counts fw n w l s) : Counts fw n w l.tail (LFile.next fw s) where
  delivers := Reader.next_delivers (Reader.fileReadBuffer_refills (Efi.read_fits fw))
    (readable_supplies fw n _) h.delivers
  only := Reader.next_keeps (LFile.readBuffer_keeps (read_onlyRead fw)) h.only
  idle := h.idle

/-- The file of `addline` behind the first `Next()`, with the content it had or a new one. -/
theorem counts_open (well : Readable fw) {path : Str16} (named : path ≠ []) (w : World Node) :
    ∃ w' : World Node, w'.file (fw.nodeOf path) = some (w.content (fw.nodeOf path)) ∧
      Counts fw (fw.nodeOf path) w' (w.content (fw.nodeOf path))
        (LFile.next fw (LFile.construct fw path true w)) := by
  obtain ⟨w', opened, there, -⟩ := openFile_create path (well.opens w.opens)
  have content : w'.content (fw.nodeOf path) = w.content (fw.nodeOf path) := by
    rw [World.content, there]
    rfl
  have holds := holdsFile_at (p := 0) well.reads content (Nat.zero_le _)
  have delivers := Reader.delivers_construct (Reader.fileReadBuffer_refills (Efi.read_fits fw))
    (readable_supplies fw _ _) (fw.heap w.opens) holds
  refine ⟨w', there, ?_⟩
  rw [construct_eq named, opened]
  exact {
    delivers := by rw [content]; exact delivers
    only := next_onlyRead fw ⟨_, rfl, rfl⟩
    idle := rfl }

omit [DecidableEq Node] in
/-- **The loop ends with the number of bytes that the reader had left.** -/
theorem countTurn_leaves (h : Counts fw n w l s) :
    ∃ s', Loop.Leaves (countTurn fw) (0, s) (l.length, s') ∧ Counts fw n w [] s' := by
  let Inv (taken left : List UInt8) (x : Nat × LFile Node × World Node) : Prop :=
    x.1 = taken.length ∧ Counts fw n w left x.2
  have again : ∀ taken b left x, Inv taken (b :: left) x →
      ∃ x', countTurn fw x = .again x' ∧ Inv (taken ++ [b]) left x' := by
    rintro taken b left ⟨-, s⟩ ⟨rfl, more⟩
    refine ⟨(taken.length + 1, LFile.next fw s), ?_, ?_, counts_next more⟩
    · simp [countTurn, Reader.atEnd_delivers_cons more.delivers]
    · rw [List.length_append, List.length_singleton]
  have leave : ∀ taken x, Inv taken [] x → ∃ r, Loop.Leaves (countTurn fw) x r ∧ Inv taken [] r := by
    rintro taken ⟨-, s⟩ ⟨rfl, ended⟩
    have stop : countTurn fw (taken.length, s) = .leave (taken.length, s) := by
      simp [countTurn, (Reader.atEnd_delivers ended.delivers).2 rfl]
    exact ⟨_, (Loop.leaves_leave stop).2 rfl, rfl, ended⟩
  obtain ⟨⟨-, s'⟩, leaves, rfl, ended⟩ :=
    Loop.leaves_of_consuming Inv (fun taken => Inv taken []) again leave l [] (0, s) ⟨rfl, h⟩
  exact ⟨s', leaves, ended⟩

/-- Behind the loop: the text and the line's end, at the end of the file. -/
theorem append_ended (well : Writable fw) {old : List UInt8} (there : w.file n = some old)
    (h : Counts fw n w [] s) (text : Str16) :
    (append fw text old.length s).2.file n = some (old ++ text.map UInt16.toUInt8 ++ [13, 10]) := by
  obtain ⟨⟨⟨m, pos⟩, handle, node⟩, k, world⟩ := h.only
  obtain rfl : m = n := node
  have idle : Buffers m (s.1.writer, s.1.handle, s.2) ⟨old, pos⟩ :=
    buffers_idle handle h.idle (by rw [show s.2 = { w with reads := k } from world]; exact there)
  have wrote := outputs_buffers well
    [.setPosition old.length, .write (.units text), .write (.bytes [13, 10])] idle
  have target : Unbuffered.seek ⟨old, pos⟩ old.length = ⟨old, old.length⟩ := by simp [Unbuffered.seek]
  have units : bytesWritten (WriteCall.units text).steps = text.map UInt16.toUInt8 := by
    simp [bytesWritten, WriteCall.steps, WriteStep.byte?, List.filterMap_map, Function.comp_def]
  have appended : (Unbuffered.run [.setPosition old.length, .write (.units text), .write (.bytes [13, 10])]
      ⟨old, pos⟩).content = old ++ text.map UInt16.toUInt8 ++ [13, 10] := by
    show ([13, 10].foldl Unbuffered.write ((bytesWritten (WriteCall.units text).steps).foldl Unbuffered.write
      (Unbuffered.seek ⟨old, pos⟩ old.length))).content = _
    rw [target, units, Unbuffered.foldl_write_end, Unbuffered.foldl_write_end]
  obtain ⟨pos', old', -, there', same⟩ := flush_buffers well wrote
  rw [← appended, same]
  exact there'

/-- The command with its path and its text. -/
theorem addline_leaves (reads : Readable fw) (writes : Writable fw) {path : Str16} (named : path ≠ [])
    (text : Str16) (w : World Node) :
    ∃ enough w', (∀ turns, enough ≤ turns → addline fw turns path text w = .leave w') ∧
      w'.file (fw.nodeOf path) =
        some (w.content (fw.nodeOf path) ++ text.map UInt16.toUInt8 ++ [13, 10]) := by
  obtain ⟨opened, there, start⟩ := counts_open reads named w
  obtain ⟨s, ⟨enough, counted⟩, ended⟩ := countTurn_leaves start
  refine ⟨enough, LFile.destroy (append fw text (w.content (fw.nodeOf path)).length s), ?_,
    append_ended writes there ended text⟩
  intro turns le
  have run := Loop.after_eq_leave_iff.2 (Loop.run_mono counted le)
  rw [addline, run]
  rfl

end Counting

/-! ## The line -/

/-- `addline`, on the units of `szLine`. -/
def addlineAt (fw : Firmware Node) (turns : Nat) (szCurrentPath szLine : Str16) (w : World Node) :
    Turn (World Node) (World Node) :=
  addline fw turns (addlinePath szCurrentPath szLine) (addlineText szLine) w

/-- The branch of the console, where the path has room in `szPath`. -/
theorem exec_addline {env : Environment Node} {turns : Nat} {st : ConsoleState Node}
    (runs : dispatch st.szLine.units = some .addline) (ends : st.szCurrentPath.Terminated)
    (fits : Fits st.szCurrentPath.str (strAt (cutFrom cutFirst 8 st.szLine.units) 8)) :
    (st.exec env turns).1.world =
      (addlineAt env.fw turns st.szCurrentPath.str st.szLine.units st.world).state := by
  have clean : 0 ∉ strAt (cutFrom cutFirst 8 st.szLine.units) 8 := by
    intro mem
    simpa using List.mem_takeWhile_imp mem
  have path : (locate st.szPath st.szCurrentPath (strAt (cutFrom cutFirst 8 st.szLine.units) 8)).str =
      resolve st.szCurrentPath.str (strAt (cutFrom cutFirst 8 st.szLine.units) 8) :=
    (locate_sound clean ends fits).1
  rw [ConsoleState.exec, runs]
  show (ConsoleState.addText env.fw turns st).1.world = _
  rw [ConsoleState.addText, ConsoleState.finish_world, addlineAt, addlinePath, pathAt, addlineText, ← path]
  rfl

/-- Every unit below 256 is a byte. -/
theorem bytes_of_small {text : Str16} (small : ∀ u ∈ text, u.toNat < 256) :
    (text.map UInt16.toUInt8).map UInt8.toUInt16 = text := by
  rw [List.map_map]
  refine (List.map_congr_left fun u mem => ?_).trans text.map_id
  have fits := small u mem
  rw [Function.comp_apply, id, ← UInt16.toNat_inj]
  simp [Nat.mod_eq_of_lt fits]

/-- **`addline` appends** the bytes of the text, a carriage return and a line feed to a file of any
content, also to one that is new, where its path fits `szPath`. -/
theorem addline_appends {fw : Firmware Node} (reads : Readable fw) (writes : Writable fw)
    (szCurrentPath : Str16) (w : World Node) {name text : Str16} (clean : 0 ∉ name) (one : space ∉ name)
    (cleanText : 0 ∉ text) (small : ∀ u ∈ text, u.toNat < 256) (rest : Str16) :
    ∃ enough bytes w', bytes.map UInt8.toUInt16 = text ∧
      (∀ turns, enough ≤ turns →
        addlineAt fw turns szCurrentPath (twoArguments Command.addline.name space name text rest) w =
          .leave w') ∧
      w'.file (fw.nodeOf (resolve szCurrentPath name)) =
        some (w.content (fw.nodeOf (resolve szCurrentPath name)) ++ bytes ++ [13, 10]) := by
  obtain ⟨enough, w', leaves, file⟩ :=
    addline_leaves reads writes (resolve_ne_nil szCurrentPath name) text w
  refine ⟨enough, text.map UInt16.toUInt8, w', bytes_of_small small, fun turns le => ?_, file⟩
  rw [addlineAt, addlinePath_eq szCurrentPath clean one, addlineText_eq clean one cleanText (by decide)]
  exact leaves turns le

/-- Two words behind what a file holds. -/
theorem addline_appends_words :
    ∃ enough bytes w', bytes.map UInt8.toUInt16 = units ['x', ' ', 'y'] ∧
      (∀ turns, enough ≤ turns →
        addlineAt flawless turns [backslash]
          (twoArguments Command.addline.name space (units ['a']) (units ['x', ' ', 'y']) [])
          (World.start fun _ => some [7]) = .leave w') ∧
      w'.file (resolve [backslash] (units ['a'])) =
        some ((World.start fun _ => some [7]).content (resolve [backslash] (units ['a'])) ++ bytes ++ [13, 10]) := by
  have small : (units ['x', ' ', 'y']).all (fun u => decide (u.toNat < 256)) = true := by decide
  exact addline_appends flawless_readable flawless_writable [backslash] (World.start fun _ => some [7])
    (by decide) (by decide) (by decide) (fun u mem => of_decide_eq_true (List.all_eq_true.1 small u mem)) []

end Console
end Lavoro
