import Lavoro.File.Lines
import Lavoro.File.Reading
import Lavoro.Stream.Lines
import Lavoro.Stream.Tracks

/-!
# The lines of a file and `ReadLine`

`fileLines` are the lines of a content: what stands in front of each line feed and behind the last
one, less a carriage return at its end. As long as no read fails, `ReadLine` on a file that is only
read takes the next of them off, however the reads cut the content, and also where nothing has been
read of it yet.
-/

namespace Lavoro
open Lib

variable {Node : Type} [DecidableEq Node]

/-- What `ReadLine` leaves in a buffer behind which no carriage return stands. -/
theorem LineBuffer.readInto_text {b : LineBuffer} (before : b.before ≠ 13) (line : List UInt8) :
    b.readInto (line.map UInt8.toUInt16) = b.put (lineText line) := by
  unfold LineBuffer.readInto lineText
  cases last : (line.map UInt8.toUInt16).getLast? with
  | none =>
    have empty := List.getLast?_eq_none_iff.1 last
    simp [before, empty]
  | some c =>
    simp only [Option.some.injEq]
    split
    · rfl
    · rfl

/-! ## Reads that do not fail -/

/-- The firmware, with every failing read answered. -/
def Firmware.calm (fw : Firmware Node) : Firmware Node :=
  { fw with reads := fun i => if fw.reads i = .fails then .gives 0 else fw.reads i }

/-- No read of a stretch fails. -/
def Fine (fw : Firmware Node) (w w' : World Node) : Prop :=
  ∀ i, w.reads ≤ i → i < w'.reads → fw.reads i ≠ .fails

section Calm

variable {fw : Firmware Node} {w w' w'' : World Node}

omit [DecidableEq Node] in
theorem calm_reads (fw : Firmware Node) (i : Nat) : fw.calm.reads i ≠ .fails := by
  show (if fw.reads i = .fails then ReadAnswer.gives 0 else fw.reads i) ≠ .fails
  split
  · exact fun eq => by cases eq
  · assumption

omit [DecidableEq Node] in
theorem Fine.first (h : Fine fw w w'') (later : w'.reads ≤ w''.reads) : Fine fw w w' :=
  fun i low high => h i low (Nat.lt_of_lt_of_le high later)

omit [DecidableEq Node] in
theorem Fine.second (h : Fine fw w w'') (first : w.reads ≤ w'.reads) : Fine fw w' w'' :=
  fun i low high => h i (Nat.le_trans first low) high

namespace LFile

omit [DecidableEq Node] in
/-- A refill that does not fail. -/
theorem readBuffer_tracks (fw : Firmware Node) :
    Reader.Tracks (fun x : Option (Handle Node) × World Node => x.2.reads) (fun i => fw.reads i ≠ .fails)
      (readBuffer fw) (readBuffer fw.calm) := by
  constructor
  · rintro ⟨r, handle, w⟩
    have made : w.reads ≤ (Efi.read fw (readerBufferSize - 1) (handle, w)).2.2.2.reads := by
      cases handle with
      | none => exact Nat.le_refl _
      | some a =>
        unfold Efi.read
        simp only
        split
        · exact Nat.le_succ _
        · exact Nat.le_succ _
    unfold readBuffer Reader.fileReadBuffer
    split
    · simp only
      split
      · exact made
      · exact made
    · exact Nat.le_refl _
  · rintro ⟨r, handle, w⟩ fine
    cases ended : Reader.atEnd r with
    | true => simp [readBuffer, Reader.fileReadBuffer, ended]
    | false =>
      have same : Efi.read fw (readerBufferSize - 1) (handle, w) =
          Efi.read fw.calm (readerBufferSize - 1) (handle, w) := by
        cases handle with
        | none => rfl
        | some a =>
          have answered : fw.reads w.reads ≠ .fails := by
            intro fails
            refine fine w.reads (Nat.le_refl _) ?_ fails
            simp [readBuffer, Reader.fileReadBuffer, ended, Efi.read, fails]
          have calm : fw.calm.reads w.reads = fw.reads w.reads := if_neg answered
          simp only [Efi.read, calm]
      simp only [readBuffer, Reader.fileReadBuffer, ended, Bool.not_false, if_true, same]

variable {s : LFile Node × World Node} {x : Str16 × LFile Node × World Node}

omit [DecidableEq Node] in
theorem current_grows (fw : Firmware Node) (s : LFile Node × World Node) :
    s.2.reads ≤ (current fw s).2.2.reads :=
  (Reader.current_tracks (readBuffer_tracks fw)).grows (s.1.reader, s.1.handle, s.2)

omit [DecidableEq Node] in
theorem next_grows (fw : Firmware Node) (s : LFile Node × World Node) :
    s.2.reads ≤ (next fw s).2.reads :=
  (Reader.next_tracks (readBuffer_tracks fw)).grows (s.1.reader, s.1.handle, s.2)

omit [DecidableEq Node] in
theorem current_calm (fine : Fine fw s.2 (current fw s).2.2) : current fw s = current fw.calm s := by
  have same := (Reader.current_tracks (readBuffer_tracks fw)).same (s.1.reader, s.1.handle, s.2) fine
  simp only [current, same]

omit [DecidableEq Node] in
theorem next_calm (fine : Fine fw s.2 (next fw s).2) : next fw s = next fw.calm s := by
  have same := (Reader.next_tracks (readBuffer_tracks fw)).same (s.1.reader, s.1.handle, s.2) fine
  simp only [next, same]

omit [DecidableEq Node] in
theorem readLineTurn_grows (fw : Firmware Node) (x : Str16 × LFile Node × World Node) :
    x.2.2.reads ≤ (readLineTurn fw x).state.2.2.reads := by
  have shown := current_grows fw x.2
  have again := current_grows fw (current fw x.2).2
  unfold readLineTurn
  split
  · exact Nat.le_refl _
  · simp only
    split
    · exact Nat.le_trans shown (next_grows fw _)
    · exact Nat.le_trans shown (Nat.le_trans again (next_grows fw _))

omit [DecidableEq Node] in
theorem readLineTurn_calm (fine : Fine fw x.2.2 (readLineTurn fw x).state.2.2) :
    readLineTurn fw x = readLineTurn fw.calm x := by
  have shown := current_grows fw x.2
  have again := current_grows fw (current fw x.2).2
  unfold readLineTurn at fine ⊢
  by_cases ended : Reader.atEnd x.2.1.reader = true
  · rw [if_pos ended, if_pos ended]
  · rw [if_neg ended] at fine
    rw [if_neg ended, if_neg ended]
    by_cases feed : (current fw x.2).1 = 10
    · simp only [feed, if_true] at fine
      have moved := next_grows fw (current fw x.2).2
      have first : current fw x.2 = current fw.calm x.2 := current_calm (fine.first moved)
      have second := next_calm (fine.second shown)
      rw [first] at feed second
      simp only [first, second, feed, if_true]
    · simp only [feed, if_false] at fine
      have moved := next_grows fw (current fw (current fw x.2).2).2
      have first : current fw x.2 = current fw.calm x.2 := current_calm (fine.first (Nat.le_trans again moved))
      have second := current_calm ((fine.second shown).first moved)
      have third := next_calm ((fine.second shown).second again)
      rw [first] at feed second third
      rw [second] at third
      simp only [first, second, third, feed, if_false]

omit [DecidableEq Node] in
/-- **`ReadLine`**, as far as no read has failed. -/
theorem readLine_calm (turns : Nat) (fine : Fine fw s.2 (readLine fw turns s).state.2.2) :
    readLine fw turns s = readLine fw.calm turns s :=
  Loop.after_congr (readLineTurn_grows fw) (fun _ fine => readLineTurn_calm fine) turns ([], s) fine

end LFile

end Calm

/-! ## Reading a line -/

/-- A reader on the file `n`, which holds `c`: `l` is still to be read, perhaps all of it. -/
inductive Ahead (fw : Firmware Node) (n : Node) (c l : List UInt8) (s : LFile Node × World Node) : Prop where
  | started (delivers : Reader.Delivers (HoldsFile fw n c) (s.1.reader, s.1.handle, s.2) l)
  | fresh (buffer : Buffer readerBufferSize) (reader : s.1.reader = Reader.construct buffer)
      (holds : HoldsFile fw n c (s.1.handle, s.2) l) (some' : l ≠ [])

section Reading

variable {fw : Firmware Node} {n : Node} {c l : List UInt8} {s : LFile Node × World Node}

omit [DecidableEq Node] in
/-- A file whose reads do not fail may change its world, as long as its content stays. -/
theorem HoldsFile.moved {x : Option (Handle Node)} {w w' : World Node} (h : HoldsFile fw.calm n c (x, w) l)
    (content : w'.content n = c) : HoldsFile fw.calm n c (x, w') l := by
  obtain ⟨a, handle, node, inside, total, here, -⟩ := h
  have whole := readable_all (calm_reads fw)
  refine ⟨a, handle, node, inside, total, ?_, by rw [content]⟩
  rw [here, whole, whole]

omit [DecidableEq Node] in
theorem Ahead.moved {w' : World Node} (h : Ahead fw.calm n c l s) (content : w'.content n = c) :
    Ahead fw.calm n c l (s.1, w') := by
  cases h with
  | started delivers =>
    obtain ⟨plain, started, rep⟩ := delivers
    exact .started (Reader.Delivers.source (s := (s.1.handle, s.2)) (s.1.handle, w') ⟨plain, started, rep⟩
      fun l' _ holds => holds.moved content)
  | fresh buffer reader holds some' => exact .fresh buffer reader (holds.moved content) some'

omit [DecidableEq Node] in
/-- The same where no read fails. -/
theorem Ahead.stays (well : Readable fw) (h : Ahead fw n c l s) {w' : World Node} (content : w'.content n = c) :
    Ahead fw n c l (s.1, w') := by
  have calm : fw.calm = fw := by
    have same : (fun i => if fw.reads i = .fails then ReadAnswer.gives 0 else fw.reads i) = fw.reads :=
      funext fun i => if_neg (well.reads i)
    rw [Firmware.calm, same]
  rw [← calm] at h ⊢
  exact h.moved content

omit [DecidableEq Node] in
/-- The reader is at its end exactly where nothing is left. -/
theorem Ahead.atEnd (h : Ahead fw n c l s) : Reader.atEnd s.1.reader = true ↔ l = [] := by
  cases h with
  | started delivers => exact Reader.atEnd_delivers delivers
  | fresh buffer reader holds some' =>
    rw [reader]
    exact iff_of_false Bool.false_ne_true some'

omit [DecidableEq Node] in
/-- The reader of a file with `l` left is ready to deliver it. -/
theorem Ahead.ready (h : Ahead fw n c l s) :
    Reader.Ready (HoldsFile fw n c) (s.1.reader, s.1.handle, s.2) l := by
  cases h with
  | started delivers => exact .started delivers
  | fresh buffer reader holds some' =>
    rw [reader]
    exact .fresh (Reader.plain_construct buffer) (Reader.view_construct buffer) holds some'

omit [DecidableEq Node] in
/-- **`ReadLine` takes the first line off.** -/
theorem readLine_ahead (h : Ahead fw n c l s) :
    ∃ turns s', LFile.readLine fw turns s = .leave ((firstLine l).map UInt8.toUInt16, s') ∧
      Ahead fw n c (restOf l) s' := by
  have refills : Reader.Refills (LFile.readBuffer fw) _ := Reader.fileReadBuffer_refills (Efi.read_fits fw)
  obtain ⟨turns, q, line, delivers⟩ := Reader.readLine_ready refills (readable_supplies fw n c) h.ready
  refine ⟨turns, s.1.onReader q, ?_, .started delivers⟩
  rw [LFile.readLine_eq, line]
  rfl

omit [DecidableEq Node] in
/-- With enough turns, and every file as it was. -/
theorem readLine_settles (h : Ahead fw n c l s) :
    ∃ enough s', (∀ turns, enough ≤ turns →
        LFile.readLine fw turns s = .leave ((firstLine l).map UInt8.toUInt16, s')) ∧
      Ahead fw n c (restOf l) s' ∧ s'.2.file = s.2.file := by
  obtain ⟨enough, s', line, ahead⟩ := readLine_ahead h
  refine ⟨enough, s', fun turns le => Loop.after_settles _ _ le _ line, ahead, ?_⟩
  have start : HasFiles s.2.file (s.1.handle, s.2) := rfl
  have kept : HasFiles s.2.file ((LFile.readLine fw enough s).state.2.1.handle,
      (LFile.readLine fw enough s).state.2.2) := readLine_files enough start
  rw [line] at kept
  exact kept

end Reading

end Lavoro
