import Lavoro.Console.Print
import Lavoro.File.Reading
import Lavoro.Screen.Loads
import Mathlib.Data.List.Induction

/-!
# The texts that the screen draws (`main.cpp`)

`ScreenMode` copies a text unit by unit from its file into an array of 4096 units on the stack and hands
the array to `DrawText` with the units in it. The help and the readme are copied to their end, with a NUL
behind them; the viewer stops when the array is full, and puts no NUL. `Loads` has these loops as loops
over units; here is what they write, and which contents the arrays hold.
-/

namespace Lavoro.Screen
open Lib Console

/-- `HelpMessage`, `ReadmeMessage` or `szContent`, and the cursor in it: `ptr - HelpMessage`,
`ptr - ReadmeMessage` or `szContentCursor`. -/
structure TextCopy where
  units : CString.Field (0 : UInt16) 4096
  cursor : Nat
  deriving Repr, DecidableEq

namespace TextCopy

/-- In front of the loop; `memory` is what the stack holds where the array lies. -/
def start (memory : CString.Field (0 : UInt16) 4096) : TextCopy := ⟨{ memory with overflow := false }, 0⟩

/-- `*ptr++ = u` or `szContent[szContentCursor++] = u`. -/
def put (t : TextCopy) (u : UInt16) : TextCopy := ⟨t.units.store t.cursor [u], t.cursor + 1⟩

/-- `*ptr = L'\0'`. -/
def terminate (t : TextCopy) : TextCopy := { t with units := t.units.store t.cursor [0] }

/-- Every index written so far is one of the array's. -/
def InArray (t : TextCopy) : Prop := t.units.overflow = false

variable {t : TextCopy}

theorem put_inArray (t : TextCopy) (u : UInt16) : (t.put u).InArray ↔ t.InArray ∧ t.cursor < 4096 :=
  CString.Field.store_overflow t.units t.cursor [u]

theorem terminate_inArray (t : TextCopy) : t.terminate.InArray ↔ t.InArray ∧ t.cursor < 4096 :=
  CString.Field.store_overflow t.units t.cursor [0]

theorem puts_cursor (t : TextCopy) (us : Str16) : (us.foldl put t).cursor = t.cursor + us.length := by
  induction us generalizing t with
  | nil => rfl
  | cons u us ih =>
    apply (ih (t.put u)).trans
    rw [List.length_cons]
    show t.cursor + 1 + us.length = _
    omega

/-- Units put behind one another. -/
theorem puts_inArray (fits : t.cursor ≤ 4096) (us : Str16) :
    (us.foldl put t).InArray ↔ t.InArray ∧ t.cursor + us.length ≤ 4096 := by
  induction us using List.reverseRecOn with
  | nil => exact (and_iff_left fits).symm
  | append_singleton us u ih =>
    rw [List.foldl_append, List.foldl_cons, List.foldl_nil, put_inArray, ih, puts_cursor, List.length_append,
      List.length_singleton, and_assoc]
    apply and_congr_right
    intro _
    omega

end TextCopy

section Copy

variable {Node : Type} [DecidableEq Node]

/-- One turn of a loop that copies a unit while there is room at the cursor. -/
def copyTurn (fw : Firmware Node) (room : Nat → Bool) (x : TextCopy × LFile Node × World Node) :
    Turn (TextCopy × LFile Node × World Node) (TextCopy × LFile Node × World Node) :=
  if !Reader.atEnd x.2.1.reader && room x.1.cursor then
    let c := LFile.current fw x.2
    .again (x.1.put (toUnit c.1), LFile.next fw c.2)
  else .leave x

/-- The file `path` is opened, copied and closed. -/
def copyFile (fw : Firmware Node) (room : Nat → Bool) (turns : Nat) (memory : CString.Field (0 : UInt16) 4096)
    (path : Str16) (w : World Node) : Turn (TextCopy × World Node) (TextCopy × World Node) :=
  (Loop.after (copyTurn fw room) turns (.start memory, LFile.next fw (LFile.construct fw path false w))).map
    fun x => (x.1, LFile.destroy x.2)

/-- The loops of `HelpMessage` and `ReadmeMessage`, and the NUL. -/
def copyMessage (fw : Firmware Node) (turns : Nat) (memory : CString.Field (0 : UInt16) 4096) (path : Str16)
    (w : World Node) : Turn (TextCopy × World Node) (TextCopy × World Node) :=
  (copyFile fw (fun _ => true) turns memory path w).map fun x => (x.1.terminate, x.2)

/-- `L"\\assets\\help.txt"`. -/
def helpPath : Str16 :=
  backslash :: units ['a', 's', 's', 'e', 't', 's'] ++ backslash :: units ['h', 'e', 'l', 'p', '.', 't', 'x', 't']

/-- `L"\\assets\\readme.txt"`. -/
def readmePath : Str16 :=
  backslash :: units ['a', 's', 's', 'e', 't', 's'] ++
    backslash :: units ['r', 'e', 'a', 'd', 'm', 'e', '.', 't', 'x', 't']

/-- What is drawn on the help page. -/
def loadHelp (fw : Firmware Node) (turns : Nat) (memory : CString.Field (0 : UInt16) 4096) (w : World Node) :
    Turn (TextCopy × World Node) (TextCopy × World Node) :=
  copyMessage fw turns memory helpPath w

/-- What is drawn on the readme page. -/
def loadReadme (fw : Firmware Node) (turns : Nat) (memory : CString.Field (0 : UInt16) 4096) (w : World Node) :
    Turn (TextCopy × World Node) (TextCopy × World Node) :=
  copyMessage fw turns memory readmePath w

/-- What the viewer draws of the file `szFilePath`. -/
def loadViewed (fw : Firmware Node) (turns : Nat) (memory : CString.Field (0 : UInt16) 4096) (szFilePath : Str16)
    (w : World Node) : Turn (TextCopy × World Node) (TextCopy × World Node) :=
  copyFile fw (· < 4096) turns memory szFilePath w

variable {fw : Firmware Node} {memory : CString.Field (0 : UInt16) 4096} {path : Str16} {w : World Node}
variable {c : List UInt8} {room : Nat → Bool}

omit [DecidableEq Node] in
/-- A turn copies the unit that `unitsTurn` takes. -/
theorem copyTurn_puts (fw : Firmware Node) (room : Nat → Bool) (memory : CString.Field (0 : UInt16) 4096)
    (x : Str16 × LFile Node × World Node) :
    copyTurn fw room (x.1.foldl TextCopy.put (.start memory), x.2) =
      (unitsTurn fw room x).map fun y => (y.1.foldl TextCopy.put (.start memory), y.2) := by
  have cursor : (x.1.foldl TextCopy.put (.start memory)).cursor = x.1.length :=
    (TextCopy.puts_cursor _ x.1).trans (Nat.zero_add _)
  unfold copyTurn unitsTurn
  simp only [cursor]
  split
  · simp only [Turn.map, List.foldl_append, List.foldl_cons, List.foldl_nil]
  · rfl

/-- **What is copied** are the units that `readUnits` takes off the file. -/
theorem copyFile_eq (fw : Firmware Node) (room : Nat → Bool) (turns : Nat)
    (memory : CString.Field (0 : UInt16) 4096) (path : Str16) (w : World Node) :
    copyFile fw room turns memory path w =
      (readUnits fw room turns path w).map fun x => (x.1.foldl TextCopy.put (.start memory), x.2) := by
  have copied := Loop.after_map (fun x : Str16 × LFile Node × World Node =>
    (x.1.foldl TextCopy.put (.start memory), x.2)) (copyTurn_puts fw room memory) turns
    ([], LFile.next fw (LFile.construct fw path false w))
  simp only [List.foldl_nil] at copied
  unfold copyFile readUnits
  rw [copied]
  cases Loop.after (unitsTurn fw room) turns ([], LFile.next fw (LFile.construct fw path false w)) <;> rfl

/-! ## The units of a content -/

omit [DecidableEq Node] in
/-- The loop takes the first `k` bytes of a file that delivers `l`, if there is room for just these. -/
theorem unitsTurn_leaves {n : Node} (k : Nat) {l : List UInt8} {s : LFile Node × World Node} {taken : Str16}
    (delivers : Reader.Delivers (HoldsFile fw n c) (s.1.reader, s.1.handle, s.2) l) (inside : k ≤ l.length)
    (roomy : ∀ i < k, room (taken.length + i) = true) (full : k = l.length ∨ room (taken.length + k) = false) :
    ∃ s', Loop.Leaves (unitsTurn fw room) (taken, s) (taken ++ unitsOf (l.take k), s') := by
  induction k generalizing l s taken with
  | zero =>
    have stop : unitsTurn fw room (taken, s) = .leave (taken, s) := by
      rcases full with none | full
      · have ended := (Reader.atEnd_delivers delivers).2 (List.length_eq_zero_iff.1 none.symm)
        simp [unitsTurn, ended]
      · rw [Nat.add_zero] at full
        simp [unitsTurn, full]
    refine ⟨s, (Loop.leaves_leave stop).2 ?_⟩
    rw [List.take_zero]
    exact congrArg (·, s) (List.append_nil taken)
  | succ k ih =>
    cases l with
    | nil => cases inside
    | cons byte l =>
      have more := Reader.atEnd_delivers_cons delivers
      have shown := Reader.current_delivers_cons (LFile.readBuffer fw) delivers
      have moved := Reader.next_delivers (Reader.fileReadBuffer_refills (Efi.read_fits fw))
        (readable_supplies fw n c) delivers
      have here : room taken.length = true := roomy 0 (Nat.succ_pos k)
      have turn : unitsTurn fw room (taken, s) =
          .again (taken ++ [byte.toUInt16], LFile.next fw s) := by
        simp [unitsTurn, more, here, LFile.current, shown, LFile.onReader, toUnit_byte]
      have length (i : Nat) : (taken ++ [byte.toUInt16]).length + i = taken.length + (i + 1) := by
        rw [List.length_append, List.length_singleton]
        omega
      have further : ∀ i < k, room ((taken ++ [byte.toUInt16]).length + i) = true := by
        intro i less
        rw [length]
        exact roomy (i + 1) (Nat.succ_lt_succ less)
      have last : k = l.length ∨ room ((taken ++ [byte.toUInt16]).length + k) = false := by
        rw [length]
        exact full.imp_left Nat.succ.inj
      obtain ⟨s', leaves⟩ := ih (s := LFile.next fw s) moved (Nat.le_of_succ_le_succ inside) further last
      refine ⟨s', (Loop.leaves_again turn).2 ?_⟩
      rw [List.take_succ_cons, show unitsOf (byte :: l.take k) = [byte.toUInt16] ++ unitsOf (l.take k) from rfl,
        ← List.append_assoc]
      exact leaves

/-- A load that ends with `t`. -/
def LoadsTo (load : Nat → Turn (TextCopy × World Node) (TextCopy × World Node)) (t : TextCopy) : Prop :=
  ∃ enough w', ∀ turns, enough ≤ turns → load turns = .leave (t, w')

/-- What is copied of a file that is there. -/
theorem copyFile_loads (well : Readable fw) (named : path ≠ []) (there : w.file (fw.nodeOf path) = some c)
    (memory : CString.Field (0 : UInt16) 4096) {k : Nat} (inside : k ≤ c.length)
    (roomy : ∀ i < k, room i = true) (full : k = c.length ∨ room k = false) :
    LoadsTo (fun turns => copyFile fw room turns memory path w)
      ((unitsOf (c.take k)).foldl TextCopy.put (.start memory)) := by
  have none (i : Nat) : ([] : Str16).length + i = i := Nat.zero_add i
  have further : ∀ i < k, room (([] : Str16).length + i) = true := by
    intro i less
    rw [none]
    exact roomy i less
  have last : k = c.length ∨ room (([] : Str16).length + k) = false := by rwa [none]
  obtain ⟨s', enough, run⟩ := unitsTurn_leaves k (open_reads well named there).delivers inside further last
  refine ⟨enough, LFile.destroy s', fun turns le => ?_⟩
  show copyFile fw room turns memory path w = _
  rw [copyFile_eq, readUnits, Loop.after_eq_leave_iff.2 (Loop.run_mono run le)]
  rfl

/-! ## Bounds -/

/-- The load ends, writes inside its array, and hands `DrawText` as much of `length` as fits. -/
def InBounds (load : Nat → Turn (TextCopy × World Node) (TextCopy × World Node)) (length fits : Nat) : Prop :=
  ∃ t, LoadsTo load t ∧ t.InArray ∧ t.cursor = min length fits

omit [DecidableEq Node] in
theorem inBounds_iff {load : Nat → Turn (TextCopy × World Node) (TextCopy × World Node)} {t : TextCopy}
    {length fits : Nat} (loads : LoadsTo load t) :
    InBounds load length fits ↔ t.InArray ∧ t.cursor = min length fits := by
  constructor
  · rintro ⟨t', ⟨enough', w', ends'⟩, both⟩
    obtain ⟨enough, w, ends⟩ := loads
    have same := (ends (max enough enough') (Nat.le_max_left _ _)).symm.trans
      (ends' (max enough enough') (Nat.le_max_right _ _))
    cases same
    exact both
  · exact fun both => ⟨t, loads, both⟩

theorem start_puts (memory : CString.Field (0 : UInt16) 4096) (us : Str16) :
    ((us.foldl TextCopy.put (.start memory)).InArray ↔ us.length ≤ 4096) ∧
      (us.foldl TextCopy.put (.start memory)).cursor = us.length := by
  have start : (TextCopy.start memory).InArray ↔ True := iff_of_true rfl trivial
  have inArray := TextCopy.puts_inArray (t := .start memory) (Nat.zero_le 4096) us
  rw [start, true_and] at inArray
  refine ⟨inArray.trans ?_, (TextCopy.puts_cursor _ us).trans (Nat.zero_add _)⟩
  rw [show (TextCopy.start memory).cursor = 0 from rfl, Nat.zero_add]

/-- A message and its NUL need room for one unit more than the content has. -/
theorem copyMessage_inBounds_iff (well : Readable fw) (named : path ≠ [])
    (there : w.file (fw.nodeOf path) = some c) (memory : CString.Field (0 : UInt16) 4096) :
    InBounds (fun turns => copyMessage fw turns memory path w) c.length 4095 ↔ c.length ≤ 4095 := by
  have length : (unitsOf c).length = c.length := List.length_map _
  obtain ⟨inArray, cursor⟩ := start_puts memory (unitsOf c)
  have all : LoadsTo (fun turns => copyFile fw (fun _ => true) turns memory path w)
      ((unitsOf (c.take c.length)).foldl TextCopy.put (.start memory)) :=
    copyFile_loads well named there memory (Nat.le_refl _) (fun _ _ => rfl) (.inl rfl)
  rw [List.take_length] at all
  obtain ⟨enough, w', ends⟩ := all
  have loads : LoadsTo (fun turns => copyMessage fw turns memory path w)
      ((unitsOf c).foldl TextCopy.put (.start memory)).terminate :=
    ⟨enough, w', fun turns le =>
      congrArg (Turn.map fun x : TextCopy × World Node => (x.1.terminate, x.2)) (ends turns le)⟩
  rw [inBounds_iff loads, TextCopy.terminate_inArray, inArray, cursor, length]
  show _ ∧ ((unitsOf c).foldl TextCopy.put (.start memory)).cursor = _ ↔ _
  rw [cursor, length]
  omega

/-- The viewer never needs more room than there is. -/
theorem loadViewed_inBounds (well : Readable fw) (named : path ≠ [])
    (there : w.file (fw.nodeOf path) = some c) (memory : CString.Field (0 : UInt16) 4096) :
    InBounds (fun turns => loadViewed fw turns memory path w) c.length 4096 := by
  have loads : LoadsTo (fun turns => loadViewed fw turns memory path w)
      ((unitsOf (c.take (min c.length 4096))).foldl TextCopy.put (.start memory)) := by
    apply copyFile_loads well named there memory (Nat.min_le_left _ _)
    · intro i less
      exact decide_eq_true (Nat.lt_of_lt_of_le less (Nat.min_le_right _ _))
    · rcases Nat.le_total c.length 4096 with short | long
      · exact .inl (Nat.min_eq_left short)
      · rw [Nat.min_eq_right long]
        exact .inr rfl
  have length : (unitsOf (c.take (min c.length 4096))).length = min c.length 4096 := by
    rw [unitsOf, List.length_map, List.length_take, Nat.min_eq_left (Nat.min_le_left _ _)]
  obtain ⟨inArray, cursor⟩ := start_puts memory (unitsOf (c.take (min c.length 4096)))
  rw [inBounds_iff loads, inArray, cursor, length]
  exact ⟨Nat.min_le_right _ _, rfl⟩

/-- **The loads of `ScreenMode`**, of files with any content that arrive in any chunks, stay inside their
arrays if and only if the help and the readme leave room for the NUL. -/
theorem loads_inBounds_iff (well : Readable fw) {help readme viewed : List UInt8} {w₁ w₂ w₃ : World Node}
    (helpFile : w₁.file (fw.nodeOf helpPath) = some help)
    (readmeFile : w₂.file (fw.nodeOf readmePath) = some readme) {szFilePath : Str16} (named : szFilePath ≠ [])
    (viewedFile : w₃.file (fw.nodeOf szFilePath) = some viewed)
    (helpMessage readmeMessage szContent : CString.Field (0 : UInt16) 4096) :
    (InBounds (fun turns => loadHelp fw turns helpMessage w₁) help.length 4095 ∧
      InBounds (fun turns => loadReadme fw turns readmeMessage w₂) readme.length 4095 ∧
      InBounds (fun turns => loadViewed fw turns szContent szFilePath w₃) viewed.length 4096) ↔
    help.length ≤ 4095 ∧ readme.length ≤ 4095 := by
  have viewer := loadViewed_inBounds well named viewedFile szContent
  have first := copyMessage_inBounds_iff well (List.cons_ne_nil _ _) helpFile helpMessage
  have second := copyMessage_inBounds_iff well (List.cons_ne_nil _ _) readmeFile readmeMessage
  exact and_congr first ((and_iff_left viewer).trans second)

end Copy

/-- An array of zeros. -/
def blankText : CString.Field (0 : UInt16) 4096 :=
  ⟨List.replicate 4096 0, List.length_replicate, false⟩

/-- A disk on which every file holds `content`. -/
def everywhere (content : List UInt8) : World Str16 := World.start fun _ => some content

theorem everywhere_file (content : List UInt8) (path : Str16) :
    (everywhere content).file (flawless.nodeOf path) = some content := rfl

/-- Three short files. -/
theorem short_files_inBounds :
    InBounds (fun turns => loadHelp flawless turns blankText (everywhere [72, 105])) 2 4095 ∧
      InBounds (fun turns => loadReadme flawless turns blankText (everywhere [72, 105])) 2 4095 ∧
      InBounds (fun turns => loadViewed flawless turns blankText [65] (everywhere [72, 105])) 2
        4096 :=
  (loads_inBounds_iff flawless_readable (everywhere_file [72, 105] helpPath)
    (everywhere_file [72, 105] readmePath) (List.cons_ne_nil 65 [])
    (everywhere_file [72, 105] [65]) blankText blankText blankText).2 ⟨by decide, by decide⟩

/-- The NUL behind a help of 4096 bytes lies outside of `HelpMessage`. -/
theorem full_help_overflows :
    ¬ InBounds (fun turns => loadHelp flawless turns blankText (everywhere (List.replicate 4096 65)))
      4096 4095 := by
  have named : helpPath ≠ [] := List.cons_ne_nil _ _
  have overflows := copyMessage_inBounds_iff flawless_readable named
    (w := everywhere (List.replicate 4096 65)) rfl blankText
  rw [List.length_replicate] at overflows
  exact fun inside => absurd (overflows.1 inside) (by decide)

end Lavoro.Screen
