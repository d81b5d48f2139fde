import Lavoro.Console.Arguments
import Lavoro.Efi.Numerals
import Lavoro.File.ReadLine
import Mathlib.Logic.Function.Iterate

/-!
# The configuration (`main.cpp`)

Before its loop `efi_main` opens `\assets\config.txt` and reads five lines into `szLine`: the four numbers of
`LocalAddress`, each an `UINT8`, and `LocalPort`. A line that the file does not have counts as 0. `ReadLine` writes behind
`szLine` where a line is too long for it.
-/

namespace Lavoro.Console
open Lib

variable {Node : Type} [DecidableEq Node]

/-- `LocalAddress` and `LocalPort`. -/
structure Settings where
  localAddress : List UInt8
  localPort : BitVec 64
  deriving DecidableEq, Repr

/-- `L"\\assets\\config.txt"`. -/
def configPath : Str16 :=
  [92, 97, 115, 115, 101, 116, 115, 92, 99, 111, 110, 102, 105, 103, 46, 116, 120, 116]

/-- `config.Reader.ReadLine(szLine)` and `Atoi(szLine)`; `none` also where the line does not fit. -/
def readNumber (fw : Firmware Node) (turns : Nat) (x : LineBuffer × LFile Node × World Node) :
    Option (Nat × LineBuffer × LFile Node × World Node) :=
  match LFile.readLine fw turns x.2 with
  | .again _ => none
  | .leave line =>
    if LineBuffer.Fits line.1 then some (atoi (x.1.readInto line.1).units, x.1.readInto line.1, line.2) else none

/-- The five lines. -/
def readSettings (fw : Firmware Node) (turns : Nat) (x : LineBuffer × LFile Node × World Node) :
    Option (Settings × LineBuffer × LFile Node × World Node) := do
  let (a, x) ← readNumber fw turns x
  let (b, x) ← readNumber fw turns x
  let (c, x) ← readNumber fw turns x
  let (d, x) ← readNumber fw turns x
  let (port, x) ← readNumber fw turns x
  return (⟨[UInt8.ofNat a, UInt8.ofNat b, UInt8.ofNat c, UInt8.ofNat d], BitVec.ofNat 64 port⟩, x)

/-- What the lines of the file say. -/
def settingsOf (lines : List Str16) : Settings where
  localAddress := (List.range 4).map fun i => UInt8.ofNat (atoi (lines.getD i []))
  localPort := BitVec.ofNat 64 (atoi (lines.getD 4 []))

/-- `Atoi` stops at the NUL. -/
theorem atoi_append (p rest : Str16) : atoi (p ++ 0 :: rest) = atoi p := by
  have blanks : (p ++ 0 :: rest).dropWhile (· = 32) = p.dropWhile (· = 32) ++ 0 :: rest := by
    induction p with
    | nil => rfl
    | cons c p ih => by_cases h : c = 32 <;> simp [h, ih]
  rw [atoi, blanks, atoiDigits_append, atoi]

/-! ## Reading the lines -/

/-- A line with something in it is stored whatever is in front of the buffer. -/
theorem readInto_line {b : LineBuffer} {line : List UInt8} (safe : b.before ≠ 13 ∨ line ≠ []) :
    b.readInto (line.map UInt8.toUInt16) = b.put (lineText line) := by
  rcases safe with before | some'
  · exact LineBuffer.readInto_text before line
  · have last : (line.map UInt8.toUInt16).getLast? ≠ none := by
      rw [Ne, List.getLast?_eq_none_iff, List.map_eq_nil_iff]
      exact some'
    obtain ⟨unit, last⟩ := Option.ne_none_iff_exists'.1 last
    simp only [LineBuffer.readInto, lineText, last, Option.some.injEq]
    split <;> rfl

/-- The line of the number `i`, of those that are left. -/
theorem getD_fileLines (l : List UInt8) (i : Nat) : (fileLines l).getD i [] = lineText (firstLine (restOf^[i] l)) := by
  induction i generalizing l with
  | zero =>
    by_cases empty : l = []
    · subst empty
      rfl
    · rw [fileLines, linesOf_cons empty]
      rfl
  | succ i ih =>
    by_cases empty : l = []
    · subst empty
      exact ih []
    · rw [fileLines, linesOf_cons empty]
      exact ih (restOf l)

section Reading

variable {fw : Firmware Node} {n : Node} {content l : List UInt8} {x : LineBuffer × LFile Node × World Node}

omit [DecidableEq Node] in
/-- **A number** is that of the next line. -/
theorem readNumber_ahead (safe : x.1.before ≠ 13 ∨ firstLine l ≠ [])
    (fits : LineBuffer.Fits ((firstLine l).map UInt8.toUInt16)) (ahead : Ahead fw n content l x.2) :
    ∃ enough x', (∀ turns, enough ≤ turns → readNumber fw turns x = some (atoi (lineText (firstLine l)), x')) ∧
      x'.1.before = x.1.before ∧ Ahead fw n content (restOf l) x'.2 := by
  obtain ⟨enough, s', line, rest, -⟩ := readLine_settles ahead
  refine ⟨enough, (x.1.put (lineText (firstLine l)), s'), fun turns le => ?_, rfl, rest⟩
  have text : atoi (x.1.put (lineText (firstLine l))).units = atoi (lineText (firstLine l)) := atoi_append ..
  simp only [readNumber, line turns le, fits, if_true, readInto_line safe, text]

/-- Each line that is read fits the buffer, and what is in front of that is no carriage return, or none of them is empty. -/
structure Safe (b : LineBuffer) (l : List UInt8) : Prop where
  before : b.before ≠ 13 ∨ ∀ i, i < 5 → firstLine (restOf^[i] l) ≠ []
  fits : ∀ i, i < 5 → LineBuffer.Fits ((firstLine (restOf^[i] l)).map UInt8.toUInt16)

omit [DecidableEq Node] in
/-- The five numbers. -/
theorem readSettings_ahead (safe : Safe x.1 l) (ahead : Ahead fw n content l x.2) :
    ∃ enough x', ∀ turns, enough ≤ turns → readSettings fw turns x = some (settingsOf (fileLines l), x') := by
  have line : ∀ i (y : LineBuffer), i < 5 → y.before = x.1.before → y.before ≠ 13 ∨ firstLine (restOf^[i] l) ≠ [] := by
    intro i y lt same
    rw [same]
    exact safe.before.imp id fun all => all i lt
  obtain ⟨e₁, x₁, first, same₁, ahead₁⟩ := readNumber_ahead (line 0 x.1 (by decide) rfl) (safe.fits 0 (by decide)) ahead
  obtain ⟨e₂, x₂, second, same₂, ahead₂⟩ := readNumber_ahead (line 1 x₁.1 (by decide) same₁) (safe.fits 1 (by decide)) ahead₁
  have same₂ := same₂.trans same₁
  obtain ⟨e₃, x₃, third, same₃, ahead₃⟩ := readNumber_ahead (line 2 x₂.1 (by decide) same₂) (safe.fits 2 (by decide)) ahead₂
  have same₃ := same₃.trans same₂
  obtain ⟨e₄, x₄, fourth, same₄, ahead₄⟩ := readNumber_ahead (line 3 x₃.1 (by decide) same₃) (safe.fits 3 (by decide)) ahead₃
  have same₄ := same₄.trans same₃
  obtain ⟨e₅, x₅, fifth, -, -⟩ := readNumber_ahead (line 4 x₄.1 (by decide) same₄) (safe.fits 4 (by decide)) ahead₄
  refine ⟨e₁ + e₂ + e₃ + e₄ + e₅, x₅, fun turns le => ?_⟩
  simp only [readSettings, first turns (by omega), second turns (by omega), third turns (by omega),
    fourth turns (by omega), fifth turns (by omega), settingsOf, getD_fileLines, Option.bind_eq_bind, Option.bind_some]
  rfl

/-- Opened, the file is ahead of its whole content. -/
theorem ahead_construct (well : Readable fw) {path : Str16} (named : path ≠ []) {w : World Node}
    (there : w.file (fw.nodeOf path) = some content) (some' : content ≠ []) :
    Ahead fw (fw.nodeOf path) content content (LFile.construct fw path false w) := by
  have opened := openFile_present path false (well.opens w.opens) there
  have held : ({ w with opens := w.opens + 1 } : World Node).content (fw.nodeOf path) = content :=
    congrArg (Option.getD · []) there
  rw [construct_eq named, opened]
  exact .fresh (fw.heap w.opens) rfl (holdsFile_at well.reads held (Nat.zero_le _)) some'

theorem readSettings_construct (well : Readable fw) {w : World Node} (there : w.file (fw.nodeOf configPath) = some content)
    (some' : content ≠ []) {szLine : LineBuffer} (safe : Safe szLine content) :
    ∃ enough x', ∀ turns, enough ≤ turns →
      readSettings fw turns (szLine, LFile.construct fw configPath false w) = some (settingsOf (fileLines content), x') :=
  readSettings_ahead safe (ahead_construct well (List.cons_ne_nil _ _) there some')

end Reading

/-! ## Settings that have been written out -/

/-- The lines of the settings. -/
def Settings.lines (s : Settings) : List Str16 :=
  s.localAddress.map (fun octet => decimal octet.toNat) ++ [decimal s.localPort.toNat]

/-- A file begins with the lines of the settings; what follows is not read. -/
structure WrittenAs (s : Settings) (content : List UInt8) : Prop where
  four : s.localAddress.length = 4
  lines : s.lines <+: fileLines content

theorem decimal_ne_nil (n : Nat) : decimal n ≠ [] := by
  rw [decimal, Ne, List.map_eq_nil_iff]
  exact Nat.toDigits_ne_nil

variable {s : Settings} {content : List UInt8}

/-- A line of the settings has a digit, and no more digits than a port. -/
theorem WrittenAs.line (h : WrittenAs s content) {i : Nat} (lt : i < 5) :
    (fileLines content).getD i [] ≠ [] ∧ ((fileLines content).getD i []).length ≤ 20 := by
  obtain ⟨more, same⟩ := h.lines
  have count : s.lines.length = 5 := by rw [Settings.lines, List.length_append, List.length_map, h.four]; rfl
  have here : i < s.lines.length := by rwa [count]
  rw [← same, List.getD_eq_getElem?_getD, List.getElem?_append_left here, List.getElem?_eq_getElem here, Option.getD_some]
  have mem : s.lines[i] ∈ s.lines := List.getElem_mem here
  rcases List.mem_append.1 mem with octet | port
  · obtain ⟨a, -, eq⟩ := List.mem_map.1 octet
    rw [← eq]
    exact ⟨decimal_ne_nil _, length_decimal_le (by decide) (Nat.lt_trans a.toNat_lt (by decide))⟩
  · rw [List.mem_singleton.1 port]
    exact ⟨decimal_ne_nil _, length_decimal_le (by decide) (Nat.lt_trans s.localPort.isLt (by decide))⟩

/-- A line is at most the carriage return longer than its text. -/
theorem length_lineText (line : List UInt8) : line.length ≤ (lineText line).length + 1 := by
  unfold lineText
  split
  · rw [List.length_dropLast, List.length_map]
    omega
  · rw [List.length_map]
    omega

/-- None of the lines that are read is empty or too long. -/
theorem WrittenAs.safe (h : WrittenAs s content) (szLine : LineBuffer) : Safe szLine content := by
  refine ⟨.inr ?_, ?_⟩
  · intro i lt empty
    have line := (h.line lt).1
    rw [getD_fileLines, empty] at line
    exact line rfl
  · intro i lt
    have short := (h.line lt).2
    have line := length_lineText (firstLine (restOf^[i] content))
    rw [getD_fileLines] at short
    left
    rw [List.length_map, maxPath]
    omega

/-- **The settings are read back.** -/
theorem WrittenAs.settingsOf_eq (h : WrittenAs s content) : settingsOf (fileLines content) = s := by
  obtain ⟨four, more, same⟩ := h
  obtain ⟨address, port⟩ := s
  match address, four with
  | [a, b, c, d], _ =>
    rw [← same]
    simp [settingsOf, Settings.lines, List.range_succ]

/-- **`config.txt`**, however its reads cut it: where its first five lines fit `szLine`, `LocalAddress` and `LocalPort` are
what their numbers say, a missing line being 0; and settings that have been written out, in lines with either ending, fit and
are those read. -/
theorem config_read {fw : Firmware Node} (well : Readable fw) {w : World Node}
    (there : w.file (fw.nodeOf configPath) = some content) (some' : content ≠ []) (szLine : LineBuffer) :
    (Safe szLine content → ∃ enough x', ∀ turns, enough ≤ turns →
      readSettings fw turns (szLine, LFile.construct fw configPath false w) = some (settingsOf (fileLines content), x')) ∧
    ∀ s, WrittenAs s content → ∃ enough x', ∀ turns, enough ≤ turns →
      readSettings fw turns (szLine, LFile.construct fw configPath false w) = some (s, x') := by
  refine ⟨readSettings_construct well there some', ?_⟩
  intro s h
  rw [← h.settingsOf_eq]
  exact readSettings_construct well there some' (h.safe szLine)

/-- `192`, `168`, `3`, `16` and `80`, with a carriage return behind the first and nothing behind the last. -/
def sampleConfig : List UInt8 := [49, 57, 50, 13, 10, 49, 54, 56, 10, 51, 10, 49, 54, 10, 56, 48]

def sampleWorld : World Str16 where
  file path := if path = configPath then some sampleConfig else none
  opens := 0
  reads := 0
  writes := 0
  deletes := 0
  seeks := 0
  trapped := false

theorem sampleConfig_read : ∃ enough x', ∀ turns, enough ≤ turns →
    readSettings flawless turns (⟨13, []⟩, LFile.construct flawless configPath false sampleWorld) =
      some (⟨[192, 168, 3, 16], 80⟩, x') := by
  have there : sampleWorld.file (flawless.nodeOf configPath) = some sampleConfig :=
    show (if configPath = configPath then some sampleConfig else none) = _ from if_pos rfl
  have written : WrittenAs ⟨[192, 168, 3, 16], 80⟩ sampleConfig := ⟨rfl, [], by decide⟩
  exact (config_read flawless_readable there (List.cons_ne_nil _ _) ⟨13, []⟩).2 _ written

end Lavoro.Console
