import Lavoro.Screen.FontFiles
import Lavoro.Screen.SheetFaults

/-!
# How a font is made (`LFont::LFont`)

The first line of the file is the name. Every other line that is not empty names a bitmap and, behind a comma, the
characters on it. A line without a comma is the name of a bitmap as well, and the character set is then
what lies behind the line in its buffer. What the loop reads does not depend on the fonts: the font is made of the
sheets that the file names, one after the other, up to where a file is missing or an array too short for a line or a
path (`construct_eq`).
-/

namespace Lavoro.Screen
open Lib Console

variable {Node : Type} [DecidableEq Node]

/-- `LFont(FileName)` on its way: its file, the number of lines that have been read behind the name, and the font,
or the fault that has ended the loop. -/
structure FontMaking (Node : Type) where
  file : LFile Node
  lines : Nat
  font : Except FontFault Glyphs

/-- The same with what `LoadBitmap` is given instead of the font: what the bitmaps have become, and the character
sets; `stopped` is the fault with which the reading has ended. -/
structure FontReading (Node : Type) where
  file : LFile Node
  lines : Nat
  sheets : List (LScreen × Str16)
  stopped : Option FontFault

/-- `ReadLine(szLine)`: the units it has stored, and what is then in `szLine`; `stack` is what lies there before. -/
def readSzLine (fw : Firmware Node) (turns : Nat) (stack : LineBuffer) (file : LFile Node) (w : World Node) :
    Turn (Str16 × Str16 × LFile Node × World Node) (Str16 × Str16 × LFile Node × World Node) :=
  match LFile.readLine fw turns (file, w) with
  | .again x => .again (x.1, x)
  | .leave x => .leave (x.1, (stack.readInto x.1).units, x.2)

/-- What is in front of the loop: the file is opened, which may fail, and `Name` is read, which may be too short. -/
def openFont (fw : Firmware Node) (turns : Nat) (fileName : Str16) (w : World Node) :
    Except FontFault (Turn (Str16 × LFile Node × World Node) (Str16 × LFile Node × World Node)) :=
  let file := LFile.construct fw fileName false w
  if file.1.handle.isNone then .error .trapped
  else
    match LFile.readLine fw turns (LFile.next fw file) with
    | .again x => .ok (.again x)
    | .leave x => if LineBuffer.Fits x.1 then .ok (.leave x) else .error .outside

namespace FontMaking

/-- `while (!file.Reader.AtEnd())`. `stack n` is what lies where line `n` is read to, and `headers` what lies where
the headers of a bitmap are; a line that takes more turns does not get on. -/
def turn (fw : Firmware Node) (turns : Nat) (stack : Nat → LineBuffer) (headers : Uninitialised) (memory : Nat → BitVec 32)
    (s : FontMaking Node × World Node) : Turn (FontMaking Node × World Node) (FontMaking Node × World Node) :=
  match s.1.font with
  | .error _ => .leave s
  | .ok font =>
    if Reader.atEnd s.1.file.reader then .leave s
    else
      match readSzLine fw turns (stack s.1.lines) s.1.file s.2 with
      | .again _ => .again s
      | .leave (stored, szLine, file, w) =>
        if ¬ LineBuffer.Fits stored then .again (⟨file, s.1.lines + 1, .error .outside⟩, w)
        else
          let loaded := font.loadLine fw headers memory szLine w
          .again (⟨file, s.1.lines + 1, loaded.1⟩, loaded.2)

/-- `LFont(FileName)`. -/
def construct (fw : Firmware Node) (turns : Nat) (stack : Nat → LineBuffer) (headers : Uninitialised)
    (memory : Nat → BitVec 32) (fileName : Str16) (w : World Node) : Except FontFault Glyphs :=
  match openFont fw turns fileName w with
  | .error fault => .error fault
  | .ok (.again _) => .ok .new
  | .ok (.leave (_, file, w)) =>
    (Loop.after (turn fw turns stack headers memory) turns (⟨file, 0, .ok .new⟩, w)).state.1.font

end FontMaking

namespace FontReading

/-- What a line adds, or the fault with which it ends the reading. -/
def add (t : FontReading Node) (file : LFile Node) : Except FontFault (List (LScreen × Str16)) → FontReading Node
  | .ok sheets => ⟨file, t.lines + 1, t.sheets ++ sheets, none⟩
  | .error fault => ⟨file, t.lines + 1, t.sheets, some fault⟩

/-- The loop without the fonts. -/
def turn (fw : Firmware Node) (turns : Nat) (stack : Nat → LineBuffer) (headers : Uninitialised)
    (s : FontReading Node × World Node) : Turn (FontReading Node × World Node) (FontReading Node × World Node) :=
  match s.1.stopped with
  | some _ => .leave s
  | none =>
    if Reader.atEnd s.1.file.reader then .leave s
    else
      match readSzLine fw turns (stack s.1.lines) s.1.file s.2 with
      | .again _ => .again s
      | .leave (stored, szLine, file, w) =>
        if ¬ LineBuffer.Fits stored then .again (s.1.add file (.error .outside), w)
        else
          let read := sheetsOfLine fw headers szLine w
          .again (s.1.add file read.1, read.2)

/-- What is read of a font, with nothing in front of the loop. -/
def read (fw : Firmware Node) (turns : Nat) (stack : Nat → LineBuffer) (headers : Uninitialised) (fileName : Str16)
    (w : World Node) : FontReading Node :=
  let file := (LFile.construct fw fileName false w).1
  match openFont fw turns fileName w with
  | .error fault => ⟨file, 0, [], some fault⟩
  | .ok (.again _) => ⟨file, 0, [], none⟩
  | .ok (.leave (_, file, w)) => (Loop.after (turn fw turns stack headers) turns (⟨file, 0, [], none⟩, w)).state.1

/-- The sheets that the file of a font names, in front of what ends the reading. -/
def sheetsIn (fw : Firmware Node) (turns : Nat) (stack : Nat → LineBuffer) (headers : Uninitialised) (fileName : Str16)
    (w : World Node) : List (LScreen × Str16) :=
  (read fw turns stack headers fileName w).sheets

/-- The font that is made of what has been read. -/
def made (memory : Nat → BitVec 32) (t : FontReading Node) : Except FontFault Glyphs := do
  let font ← Glyphs.loadSheets memory t.sheets
  match t.stopped with
  | none => return font
  | some fault => throw fault

end FontReading

/-! ## The font and the sheets -/

section Run

variable {fw : Firmware Node} {turns : Nat} {stack : Nat → LineBuffer} {headers : Uninitialised} {memory : Nat → BitVec 32}

/-- The font is that of the sheets so far. -/
structure Follows (memory : Nat → BitVec 32) (s : FontMaking Node × World Node) (t : FontReading Node × World Node) :
    Prop where
  file : s.1.file = t.1.file
  lines : s.1.lines = t.1.lines
  font : s.1.font = t.1.made memory
  world : s.2 = t.2

theorem loadSheets_append (memory : Nat → BitVec 32) (a b : List (LScreen × Str16)) :
    Glyphs.loadSheets memory (a ++ b) = Glyphs.loadSheets memory a >>= fun font => b.foldlM (Glyphs.loadRead memory) font :=
  List.foldlM_append

omit [DecidableEq Node] in
/-- A font is only made if nothing has ended the reading. -/
theorem FontReading.made_eq_ok {t : FontReading Node} {font : Glyphs} (ok : t.made memory = .ok font) :
    t.stopped = none ∧ Glyphs.loadSheets memory t.sheets = .ok font := by
  obtain ⟨font', loaded, rest⟩ := Loop.bind_eq_ok ok
  cases stopped : t.stopped with
  | none =>
    rw [stopped] at rest
    exact ⟨rfl, loaded.trans rest⟩
  | some fault =>
    rw [stopped] at rest
    cases rest

omit [DecidableEq Node] in
/-- What a line adds goes into the font. -/
theorem FontReading.made_add {t : FontReading Node} {font : Glyphs} (ok : t.made memory = .ok font) (file : LFile Node)
    (line : Except FontFault (List (LScreen × Str16))) :
    (t.add file line).made memory = line >>= fun sheets => sheets.foldlM (Glyphs.loadRead memory) font := by
  obtain ⟨-, loaded⟩ := made_eq_ok ok
  cases line with
  | error fault =>
    show (Glyphs.loadSheets memory t.sheets >>= _) = _
    rw [loaded]
    rfl
  | ok sheets =>
    show (Glyphs.loadSheets memory (t.sheets ++ sheets) >>= pure) = _
    rw [bind_pure, loadSheets_append, loaded]
    rfl

/-- What has been read only grows. -/
theorem FontReading.turn_grows (t : FontReading Node × World Node) :
    t.1.sheets <+: (FontReading.turn fw turns stack headers t).state.1.sheets := by
  have added (file : LFile Node) (line : Except FontFault (List (LScreen × Str16))) :
      t.1.sheets <+: (t.1.add file line).sheets := by
    cases line with
    | error fault => exact List.prefix_rfl
    | ok sheets => exact List.prefix_append _ _
  unfold FontReading.turn
  split
  · exact List.prefix_rfl
  · split
    · exact List.prefix_rfl
    · split
      · exact List.prefix_rfl
      · split
        · exact added _ _
        · exact added _ _

/-- Behind a fault nothing counts. -/
theorem after_fault {t : FontReading Node × World Node} {fault : FontFault} (failed : t.1.made memory = .error fault)
    (n : Nat) : (Loop.after (FontReading.turn fw turns stack headers) n t).state.1.made memory = .error fault := by
  cases loaded : Glyphs.loadSheets memory t.1.sheets with
  | ok font =>
    -- the reading has ended
    cases stopped : t.1.stopped with
    | none =>
      rw [FontReading.made, loaded, stopped] at failed
      cases failed
    | some fault' =>
      have ends : FontReading.turn fw turns stack headers t = .leave t := by
        rw [FontReading.turn, stopped]
      have stays : (Loop.after (FontReading.turn fw turns stack headers) n t).state = t := by
        cases n with
        | zero => rfl
        | succ n => rw [Loop.after_leave ends]; rfl
      rw [stays]
      exact failed
  | error fault' =>
    -- the sheets do not load, nor do more of them
    have same : fault' = fault := by
      rw [FontReading.made, loaded] at failed
      exact Except.error.inj failed
    have grows : t.1.sheets <+: (Loop.after (FontReading.turn fw turns stack headers) n t).state.1.sheets :=
      @Loop.after_keeps _ t _ (fun u => t.1.sheets <+: u.1.sheets)
        (fun u before => before.trans (FontReading.turn_grows u)) n List.prefix_rfl
    obtain ⟨more, all⟩ := grows
    rw [FontReading.made, ← all, loadSheets_append, loaded, same]
    rfl

/-- **One turn** of both loops, as long as there is a font. -/
theorem turn_follows {s : FontMaking Node × World Node} {t : FontReading Node × World Node} (h : Follows memory s t)
    {font : Glyphs} (fine : s.1.font = .ok font) :
    Turn.Rel (Follows memory) (Follows memory) (FontMaking.turn fw turns stack headers memory s)
      (FontReading.turn fw turns stack headers t) := by
  obtain ⟨⟨file, lines, _⟩, w⟩ := s
  obtain ⟨t, w'⟩ := t
  obtain ⟨own, count, made, world⟩ := h
  obtain rfl : w = w' := world
  obtain rfl : file = t.file := own
  obtain rfl : lines = t.lines := count
  obtain rfl := fine
  have ok : t.made memory = .ok font := made.symm
  obtain ⟨going, -⟩ := FontReading.made_eq_ok ok
  unfold FontMaking.turn FontReading.turn
  dsimp only
  rw [going]
  dsimp only
  by_cases ended : Reader.atEnd t.file.reader = true
  · rw [if_pos ended, if_pos ended]
    exact .leave ⟨rfl, rfl, made, rfl⟩
  · rw [if_neg ended, if_neg ended]
    split
    · exact .again ⟨rfl, rfl, made, rfl⟩
    · rename_i stored szLine file w _
      have counted (line : Except FontFault (List (LScreen × Str16))) : (t.add file line).file = file ∧
          (t.add file line).lines = t.lines + 1 := by
        cases line <;> exact ⟨rfl, rfl⟩
      by_cases fits : LineBuffer.Fits stored
      · rw [if_neg (not_not.2 fits), if_neg (not_not.2 fits), loadLine_eq]
        obtain ⟨own, count⟩ := counted (sheetsOfLine fw headers szLine w).1
        exact .again ⟨own.symm, count.symm, (FontReading.made_add ok file _).symm, rfl⟩
      · rw [if_pos fits, if_pos fits]
        exact .again ⟨rfl, rfl, (FontReading.made_add ok file (.error .outside)).symm, rfl⟩

/-- **The loops together.** -/
theorem after_follows (n : Nat) {s : FontMaking Node × World Node} {t : FontReading Node × World Node} (h : Follows memory s t) :
    (Loop.after (FontMaking.turn fw turns stack headers memory) n s).state.1.font =
      (Loop.after (FontReading.turn fw turns stack headers) n t).state.1.made memory := by
  induction n generalizing s t with
  | zero => exact h.font
  | succ n ih =>
    cases font : s.1.font with
    | error fault =>
      have stop : FontMaking.turn fw turns stack headers memory s = .leave s := by
        rw [FontMaking.turn, font]
      rw [Loop.after_leave stop, after_fault (h.font.symm.trans font)]
      exact font
    | ok font' =>
      have once : Turn.Rel (Follows memory) (Follows memory) (FontMaking.turn fw turns stack headers memory s)
          (FontReading.turn fw turns stack headers t) := turn_follows h font
      unfold Loop.after
      generalize FontMaking.turn fw turns stack headers memory s = made,
        FontReading.turn fw turns stack headers t = read at once
      cases once with
      | again later => exact ih later
      | leave last => exact last.font

/-- What ends the opening is nothing arithmetical. -/
theorem openFont_spares (fileName : Str16) (w : World Node) : Spares FontFault.Arithmetic (openFont fw turns fileName w) := by
  unfold openFont
  dsimp only
  split
  · exact spares_error_iff.2 not_arithmetic_trapped
  · split
    · exact spares_ok _
    · split
      · exact spares_ok _
      · exact spares_error_iff.2 not_arithmetic_outside

omit [DecidableEq Node] in
theorem FontReading.add_stopped (t : FontReading Node) (file : LFile Node) {line : Except FontFault (List (LScreen × Str16))}
    (spares : Spares FontFault.Arithmetic line) : ∀ fault ∈ (t.add file line).stopped, ¬ FontFault.Arithmetic fault := by
  intro fault mem bad
  cases line with
  | error fault' =>
    obtain rfl : fault' = fault := Option.some.inj mem
    exact spares fault' bad rfl
  | ok sheets => cases mem

theorem FontReading.turn_stopped (t : FontReading Node × World Node)
    (before : ∀ fault ∈ t.1.stopped, ¬ FontFault.Arithmetic fault) :
    ∀ fault ∈ (FontReading.turn fw turns stack headers t).state.1.stopped, ¬ FontFault.Arithmetic fault := by
  unfold FontReading.turn
  split
  · exact before
  · split
    · exact before
    · split
      · exact before
      · split
        · exact add_stopped _ _ (spares_error_iff.2 not_arithmetic_outside)
        · exact add_stopped _ _ (sheetsOfLine_spares fw headers _ _)

/-- What ends the reading is nothing arithmetical. -/
theorem FontReading.read_stopped (fileName : Str16) (w : World Node) :
    ∀ fault ∈ (FontReading.read fw turns stack headers fileName w).stopped, ¬ FontFault.Arithmetic fault := by
  unfold FontReading.read
  cases opened : openFont fw turns fileName w with
  | error fault =>
    intro fault' mem bad
    obtain rfl : fault = fault' := Option.some.inj mem
    exact openFont_spares fileName w fault bad opened
  | ok first =>
    cases first with
    | again x => exact nofun
    | leave x =>
      apply Loop.after_keeps FontReading.turn_stopped turns
      intro fault mem
      cases mem

end Run

/-- **A font is made of the sheets** that its file names, unless something has ended their reading. -/
theorem FontMaking.construct_eq (fw : Firmware Node) (turns : Nat) (stack : Nat → LineBuffer) (headers : Uninitialised)
    (memory : Nat → BitVec 32) (fileName : Str16) (w : World Node) :
    FontMaking.construct fw turns stack headers memory fileName w =
      (FontReading.read fw turns stack headers fileName w).made memory := by
  unfold FontMaking.construct FontReading.read
  cases openFont fw turns fileName w with
  | error fault => rfl
  | ok first =>
    cases first with
    | again x => rfl
    | leave x => exact after_follows turns ⟨rfl, rfl, rfl, rfl⟩

end Lavoro.Screen
