import Lavoro.File.ReadLine
import Lavoro.Screen.Fonts
import Lavoro.Screen.SheetFaults

/-!
# The fonts that are listed

`fonts.txt` names a font file on every line that is not empty, and the first line of a font file is
the name of the font. On files that can be read, with sheets that `LoadBitmap` can load, `LoadFonts()` comes to an end
with just these fonts, in this order.
-/

namespace Lavoro.Screen
open Lib Console LFile

variable {Node : Type} [DecidableEq Node]

/-- The string in a buffer into which the line has been read; `memory` is what the buffer held. -/
def lineIn (memory : LineBuffer) (line : List UInt8) : Str16 :=
  strAt (memory.readInto (line.map UInt8.toUInt16)).units 0

/-- The bytes of a file, none where it is not there. -/
def bytesOf (file : Node → Option (List UInt8)) (n : Node) : List UInt8 := (file n).getD []

/-- The font that a line of `fonts.txt` names. -/
def fontOf (fw : Firmware Node) (name : LineBuffer) (file : Node → Option (List UInt8)) (line : Str16) : LFont :=
  ⟨fontsDirectory ++ line, lineIn name (firstLine (bytesOf file (fw.nodeOf (fontsDirectory ++ line))))⟩

/-- The names of the font files in a content of `fonts.txt`. -/
def namesIn (memory : LineBuffer) (l : List UInt8) : List Str16 :=
  ((linesOf l).map (lineIn memory)).filter (· ≠ [])

/-- The fonts that are listed. -/
def listed (fw : Firmware Node) (memory name : LineBuffer) (file : Node → Option (List UInt8)) : List LFont :=
  (namesIn memory (bytesOf file (fw.nodeOf fontsFile))).map (fontOf fw name file)

/-- The file `path` is there, and `szPath` has room for the path. -/
structure PathThere (fw : Firmware Node) (file : Node → Option (List UInt8)) (path : Str16) : Prop where
  short : path.length < maxPath
  there : (file (fw.nodeOf path)).isSome

/-- The bitmap that a line names is there, and whenever it is read, `LoadBitmap` can load it with the characters of the
line: it is not larger than its array, there is a character, and it has ink if it has two rows. -/
structure BitmapThere (fw : Firmware Node) (headers : Uninitialised) (file : Node → Option (List UInt8))
    (szLine : Str16) : Prop where
  path : PathThere fw file (fontsDirectory ++ bitmapFileName szLine)
  loads : ∀ w : World Node, w.file = file →
    ¬ Overrun (LBitmap.construct fw (fontsDirectory ++ bitmapFileName szLine) headers w).1 ∧
      ¬ SheetFails ((LBitmap.construct fw (fontsDirectory ++ bitmapFileName szLine) headers w).1, charSet szLine)

/-- The lines of a file have room where they are read to. -/
def LinesFit (l : List UInt8) : Prop := ∀ line ∈ linesOf l, LineBuffer.Fits (line.map UInt8.toUInt16)

instance (l : List UInt8) : Decidable (LinesFit l) := inferInstanceAs (Decidable (∀ line ∈ linesOf l, _))

/-- A font file is there, and so are the bitmaps that the lines behind its name name, wherever they are read to. -/
structure FontThere (fw : Firmware Node) (mem : FontMemory) (file : Node → Option (List UInt8)) (path : Str16) : Prop where
  there : PathThere fw file path
  lines : LinesFit (bytesOf file (fw.nodeOf path))
  bitmaps : ∀ line ∈ linesOf (restOf (bytesOf file (fw.nodeOf path))), ∀ n,
    lineIn (mem.stack n) line ≠ [] →
      BitmapThere fw mem.headers file ((mem.stack n).readInto (line.map UInt8.toUInt16)).units

/-- `fonts.txt` is there and so is every font file that it names. -/
structure FontsThere (fw : Firmware Node) (mem : FontMemory) (file : Node → Option (List UInt8)) : Prop where
  there : (file (fw.nodeOf fontsFile)).isSome
  lines : LinesFit (bytesOf file (fw.nodeOf fontsFile))
  fonts : ∀ line ∈ namesIn mem.szLine (bytesOf file (fw.nodeOf fontsFile)),
    FontThere fw mem file (fontsDirectory ++ line)

theorem namesIn_cons {memory : LineBuffer} {l : List UInt8} (more : l ≠ []) :
    namesIn memory l =
      if lineIn memory (firstLine l) = [] then namesIn memory (restOf l)
      else lineIn memory (firstLine l) :: namesIn memory (restOf l) := by
  unfold namesIn
  rw [linesOf_cons more, List.map_cons, List.filter_cons]
  by_cases blank : lineIn memory (firstLine l) = [] <;> simp [blank]

/-- A string is empty where it starts with its NUL. -/
theorem headD_eq_zero_iff (mem : Str16) : mem.headD 0 = 0 ↔ strAt mem 0 = [] := by
  rw [strAt_zero]
  cases mem with
  | nil => simp
  | cons c mem => by_cases ends : c = 0 <;> simp [ends]

/-! ## Lines and bitmaps that can be loaded -/

section Loading

variable {fw : Firmware Node} {file : Node → Option (List UInt8)} {w : World Node}

theorem LinesFit.first {l : List UInt8} (fits : LinesFit l) : LineBuffer.Fits ((firstLine l).map UInt8.toUInt16) := by
  by_cases empty : l = []
  · subst empty
    decide
  · apply fits
    rw [linesOf_cons empty]
    exact List.mem_cons_self

/-- The lines behind the first. -/
theorem mem_linesOf_rest {l line : List UInt8} (mem : line ∈ linesOf (restOf l)) : line ∈ linesOf l := by
  by_cases empty : l = []
  · subst empty
    exact mem
  · rw [linesOf_cons empty]
    exact List.mem_cons_of_mem _ mem

/-- Nothing ends the loading of a file that is there. -/
theorem fileStop_there (well : Readable fw) {path : Str16} (named : path ≠ []) (h : PathThere fw file path)
    (files : w.file = file) : fileStop fw path w = none := by
  have opens : LFile.Opens fw path false w := ⟨named, well.opens w.opens, .inr (by rw [files]; exact h.there)⟩
  have handle : (LFile.construct fw path false w).1.handle.isNone = false := by
    rw [← Option.not_isSome, LFile.construct_isSome.2 opens]
    rfl
  rw [fileStop, if_neg (Nat.not_le_of_lt h.short), handle, if_neg Bool.false_ne_true]

/-- A line with a bitmap that is there is loaded. -/
theorem loadLine_there (well : Readable fw) {headers : Uninitialised} (pixels : Nat → BitVec 32) {szLine : Str16}
    (there : strAt szLine 0 ≠ [] → BitmapThere fw headers file szLine) (files : w.file = file) (font : Glyphs) :
    ∃ font', (font.loadLine fw headers pixels szLine w).1 = .ok font' := by
  rw [loadLine_eq]
  unfold sheetsOfLine
  by_cases blank : szLine.headD 0 = 0
  · rw [if_pos blank]
    exact ⟨font, rfl⟩
  · have bitmap := there (mt (headD_eq_zero_iff szLine).2 blank)
    have named : fontsDirectory ++ bitmapFileName szLine ≠ [] := by
      unfold fontsDirectory
      simp
    obtain ⟨whole, fine⟩ := bitmap.loads w files
    rw [if_neg blank, fileStop_there well named bitmap.path files]
    generalize LBitmap.construct fw (fontsDirectory ++ bitmapFileName szLine) headers w = read at whole fine
    show ∃ font', (font.loadRead pixels (read.1, charSet szLine) >>= pure) = .ok font'
    rcases Glyphs.loadRead_cases pixels font (read.1, charSet szLine) with
      ⟨overrun, -⟩ | ⟨-, fails, -⟩ | ⟨-, -, font', loaded, -⟩
    · exact absurd overrun whole
    · exact absurd fails fine
    · exact ⟨font', by rw [loaded]; rfl⟩

end Loading

/-! ## Single steps -/

section Steps

variable {fw : Firmware Node} {n : Node} {c l : List UInt8} {f : FontLoading Node} {w : World Node}
variable (memory : LineBuffer) (headers : Uninitialised)

namespace FontLoading

omit [DecidableEq Node] in
theorem innermost_fonts (font : f.font = none) (file : LFile Node) :
    f.innermost = f.fonts ∧ f.setInnermost file = { f with fonts := file } :=
  ⟨by rw [innermost, font]; rfl, if_neg (by simp [font])⟩

omit [DecidableEq Node] in
theorem innermost_font {own : LFile Node} (font : f.font = some own) (file : LFile Node) :
    f.innermost = own ∧ f.setInnermost file = { f with font := some file } :=
  ⟨by rw [innermost, font]; rfl, if_pos (by rw [font]; rfl)⟩

omit [DecidableEq Node] in
theorem isSome_setInnermost (f : FontLoading Node) (file : LFile Node) :
    (f.setInnermost file).font.isSome = f.font.isSome := by
  cases font : f.font with
  | none => rw [(innermost_fonts font file).2, font]
  | some own => rw [(innermost_font font file).2]; rfl

/-- The next line of the innermost file. -/
theorem step_line (idle : f.pending = false) (ahead : Ahead fw n c l (f.innermost, w)) (more : l ≠ []) :
    ∃ enough file w', (∀ turns, enough ≤ turns →
        LFile.readLine fw turns (f.innermost, w) = .leave ((firstLine l).map UInt8.toUInt16, file, w') ∧
        f.step fw turns memory headers w = .leave (some { f.setInnermost file with
          szLine := memory.readInto ((firstLine l).map UInt8.toUInt16), pending := true }, w')) ∧
      Ahead fw n c (restOf l) (file, w') ∧ w'.file = w.file := by
  obtain ⟨enough, ⟨file, w'⟩, line, rest, files⟩ := readLine_settles ahead
  have going : ¬ Reader.atEnd f.innermost.reader = true := fun ended => more (ahead.atEnd.1 ended)
  refine ⟨enough, file, w', fun turns le => ⟨line turns le, ?_⟩, rest, files⟩
  simp [step, idle, going, nextLine, line turns le, Turn.map]

/-- A line that is empty. -/
theorem step_blank (pending : f.pending = true) (blank : strAt f.szLine.units 0 = []) (turns : Nat) :
    f.step fw turns memory headers w = .leave (some { f with pending := false }, w) := by
  rw [step, if_pos pending, if_pos ((headD_eq_zero_iff _).2 blank)]

/-- A line in the file of a font, which names a bitmap or is empty. -/
theorem step_bitmap (pending : f.pending = true) (font : f.font.isSome) :
    ∃ w' : World Node, (∀ turns, f.step fw turns memory headers w =
        .leave (some { f with pending := false }, w')) ∧ w'.file = w.file := by
  by_cases blank : strAt f.szLine.units 0 = []
  · exact ⟨w, step_blank memory headers pending blank, rfl⟩
  · refine ⟨(LBitmap.construct fw f.path headers w).2, fun turns => ?_, LBitmap.construct_file fw f.path headers w⟩
    rw [step, if_pos pending, if_neg (mt (headD_eq_zero_iff _).1 blank), if_pos font]

omit [DecidableEq Node] in
theorem path_fonts (f : FontLoading Node) (font : f.font = none) :
    f.path = fontsDirectory ++ strAt f.szLine.units 0 := by
  simp [path, font]

omit [DecidableEq Node] in
theorem path_ne_nil (f : FontLoading Node) : f.path ≠ [] := by
  unfold path fontsDirectory
  simp

/-- A line that names a font. -/
theorem step_open (well : Readable fw) (mem : FontMemory) (pending : f.pending = true)
    (named : strAt f.szLine.units 0 ≠ []) (font : f.font = none) (there : w.file (fw.nodeOf f.path) = some c) :
    ∃ enough file w', (∀ turns, enough ≤ turns →
        LFile.readLine fw turns (LFile.next fw (LFile.construct fw f.path false w)) =
          .leave ((firstLine c).map UInt8.toUInt16, file, w') ∧
        f.step fw turns memory headers w = .leave (some { f with font := some file, pending := false }, w') ∧
        FontRun.readName fw turns mem f.path w = lineIn mem.name (firstLine c)) ∧
      Ahead fw (fw.nodeOf f.path) c (restOf c) (file, w') ∧ w'.file = w.file := by
  have opened : Ahead fw (fw.nodeOf f.path) c c (LFile.next fw (LFile.construct fw f.path false w)) :=
    .started (open_reads well f.path_ne_nil there).delivers
  obtain ⟨enough, ⟨file, w'⟩, line, rest, files⟩ := readLine_settles opened
  have kept : (LFile.next fw (LFile.construct fw f.path false w)).2.file = w.file :=
    ((unwritten_construct f.path w).next fw).file
  refine ⟨enough, file, w', fun turns le => ⟨line turns le, ?_, ?_⟩, rest, files.trans kept⟩
  · rw [step, if_pos pending, if_neg (mt (headD_eq_zero_iff _).1 named)]
    simp [font, openFont, line turns le, Turn.map]
  · rw [FontRun.readName, line turns le]
    rfl

/-- The end of the innermost file. -/
theorem step_end (idle : f.pending = false) (ahead : Ahead fw n c [] (f.innermost, w)) (turns : Nat) :
    f.step fw turns memory headers w = .leave (f.font.map fun _ => { f with font := none }, w) := by
  simp [step, idle, ahead.atEnd.2 rfl, LFile.destroy]

end FontLoading

end Steps

/-! ## Runs -/

namespace FontRun

/-- Between two lines of `fonts.txt`, of which `l` is still to be read. -/
structure Between (fw : Firmware Node) (file : Node → Option (List UInt8)) (l : List UInt8)
    (s : FontRun Node × World Node) : Prop where
  fine : s.1.fault = none
  idle : s.1.loading.pending = false
  font : s.1.loading.font = none
  ahead : Ahead fw (fw.nodeOf fontsFile) (bytesOf file (fw.nodeOf fontsFile)) l (s.1.loading.fonts, s.2)
  files : s.2.file = file

/-- In the file of a font, of which `u` is still to be read, with bitmaps that can be loaded. -/
structure Within (fw : Firmware Node) (mem : FontMemory) (file : Node → Option (List UInt8)) (l u : List UInt8)
    (s : FontRun Node × World Node) : Prop where
  fine : s.1.fault = none
  idle : s.1.loading.pending = false
  font : ∃ f n, s.1.loading.font = some f ∧ Ahead fw n (bytesOf file n) u (f, s.2)
  lines : LinesFit u
  bitmaps : ∀ line ∈ linesOf u, ∀ n, lineIn (mem.stack n) line ≠ [] →
    BitmapThere fw mem.headers file ((mem.stack n).readInto (line.map UInt8.toUInt16)).units
  ahead : Ahead fw (fw.nodeOf fontsFile) (bytesOf file (fw.nodeOf fontsFile)) l (s.1.loading.fonts, s.2)
  files : s.2.file = file

/-- A line of `fonts.txt` has been read, behind which `l` is still to be read. -/
structure LineRead (fw : Firmware Node) (mem : FontMemory) (file : Node → Option (List UInt8))
    (line l : List UInt8) (s : FontRun Node × World Node) : Prop where
  fine : s.1.fault = none
  pending : s.1.loading.pending = true
  szLine : s.1.loading.szLine = mem.szLine.readInto (line.map UInt8.toUInt16)
  font : s.1.loading.font = none
  ahead : Ahead fw (fw.nodeOf fontsFile) (bytesOf file (fw.nodeOf fontsFile)) l (s.1.loading.fonts, s.2)
  files : s.2.file = file

/-- From `s` the run comes to `t`. -/
def Leads (fw : Firmware Node) (mem : FontMemory) (s t : FontRun Node × World Node) : Prop :=
  ∀ r, Loop.Finishes (fun turns => turn fw turns mem) t r → Loop.Finishes (fun turns => turn fw turns mem) s r

section Runs

variable {fw : Firmware Node} {mem : FontMemory} {file : Node → Option (List UInt8)} {l u : List UInt8}
variable {s : FontRun Node × World Node}

/-- A step of `LoadFonts()` is a turn, if nothing ends it. -/
theorem turn_step {turns : Nat} {glyphs : Glyphs} {loading : FontLoading Node} {w : World Node} (fine : s.1.fault = none)
    (made : s.1.stepGlyphs fw turns mem s.2 = .ok glyphs)
    (stepped : s.1.loading.step fw turns (s.1.memory mem) mem.headers s.2 = .leave (some loading, w)) :
    turn fw turns mem s = .again ((s.1.advance glyphs).follow
      ⟨s.1.loading.path, readName fw turns mem s.1.loading.path s.2⟩ loading, w) := by
  rw [turn, fine]
  dsimp only
  rw [made]
  dsimp only
  rw [stepped]

section Glyphs

variable {r : FontRun Node} {w w' : World Node} {turns : Nat} {own : LFile Node} {line : Str16}

/-- The glyphs when a line is read. -/
theorem stepGlyphs_line (idle : r.loading.pending = false) (going : ¬ Reader.atEnd r.loading.innermost.reader = true)
    (read : LFile.readLine fw turns (r.loading.innermost, w) = .leave (line, own, w')) (fits : LineBuffer.Fits line) :
    r.stepGlyphs fw turns mem w = .ok r.glyphs := by
  simp only [stepGlyphs, idle, Bool.false_eq_true, if_false, going, read, lineRead, fits, if_true]

/-- The glyphs when a file is left. -/
theorem stepGlyphs_end (idle : r.loading.pending = false) (ended : Reader.atEnd r.loading.innermost.reader = true) :
    r.stepGlyphs fw turns mem w = .ok r.glyphs := by
  simp only [stepGlyphs, idle, Bool.false_eq_true, if_false, ended, if_true]

/-- The glyphs at a line of `fonts.txt` that is empty. -/
theorem stepGlyphs_blank (pending : r.loading.pending = true) (closed : r.loading.font = none)
    (blank : r.loading.szLine.units.headD 0 = 0) : r.stepGlyphs fw turns mem w = .ok r.glyphs := by
  simp only [stepGlyphs, pending, if_true, closed, Option.isSome_none, Bool.false_eq_true, if_false, blank]

/-- The glyphs of a font that is opened. -/
theorem stepGlyphs_open (pending : r.loading.pending = true) (closed : r.loading.font = none)
    (named : ¬ r.loading.szLine.units.headD 0 = 0) (there : fileStop fw r.loading.path w = none)
    (read : LFile.readLine fw turns (LFile.next fw (LFile.construct fw r.loading.path false w)) = .leave (line, own, w'))
    (fits : LineBuffer.Fits line) : r.stepGlyphs fw turns mem w = .ok .new := by
  simp only [stepGlyphs, pending, if_true, closed, Option.isSome_none, Bool.false_eq_true, if_false, named, there, read,
    lineRead, fits]

end Glyphs

omit [DecidableEq Node] in
theorem follow_same {r : FontRun Node} {loading : FontLoading Node} (opened : LFont)
    (same : loading.font.isSome = r.loading.font.isSome) : r.follow opened loading = { r with loading } := by
  unfold follow
  rw [same]
  cases r.loading.font <;> rfl

omit [DecidableEq Node] in
theorem follow_opened {r : FontRun Node} {own : LFile Node} (loading : FontLoading Node) (opened : LFont)
    (before : r.loading.font = none) (now : loading.font = some own) :
    r.follow opened loading = { r with loading, font := opened } := by
  unfold follow
  rw [before, now]
  rfl

/-- The state behind the end of a font file. -/
def leaveFont (r : FontRun Node) : FontRun Node :=
  { r with
    loading := { r.loading with font := none }
    fonts := DirectMap.store LFont.name fontSlot r.fonts r.font
    loaded := r.loaded ++ [r.font] }

omit [DecidableEq Node] in
theorem follow_left {r : FontRun Node} (opened : LFont) (font : r.loading.font.isSome) :
    r.follow opened { r.loading with font := none } = r.leaveFont := by
  unfold follow
  rw [font]
  rfl

/-- A line is read from the innermost file. -/
theorem turn_line {r : FontRun Node} {w : World Node} {n : Node} {c : List UInt8} (mem : FontMemory) (fine : r.fault = none)
    (idle : r.loading.pending = false) (ahead : Ahead fw n c u (r.loading.innermost, w)) (more : u ≠ []) (fits : LinesFit u) :
    ∃ enough own w', (∀ turns, enough ≤ turns → turn fw turns mem (r, w) = .again ({ r with
        loading := { r.loading.setInnermost own with
          szLine := (r.memory mem).readInto ((firstLine u).map UInt8.toUInt16), pending := true }
        steps := r.steps + 1 }, w')) ∧
      Ahead fw n c (restOf u) (own, w') ∧ w'.file = w.file := by
  obtain ⟨enough, own, w', line, rest, files⟩ := FontLoading.step_line (r.memory mem) mem.headers idle ahead more
  refine ⟨enough, own, w', fun turns le => ?_, rest, files⟩
  obtain ⟨reads, stepped⟩ := line turns le
  have going : ¬ Reader.atEnd r.loading.innermost.reader = true := fun ended => more (ahead.atEnd.1 ended)
  rw [turn_step fine (stepGlyphs_line idle going reads fits.first) stepped]
  exact congrArg (fun x => Turn.again (x, w'))
    (follow_same (r := r.advance r.glyphs) _ (FontLoading.isSome_setInnermost r.loading own))

/-- The next line of a font file, and what it names. -/
theorem within_line (well : Readable fw) (h : Within fw mem file l u s) (more : u ≠ []) :
    ∃ t, Leads fw mem s t ∧ Within fw mem file l (restOf u) t ∧ t.1.loaded = s.1.loaded ∧ t.1.font = s.1.font := by
  obtain ⟨r, w⟩ := s
  obtain ⟨fine, idle, ⟨f, n, font, own⟩, lines, bitmaps, ahead, files⟩ := h
  have innermost : r.loading.innermost = f := (FontLoading.innermost_font font f).1
  obtain ⟨enough, f', w₁, first, rest, files₁⟩ := turn_line mem fine idle (by rw [innermost]; exact own) more lines
  have stack : r.memory mem = mem.stack r.steps := if_pos (by rw [font]; rfl)
  rw [(FontLoading.innermost_font font f').2, stack] at first
  let units := ((mem.stack r.steps).readInto ((firstLine u).map UInt8.toUInt16)).units
  let read : FontLoading Node := { r.loading with
    font := some f', szLine := (mem.stack r.steps).readInto ((firstLine u).map UInt8.toUInt16), pending := true }
  have bitmap : ∃ w₂ : World Node, (∀ turns, read.step fw turns (mem.stack (r.steps + 1)) mem.headers w₁ =
      .leave (some { read with pending := false }, w₂)) ∧ w₂.file = w₁.file :=
    FontLoading.step_bitmap _ mem.headers rfl rfl
  obtain ⟨w₂, handled, files₂⟩ := bitmap
  have kept : w₁.file = file := files₁.trans files
  have content : ∀ m, w₂.content m = bytesOf file m := fun m => by rw [World.content, files₂, kept, bytesOf]
  have listed : firstLine u ∈ linesOf u := by
    rw [linesOf_cons more]
    exact List.mem_cons_self
  -- the line is read, and then what it names is loaded
  have loads : ∃ glyphs, (r.glyphs.loadLine fw mem.headers mem.pixels units w₁).1 = .ok glyphs :=
    loadLine_there well mem.pixels (bitmaps _ listed r.steps) kept r.glyphs
  obtain ⟨glyphs, loads⟩ := loads
  refine ⟨({ r with loading := { read with pending := false }, steps := r.steps + 2, glyphs }, w₂),
    fun q finishes => ?_, ?_, rfl, rfl⟩
  · have second : ∀ turns, 0 ≤ turns → turn fw turns mem ({ r with loading := read, steps := r.steps + 1 }, w₁) =
        .again ({ r with loading := { read with pending := false }, steps := r.steps + 2, glyphs }, w₂) := by
      intro turns _
      rw [turn_step (s := ({ r with loading := read, steps := r.steps + 1 }, w₁)) fine loads (handled turns)]
      rfl
    exact Loop.finishes_again first (Loop.finishes_again second finishes)
  · exact {
      fine
      idle := rfl
      font := ⟨f', n, rfl, rest.stays well (content n)⟩
      lines := fun line mem => lines line (mem_linesOf_rest mem)
      bitmaps := fun line mem => bitmaps line (mem_linesOf_rest mem)
      ahead := ahead.stays well (content _)
      files := (files₂.trans files₁).trans files }

/-- What the lines of a font file come to: the run goes on between two lines of `fonts.txt`, with the
font loaded. -/
theorem within_finishes (well : Readable fw) {Post : FontRun Node × World Node → Prop}
    (h : Within fw mem file l u s)
    (later : ∀ t, Between fw file l t → t.1.loaded = s.1.loaded ++ [s.1.font] →
      ∃ r, Loop.Finishes (fun turns => turn fw turns mem) t r ∧ Post r) :
    ∃ r, Loop.Finishes (fun turns => turn fw turns mem) s r ∧ Post r := by
  induction hn : u.length using Nat.strong_induction_on generalizing u s with
  | _ k ih =>
    subst hn
    by_cases empty : u = []
    · -- the file is left
      subst empty
      obtain ⟨r, w⟩ := s
      obtain ⟨fine, idle, ⟨f, n, font, own⟩, -, -, ahead, files⟩ := h
      have innermost := (FontLoading.innermost_font font f).1
      have ended : Reader.atEnd r.loading.innermost.reader = true := by
        rw [innermost]
        exact own.atEnd.2 rfl
      have left : ∀ turns, 0 ≤ turns → turn fw turns mem (r, w) = .again ((r.advance r.glyphs).leaveFont, w) := by
        intro turns _
        have stepped := FontLoading.step_end (r.memory mem) mem.headers idle (by rw [innermost]; exact own) turns
        rw [font] at stepped
        rw [turn_step fine (stepGlyphs_end idle ended) stepped]
        exact congrArg (fun x => Turn.again (x, w)) (follow_left (r := r.advance r.glyphs) _ (by
          show r.loading.font.isSome = true
          rw [font]
          rfl))
      obtain ⟨q, finishes, post⟩ := later ((r.advance r.glyphs).leaveFont, w) ⟨fine, idle, rfl, ahead, files⟩ rfl
      exact ⟨q, Loop.finishes_again left finishes, post⟩
    · obtain ⟨t, leads, within, loaded, font⟩ := within_line well h empty
      rw [← loaded, ← font] at later
      obtain ⟨q, finishes, post⟩ := ih _ (length_restOf_lt empty) within later rfl
      exact ⟨q, leads q finishes, post⟩

/-- The next line of `fonts.txt`. -/
theorem between_read (mem : FontMemory) (h : Between fw file l s) (more : l ≠ []) (fits : LinesFit l) :
    ∃ t, Leads fw mem s t ∧ LineRead fw mem file (firstLine l) (restOf l) t ∧ t.1.loaded = s.1.loaded := by
  obtain ⟨r, w⟩ := s
  obtain ⟨fine, idle, font, ahead, files⟩ := h
  have innermost := (FontLoading.innermost_fonts font r.loading.fonts).1
  obtain ⟨enough, fonts, w', taken, rest, files'⟩ := turn_line mem fine idle (by rw [innermost]; exact ahead) more fits
  have own : r.memory mem = mem.szLine := if_neg (by rw [font]; exact Bool.false_ne_true)
  rw [(FontLoading.innermost_fonts font fonts).2, own] at taken
  exact ⟨_, fun _ => Loop.finishes_again taken, ⟨fine, rfl, rfl, font, rest, files'.trans files⟩, rfl⟩

/-- A line that is empty is passed over. -/
theorem lineRead_blank {line : List UInt8} (h : LineRead fw mem file line l s) (blank : lineIn mem.szLine line = []) :
    ∃ t, Leads fw mem s t ∧ Between fw file l t ∧ t.1.loaded = s.1.loaded := by
  obtain ⟨r, w⟩ := s
  obtain ⟨fine, pending, szLine, font, ahead, files⟩ := h
  have text : strAt r.loading.szLine.units 0 = [] := by rw [szLine]; exact blank
  have taken : ∀ turns, 0 ≤ turns → turn fw turns mem (r, w) =
      .again ({ r with loading := { r.loading with pending := false }, steps := r.steps + 1 }, w) := by
    intro turns _
    have stepped : r.loading.step fw turns (r.memory mem) mem.headers w =
        .leave (some { r.loading with pending := false }, w) :=
      FontLoading.step_blank (r.memory mem) mem.headers pending text turns
    rw [turn_step fine (stepGlyphs_blank pending font ((headD_eq_zero_iff _).2 text)) stepped, follow_same _ (by rfl)]
    rfl
  exact ⟨_, fun _ => Loop.finishes_again taken, ⟨fine, rfl, font, ahead, files⟩, rfl⟩

/-- Another line names a font file, which is opened and gives its name. -/
theorem lineRead_open (well : Readable fw) {line : List UInt8} (h : LineRead fw mem file line l s)
    (named : lineIn mem.szLine line ≠ []) (there : FontThere fw mem file (fontsDirectory ++ lineIn mem.szLine line)) :
    ∃ t, Leads fw mem s t ∧ (∃ u, Within fw mem file l u t) ∧ t.1.loaded = s.1.loaded ∧
      t.1.font = fontOf fw mem.name file (lineIn mem.szLine line) := by
  obtain ⟨r, w⟩ := s
  obtain ⟨fine, pending, szLine, font, ahead, files⟩ := h
  have text : strAt r.loading.szLine.units 0 = lineIn mem.szLine line := by rw [szLine]; rfl
  have path : r.loading.path = fontsDirectory ++ lineIn mem.szLine line := by
    rw [r.loading.path_fonts font, text]
  rw [← path] at there
  obtain ⟨c, present⟩ := Option.isSome_iff_exists.1 there.there.there
  have own : bytesOf file (fw.nodeOf r.loading.path) = c := by
    rw [bytesOf, present]
    rfl
  have lines := there.lines
  have bitmaps := there.bitmaps
  rw [own] at lines bitmaps
  obtain ⟨enough, f, w', opens, first, files'⟩ := FontLoading.step_open (f := r.loading) (w := w) (r.memory mem)
    mem.headers well mem pending (by rwa [text]) font (by rw [files]; exact present)
  have kept : w'.file = file := files'.trans files
  have content : ∀ m, w'.content m = bytesOf file m := fun m => by rw [World.content, kept, bytesOf]
  have taken : ∀ turns, enough ≤ turns → turn fw turns mem (r, w) =
      .again ({ r with
        loading := { r.loading with font := some f, pending := false }
        steps := r.steps + 1
        font := fontOf fw mem.name file (lineIn mem.szLine line)
        glyphs := .new }, w') := by
    intro turns le
    obtain ⟨reads, stepped, title⟩ := opens turns le
    have begun : r.stepGlyphs fw turns mem w = .ok .new :=
      stepGlyphs_open pending font (mt (headD_eq_zero_iff _).1 (by rwa [text]))
        (fileStop_there well r.loading.path_ne_nil there.there files) reads lines.first
    have opened := follow_opened (r := r.advance .new) { r.loading with font := some f, pending := false }
      ⟨r.loading.path, readName fw turns mem r.loading.path w⟩ font rfl
    rw [turn_step fine begun stepped, fontOf, ← path, own, ← title]
    exact congrArg (fun x => Turn.again (x, w')) opened
  refine ⟨_, fun _ => Loop.finishes_again taken, ⟨restOf c, ?_⟩, rfl, rfl⟩
  exact {
    fine
    idle := rfl
    font := ⟨f, fw.nodeOf r.loading.path, rfl, by rw [own]; exact first⟩
    lines := fun line mem => lines line (mem_linesOf_rest mem)
    bitmaps
    ahead := ahead.stays well (content _)
    files := kept }

/-- The next line of `fonts.txt`, and the font that it names. -/
theorem between_line (well : Readable fw) (h : Between fw file l s) (more : l ≠ []) (fits : LinesFit l)
    (there : lineIn mem.szLine (firstLine l) ≠ [] →
      FontThere fw mem file (fontsDirectory ++ lineIn mem.szLine (firstLine l))) :
    ∃ t, Leads fw mem s t ∧ t.1.loaded = s.1.loaded ∧
      (lineIn mem.szLine (firstLine l) = [] ∧ Between fw file (restOf l) t ∨
        lineIn mem.szLine (firstLine l) ≠ [] ∧ (∃ u, Within fw mem file (restOf l) u t) ∧
          t.1.font = fontOf fw mem.name file (lineIn mem.szLine (firstLine l))) := by
  obtain ⟨t, reads, line, loaded⟩ := between_read mem h more fits
  by_cases blank : lineIn mem.szLine (firstLine l) = []
  · obtain ⟨t', passes, between, loaded'⟩ := lineRead_blank line blank
    exact ⟨t', fun q finishes => reads q (passes q finishes), loaded'.trans loaded, .inl ⟨blank, between⟩⟩
  · obtain ⟨t', opens, within, loaded', font⟩ := lineRead_open well line blank (there blank)
    exact ⟨t', fun q finishes => reads q (opens q finishes), loaded'.trans loaded, .inr ⟨blank, within, font⟩⟩

/-- **The run comes to its end** with the fonts that are still listed. -/
theorem between_finishes (well : Readable fw) (h : Between fw file l s) (fits : LinesFit l)
    (there : ∀ line ∈ namesIn mem.szLine l, FontThere fw mem file (fontsDirectory ++ line)) :
    ∃ r, Loop.Finishes (fun turns => turn fw turns mem) s r ∧ r.1.fault = none ∧
      r.1.loaded = s.1.loaded ++ (namesIn mem.szLine l).map (fontOf fw mem.name file) := by
  induction hn : l.length using Nat.strong_induction_on generalizing l s with
  | _ k ih =>
    subst hn
    by_cases empty : l = []
    · subst empty
      have innermost := (FontLoading.innermost_fonts h.font s.1.loading.fonts).1
      have ended : Reader.atEnd s.1.loading.innermost.reader = true := by
        rw [innermost]
        exact h.ahead.atEnd.2 rfl
      have ends : ∀ turns, 0 ≤ turns → turn fw turns mem s = .leave s := by
        intro turns _
        have stepped := FontLoading.step_end (f := s.1.loading) (s.1.memory mem) mem.headers h.idle
          (by rw [innermost]; exact h.ahead) turns
        rw [h.font] at stepped
        rw [turn, h.fine]
        dsimp only
        rw [stepGlyphs_end h.idle ended]
        dsimp only
        rw [stepped]
        rfl
      exact ⟨s, Loop.finishes_leave ends, h.fine, by simp [namesIn, linesOf]⟩
    · have shorter := length_restOf_lt empty
      have later : LinesFit (restOf l) := fun line mem => fits line (mem_linesOf_rest mem)
      rw [namesIn_cons empty] at there ⊢
      obtain ⟨t, leads, loaded, ⟨blank, between⟩ | ⟨named, ⟨u, within⟩, font⟩⟩ :=
        between_line well h empty fits (fun named => by
          rw [if_neg named] at there
          exact there _ List.mem_cons_self)
      · rw [if_pos blank] at there ⊢
        obtain ⟨r, finishes, fine, total⟩ := ih _ shorter between later there rfl
        exact ⟨r, leads r finishes, fine, by rw [total, loaded]⟩
      · rw [if_neg named] at there ⊢
        have ends : ∃ r, Loop.Finishes (fun turns => turn fw turns mem) t r ∧ r.1.fault = none ∧
            r.1.loaded = s.1.loaded ++ (lineIn mem.szLine (firstLine l) :: namesIn mem.szLine (restOf l)).map
              (fontOf fw mem.name file) := by
          refine within_finishes well within fun t' between loaded' => ?_
          obtain ⟨r, finishes, fine, total⟩ := ih _ shorter between later
            (fun line mem => there line (List.mem_cons_of_mem _ mem)) rfl
          refine ⟨r, finishes, fine, ?_⟩
          rw [total, loaded', loaded, font, List.append_assoc, List.map_cons, List.singleton_append]
        obtain ⟨r, finishes, fine, total⟩ := ends
        exact ⟨r, leads r finishes, fine, total⟩

theorem start_between (well : Readable fw) (mem : FontMemory) {w : World Node} (there : (w.file (fw.nodeOf fontsFile)).isSome) :
    Between fw w.file (bytesOf w.file (fw.nodeOf fontsFile)) (start fw mem w) := by
  obtain ⟨c, present⟩ := Option.isSome_iff_exists.1 there
  have content : bytesOf w.file (fw.nodeOf fontsFile) = c := by
    rw [bytesOf, present]
    rfl
  have named : fontsFile ≠ [] := by decide
  have opens : LFile.Opens fw fontsFile false w := ⟨named, well.opens w.opens, .inr there⟩
  have handle : (LFile.construct fw fontsFile false w).1.handle.isNone = false := by
    rw [← Option.not_isSome, LFile.construct_isSome.2 opens]
    rfl
  rw [content]
  exact {
    fine := by
      show (if (LFile.construct fw fontsFile false w).1.handle.isNone then _ else _) = none
      rw [handle, if_neg Bool.false_ne_true]
    idle := rfl
    font := rfl
    ahead := by rw [content]; exact .started (open_reads well named present).delivers
    files := ((unwritten_construct fontsFile w).next fw).file }

/-- **`LoadFonts()` loads what is listed.** -/
theorem loadFonts_listed (well : Readable fw) {w : World Node} (there : FontsThere fw mem w.file) :
    ∃ enough r, (∀ turns, enough ≤ turns → loadFonts fw turns mem w = .leave r) ∧ r.1.fault = none ∧
      r.1.loaded = listed fw mem.szLine mem.name w.file := by
  obtain ⟨r, finishes, fine, loaded⟩ := between_finishes well (start_between well mem there.there) there.lines
    there.fonts
  obtain ⟨enough, leaves⟩ := finishes.after
  exact ⟨enough, r, leaves, fine, loaded⟩

end Runs

/-- **Which fonts `GetFont` finds by their names**: whatever has been loaded, exactly those whose slot
has not been used again, and none by the name of no font only where its slot is empty. On files that
can be read, with sheets that can be loaded, what has been loaded is what is listed. -/
theorem getFont_iff (fw : Firmware Node) (mem : FontMemory) (w : World Node) :
    (∀ turns, ((loadFonts fw turns mem w).state.1.loaded.map LFont.name).Nodup →
      ∀ fontName, FindsByName (loadFonts fw turns mem w).state.1 fontName ↔
        KeepsSlot (loadFonts fw turns mem w).state.1 fontName) ∧
    (Readable fw → FontsThere fw mem w.file →
      ∃ enough r, (∀ turns, enough ≤ turns → loadFonts fw turns mem w = .leave r) ∧ r.1.fault = none ∧
        r.1.loaded = listed fw mem.szLine mem.name w.file) :=
  ⟨fun turns distinct fontName => findsByName_iff fw turns mem w distinct fontName,
    fun well there => loadFonts_listed well there⟩

/-! ## One font -/

/-- The files of one font, `f`. -/
def oneFont (fontName : Str16) : World Str16 :=
  World.start fun path =>
    if path = fontsFile then some [102]
    else if path = fontsDirectory ++ [102] then some (fontName.map UInt16.toUInt8) else none

def times : Str16 := units ['T', 'i', 'm', 'e', 's', ' ', 'N', 'e', 'w', ' ', 'R', 'o', 'm', 'a', 'n']

def noMemory : LineBuffer := ⟨0, []⟩

def noHeaders : Uninitialised := ⟨fun _ => 0, fun _ => 0, fun _ => 0⟩

def noFontMemory : FontMemory := ⟨noMemory, noMemory, fun _ => noMemory, noHeaders, fun _ => 0⟩

theorem times_there : FontsThere flawless noFontMemory (oneFont times).file where
  there := by decide
  lines := by decide
  fonts := by
    have named : namesIn noMemory (bytesOf (oneFont times).file (flawless.nodeOf fontsFile)) = [[102]] := by decide
    intro line mem
    obtain rfl : line = [102] := List.mem_singleton.1 (named ▸ mem)
    refine ⟨⟨by decide, by decide⟩, by decide, fun line mem => ?_⟩
    -- behind the name there are no lines
    have none : linesOf (restOf (bytesOf (oneFont times).file (flawless.nodeOf (fontsDirectory ++ [102])))) = [] := by
      decide
    rw [none] at mem
    cases mem

theorem times_listed : listed flawless noMemory noMemory (oneFont times).file = [⟨fontsDirectory ++ [102], times⟩] := by
  decide

/-- Its name finds the font. -/
theorem times_found :
    ∃ enough r, (∀ turns, enough ≤ turns → loadFonts flawless turns noFontMemory (oneFont times) = .leave r) ∧
      getFont r.1.fonts times = some ⟨fontsDirectory ++ [102], times⟩ := by
  obtain ⟨general, ends⟩ := getFont_iff flawless noFontMemory (oneFont times)
  obtain ⟨enough, r, leaves, -, loaded⟩ := ends flawless_readable times_there
  have loaded : r.1.loaded = [⟨fontsDirectory ++ [102], times⟩] := loaded.trans times_listed
  have run := general enough
  rw [leaves enough (Nat.le_refl _)] at run
  refine ⟨enough, r, leaves, ?_⟩
  have found := (run (by rw [Turn.state, loaded]; decide) times).2 (by rw [KeepsSlot, Turn.state, loaded]; decide)
  rw [FindsByName, Turn.state, loaded] at found
  rw [found]
  decide

/-- `Roman` finds it as well, though no font has this name. -/
theorem times_found_by_roman :
    ∃ enough r, (∀ turns, enough ≤ turns → loadFonts flawless turns noFontMemory (oneFont times) = .leave r) ∧
      (r.1.loaded.map LFont.name).Nodup ∧ ¬ FindsByName r.1 (units ['R', 'o', 'm', 'a', 'n']) := by
  obtain ⟨enough, r, leaves, -, loaded⟩ := loadFonts_listed flawless_readable times_there
  have loaded : r.1.loaded = [⟨fontsDirectory ++ [102], times⟩] := loaded.trans times_listed
  have tabled : Tabled (loadFonts flawless enough noFontMemory (oneFont times)).state.1 := loadFonts_tabled (oneFont times)
  rw [leaves enough (Nat.le_refl _)] at tabled
  have tabled : r.1.fonts = DirectMap.stored LFont.name fontSlot r.1.loaded := tabled
  refine ⟨enough, r, leaves, by rw [loaded]; decide, ?_⟩
  rw [FindsByName, tabled, loaded]
  decide

end FontRun

end Lavoro.Screen
