import Lavoro.Lib.DirectMap
import Lavoro.Screen.Glyphs

/-!
# Fonts by name (`lfont.cpp`)

`LoadFonts()` stores every font in the slot of `Fonts` that the hash of its `Name` gives, and
`GetFont` returns what is in the slot of the name it is given. Neither compares names, and the hash
has only ten bits, which the last two units of a name make up: a font is found by its name exactly
if no later one has its slot, and a name that no font has may find one all the same. `LoadFonts()` may not come
to an end: it stops at a file that is missing and at a sheet that `LoadBitmap` cannot load.
-/

namespace Lavoro.Screen
open Lib Console LFile

/-! ## The table -/

/-- `result = ((result << 8) | *FontName) & ((1L << 10) - 1)`. -/
def hashStep (result : Nat) (c : UInt16) : Nat := ((result <<< 8) ||| c.toNat) &&& 1023

def fontNameHash (fontName : Str16) : Nat := fontName.foldl hashStep 0

theorem hashStep_lt (result : Nat) (c : UInt16) : hashStep result c < 1024 :=
  Nat.lt_of_le_of_lt Nat.and_le_right (by decide)

theorem fontNameHash_lt (fontName : Str16) : fontNameHash fontName < 1024 := by
  obtain rfl | ⟨front, c, rfl⟩ := fontName.eq_nil_or_concat'
  · decide
  · rw [fontNameHash, List.foldl_append]
    exact hashStep_lt _ c

/-- Two units shift everything out that came before. -/
theorem hashStep_shift (result : Nat) (b c : UInt16) :
    hashStep (hashStep result b) c = hashStep (hashStep 0 b) c := by
  apply Nat.eq_of_testBit_eq
  intro i
  have mask : ∀ j, Nat.testBit 1023 j = decide (j < 10) := Nat.testBit_two_pow_sub_one 10
  by_cases low : 8 ≤ i
  · by_cases high : i < 10
    · have inside : ¬ 8 ≤ i - 8 := by omega
      simp [hashStep, mask, low, high, inside]
    · simp [hashStep, mask, high]
  · simp [hashStep, mask, low]

/-- **Only the last two units count.** -/
theorem fontNameHash_tail (front : Str16) (b c : UInt16) : fontNameHash (front ++ [b, c]) = fontNameHash [b, c] := by
  rw [fontNameHash, List.foldl_append]
  exact hashStep_shift _ b c

/-- The index into `Fonts`. -/
def fontSlot (fontName : Str16) : Fin 1024 := ⟨fontNameHash fontName, fontNameHash_lt fontName⟩

/-- `LFont`, less its glyphs; `path` is the file that it has been made from. -/
structure LFont where
  path : Str16
  name : Str16
  deriving Repr, DecidableEq

/-- `Fonts`. -/
abbrev FontTable := Fin 1024 → Option LFont

/-- `GetFont(FontName)`. -/
def getFont (fonts : FontTable) (fontName : Str16) : Option LFont := DirectMap.lookup fontSlot fonts fontName

/-! ## Loading -/

/-- What uninitialised memory holds: where `LoadFonts()` has its `szLine`, where a font has its `Name`, and, while the
font is made, where the lines, the headers of a bitmap and the new arrays are. -/
structure FontMemory where
  szLine : LineBuffer
  name : LineBuffer
  stack : Nat → LineBuffer
  headers : Uninitialised
  pixels : Nat → BitVec 32

/-- `LoadFonts()` on its way: the number of steps, the font that is being made and its glyphs, `Fonts`, the fonts made
so far, and the fault that has ended it. -/
structure FontRun (Node : Type) where
  loading : FontLoading Node
  steps : Nat
  font : LFont
  glyphs : Glyphs
  fonts : FontTable
  loaded : List LFont
  fault : Option FontFault

variable {Node : Type} [DecidableEq Node]

namespace FontRun

/-- The string that `LFont(szPath)` reads into `Name`. -/
def readName (fw : Firmware Node) (turns : Nat) (mem : FontMemory) (path : Str16) (w : World Node) : Str16 :=
  strAt (mem.name.readInto (LFile.readLine fw turns (LFile.next fw (LFile.construct fw path false w))).state.1).units 0

/-- What lies where the next line is read to. -/
def memory (mem : FontMemory) (r : FontRun Node) : LineBuffer :=
  if r.loading.font.isSome then mem.stack r.steps else mem.szLine

/-- A line that has been read, if there was room for it. -/
def lineRead (glyphs : Glyphs) :
    Turn (Str16 × LFile Node × World Node) (Str16 × LFile Node × World Node) → Except FontFault Glyphs
  | .again _ => .ok glyphs
  | .leave x => if LineBuffer.Fits x.1 then .ok glyphs else .error .outside

/-- What the next step makes of the glyphs, or the fault that ends it: a line is read, names a bitmap, or names a font
whose own name is read. -/
def stepGlyphs (fw : Firmware Node) (turns : Nat) (mem : FontMemory) (r : FontRun Node) (w : World Node) :
    Except FontFault Glyphs :=
  let l := r.loading
  if l.pending then
    if l.font.isSome then (r.glyphs.loadLine fw mem.headers mem.pixels l.szLine.units w).1
    else if l.szLine.units.headD 0 = 0 then .ok r.glyphs
    else
      match fileStop fw l.path w with
      | some fault => .error fault
      | none => lineRead .new (LFile.readLine fw turns (LFile.next fw (LFile.construct fw l.path false w)))
  else if Reader.atEnd l.innermost.reader then .ok r.glyphs
  else lineRead r.glyphs (LFile.readLine fw turns (l.innermost, w))

/-- The state with `loading` after a step of it: a font that has been opened is `opened`, and one
whose file has been left is stored. -/
def follow (opened : LFont) (r : FontRun Node) (loading : FontLoading Node) : FontRun Node :=
  match r.loading.font.isSome, loading.font.isSome with
  | false, true => { r with loading, font := opened }
  | true, false =>
    { r with
      loading
      fonts := DirectMap.store LFont.name fontSlot r.fonts r.font
      loaded := r.loaded ++ [r.font] }
  | _, _ => { r with loading }

/-- The state behind the making of the glyphs, on the way to the rest of the step. -/
def advance (r : FontRun Node) (glyphs : Glyphs) : FontRun Node := { r with steps := r.steps + 1, glyphs }

/-- One step of `LoadFonts()`. Where a line takes more turns it does not get on. -/
def turn (fw : Firmware Node) (turns : Nat) (mem : FontMemory) (s : FontRun Node × World Node) :
    Turn (FontRun Node × World Node) (FontRun Node × World Node) :=
  match s.1.fault with
  | some _ => .leave s
  | none =>
    match s.1.stepGlyphs fw turns mem s.2 with
    | .error fault => .leave ({ s.1 with fault := some fault }, s.2)
    | .ok glyphs =>
      match s.1.loading.step fw turns (s.1.memory mem) mem.headers s.2 with
      | .again _ => .again s
      | .leave (none, w) => .leave (s.1, w)
      | .leave (some loading, w) =>
        .again ((s.1.advance glyphs).follow
          ⟨s.1.loading.path, readName fw turns mem s.1.loading.path s.2⟩ loading, w)

/-- The state in front of the loop; `fonts.txt` may not be there. -/
def start (fw : Firmware Node) (mem : FontMemory) (w : World Node) : FontRun Node × World Node :=
  let opened := Screen.loadFonts fw mem.szLine w
  ({ loading := opened.1
     steps := 0
     font := ⟨[], []⟩
     glyphs := .new
     fonts := fun _ => none
     loaded := []
     fault := if (LFile.construct fw fontsFile false w).1.handle.isNone then some .trapped else none }, opened.2)

/-- `LoadFonts()`. -/
def loadFonts (fw : Firmware Node) (turns : Nat) (mem : FontMemory) (w : World Node) :
    Turn (FontRun Node × World Node) (FontRun Node × World Node) :=
  Loop.after (turn fw turns mem) turns (start fw mem w)

/-- `Fonts` is what has been loaded, one font stored over the other. -/
def Tabled (r : FontRun Node) : Prop := r.fonts = DirectMap.stored LFont.name fontSlot r.loaded

section Runs

variable {fw : Firmware Node} {turns : Nat} {mem : FontMemory}

omit [DecidableEq Node] in
theorem follow_tabled {r : FontRun Node} (h : Tabled r) (opened : LFont) (loading : FontLoading Node) :
    Tabled (r.follow opened loading) := by
  unfold follow
  split
  · exact h
  · show DirectMap.store LFont.name fontSlot r.fonts r.font = _
    rw [DirectMap.stored_snoc, ← h]
  · exact h

theorem turn_tabled (s : FontRun Node × World Node) (h : Tabled s.1) : Tabled (turn fw turns mem s).state.1 := by
  unfold turn
  split
  · exact h
  · split
    · exact h
    · rename_i glyphs _
      have same : Tabled (s.1.advance glyphs) := h
      split
      · exact h
      · exact h
      · exact follow_tabled same _ _

theorem loadFonts_tabled (w : World Node) : Tabled (loadFonts fw turns mem w).state.1 :=
  Loop.after_keeps (s := start fw mem w) turn_tabled turns rfl

end Runs

/-- `GetFont` finds the font that has the name, if one has been loaded, and none otherwise. -/
def FindsByName (r : FontRun Node) (fontName : Str16) : Prop :=
  getFont r.fonts fontName = r.loaded.find? fun font => font.name = fontName

/-- Every font that has the slot of the name has the name, or one loaded after it has. -/
def KeepsSlot (r : FontRun Node) (fontName : Str16) : Prop :=
  DirectMap.Undisturbed LFont.name fontSlot r.loaded fontName

/-- **Where `GetFont` finds a font by its name.** -/
theorem findsByName_iff (fw : Firmware Node) (turns : Nat) (mem : FontMemory) (w : World Node)
    (distinct : ((loadFonts fw turns mem w).state.1.loaded.map LFont.name).Nodup) (fontName : Str16) :
    FindsByName (loadFonts fw turns mem w).state.1 fontName ↔ KeepsSlot (loadFonts fw turns mem w).state.1 fontName := by
  rw [FindsByName, loadFonts_tabled w]
  exact DirectMap.lookup_stored_iff distinct fontName

end FontRun

end Lavoro.Screen
