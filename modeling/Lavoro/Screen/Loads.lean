import Lavoro.Console.Handles
import Lavoro.Screen.Explorer
import Lavoro.Screen.LBitmap

/-!
# What the screen loads

The files that `ScreenMode` and `LoadFonts` read: the directory on the explorer page, the text in
the viewer, the messages, the bitmaps and the fonts. A font file names bitmaps and `fonts.txt`
names font files, one a line; of the bitmaps of a font this is only that they are read.
-/

namespace Lavoro.Screen
open Lib Console LFile

variable {Node : Type} [DecidableEq Node]

/-- The explorer page is drawn with the entries of the directory `path`. -/
def drawExplorer (env : Environment Node) (l : Layout) (activeIndex : Int) (turns : Nat) (path : Str16)
    (page : Page) (w : World Node) : Turn (Page × World Node) (Page × World Node) :=
  let cfile := LFile.construct env.fw path false w
  let unread := match cfile.1.handle with
    | some h => env.entries h.node
    | none => []
  (Loop.after (throughHandle (explorerTurn l activeIndex (.directory unread)) cfile.1.handle) turns
      (explorerStart page.explorerTypes page.explorerNames env.szBuffer (.directory unread), cfile.2)).map
    fun s => (s.1.page, LFile.destroy (cfile.1, s.2))

/-- One turn of a loop that takes units off a file while there is room for more than `length`. -/
def unitsTurn (fw : Firmware Node) (room : Nat → Bool) (x : Str16 × LFile Node × World Node) :
    Turn (Str16 × LFile Node × World Node) (Str16 × LFile Node × World Node) :=
  if !Reader.atEnd x.2.1.reader && room x.1.length then
    let c := LFile.current fw x.2
    .again (x.1 ++ [toUnit c.1], LFile.next fw c.2)
  else .leave x

/-- The units that such a loop takes off the file `path`. -/
def readUnits (fw : Firmware Node) (room : Nat → Bool) (turns : Nat) (path : Str16) (w : World Node) :
    Turn (Str16 × World Node) (Str16 × World Node) :=
  (Loop.after (unitsTurn fw room) turns ([], LFile.next fw (LFile.construct fw path false w))).map
    fun x => (x.1, LFile.destroy x.2)

/-- `szContent` of the viewer. -/
def viewText (fw : Firmware Node) (turns : Nat) (path : Str16) (w : World Node) :
    Turn (Str16 × World Node) (Str16 × World Node) :=
  readUnits fw (· < 4096) turns path w

/-- `HelpMessage` and `ReadmeMessage`, which are not tested for room. -/
def message (fw : Firmware Node) (turns : Nat) (path : Str16) (w : World Node) :
    Turn (Str16 × World Node) (Str16 × World Node) :=
  readUnits fw (fun _ => true) turns path w

/-! ## Fonts -/

/-- `LoadFonts()` on its way: `fonts.txt`, the file of the font that is being loaded, and the line
read last, which is `pending` until what it names has been loaded. -/
structure FontLoading (Node : Type) where
  fonts : LFile Node
  font : Option (LFile Node)
  szLine : LineBuffer
  pending : Bool

/-- `L"\\assets\\fonts\\"`. -/
def fontsDirectory : Str16 :=
  backslash :: units ['a', 's', 's', 'e', 't', 's'] ++ backslash :: units ['f', 'o', 'n', 't', 's'] ++ [backslash]

/-- `L"\\assets\\fonts\\fonts.txt"`. -/
def fontsFile : Str16 := fontsDirectory ++ units ['f', 'o', 'n', 't', 's', '.', 't', 'x', 't']

/-- `LoadFonts()` in front of its loop; `memory` is what the stack holds where `szLine` lies. -/
def loadFonts (fw : Firmware Node) (memory : LineBuffer) (w : World Node) : FontLoading Node × World Node :=
  let fonts := LFile.next fw (LFile.construct fw fontsFile false w)
  ({ fonts := fonts.1, font := none, szLine := memory, pending := false }, fonts.2)

namespace FontLoading

/-- The file that the line names: a font, or what is in front of the comma, a bitmap. -/
def path (l : FontLoading Node) : Str16 :=
  let line := strAt l.szLine.units 0
  fontsDirectory ++ if l.font.isSome then line.takeWhile (· ≠ 44) else line

/-- `LFont(szPath)` in front of its loop, with the line that is the font's name. -/
def openFont (fw : Firmware Node) (turns : Nat) (l : FontLoading Node) (w : World Node) :
    Turn (FontLoading Node × World Node) (FontLoading Node × World Node) :=
  match LFile.readLine fw turns (LFile.next fw (LFile.construct fw l.path false w)) with
  | .again x => .again ({ l with font := some x.2.1 }, x.2.2)
  | .leave x => .leave ({ l with font := some x.2.1, pending := false }, x.2.2)

/-- The file that lines are read from. -/
def innermost (l : FontLoading Node) : LFile Node := l.font.getD l.fonts

def setInnermost (l : FontLoading Node) (file : LFile Node) : FontLoading Node :=
  if l.font.isSome then { l with font := some file } else { l with fonts := file }

/-- The next line. -/
def nextLine (fw : Firmware Node) (turns : Nat) (memory : LineBuffer) (l : FontLoading Node) (w : World Node) :
    Turn (FontLoading Node × World Node) (FontLoading Node × World Node) :=
  match LFile.readLine fw turns (l.innermost, w) with
  | .again x => .again (l.setInnermost x.2.1, x.2.2)
  | .leave x => .leave ({ l.setInnermost x.2.1 with szLine := memory.readInto x.1, pending := true }, x.2.2)

/-- The next thing that `LoadFonts()` does: what a line names is loaded, a file is left at its end,
or a line is read; there is nothing left once `fonts.txt` is. `memory` and `headers` are what the
stack holds where the line or the headers of a bitmap are read to. -/
def step (fw : Firmware Node) (turns : Nat) (memory : LineBuffer) (headers : Uninitialised)
    (l : FontLoading Node) (w : World Node) :
    Turn (Option (FontLoading Node) × World Node) (Option (FontLoading Node) × World Node) :=
  if l.pending then
    if l.szLine.units.headD 0 = 0 then .leave (some { l with pending := false }, w)
    else if l.font.isSome then
      .leave (some { l with pending := false }, (LBitmap.construct fw l.path headers w).2)
    else (openFont fw turns l w).map fun x => (some x.1, x.2)
  else if Reader.atEnd l.innermost.reader then
    .leave (l.font.map fun _ => { l with font := none }, LFile.destroy (l.innermost, w))
  else (nextLine fw turns memory l w).map fun x => (some x.1, x.2)

/-- The file opens that a line names which is pending. -/
def LineOpens (fw : Firmware Node) (l : FontLoading Node) (w : World Node) : Prop :=
  l.pending = true → l.szLine.units.headD 0 ≠ 0 → Opens fw l.path false w

/-- The files that the fonts are read from are open. -/
structure Steady (l : FontLoading Node) : Prop where
  fonts : l.fonts.handle.isSome
  font : ∀ font ∈ l.font, font.handle.isSome

end FontLoading

/-! ## The handles of the loads -/

section Loads

variable {fw : Firmware Node} {path : Str16} {w : World Node}
variable {K : Option (Handle Node) × World Node → Prop}

/-- **The explorer page.** -/
theorem drawExplorer_neverTraps {env : Environment Node} (l : Layout) (activeIndex : Int) (page : Page)
    (h : w.trapped = false) :
    NeverTraps (fun turns => (drawExplorer env l activeIndex turns path page w).state.2) ↔
      Opens env.fw path false w := by
  simp only [drawExplorer, Turn.state_map, LFile.destroy]
  exact directory_neverTraps env.entries (fun unread => explorerTurn l activeIndex (.directory unread))
    (fun unread => explorerStart page.explorerTypes page.explorerNames env.szBuffer (.directory unread))
    (fun _ => Nat.succ_ne_zero 254) h

theorem unitsTurn_kept (kept : Kept fw K) (room : Nat → Bool) (x : Str16 × LFile Node × World Node)
    (h : K (x.2.1.handle, x.2.2)) :
    K ((unitsTurn fw room x).state.2.1.handle, (unitsTurn fw room x).state.2.2) := by
  unfold unitsTurn
  split
  · exact next_kept kept (current_kept kept h)
  · exact h

/-- What the calls of `readUnits` keep, from behind the first `Next()` on. -/
theorem readUnits_kept (kept : Kept fw K) (room : Nat → Bool) (turns : Nat)
    (h : K ((next fw (construct fw path false w)).1.handle, (next fw (construct fw path false w)).2)) :
    ∃ handle, K (handle, (readUnits fw room turns path w).state.2) := by
  simp only [readUnits, Turn.state_map, LFile.destroy]
  exact ⟨_, Loop.after_keeps (unitsTurn_kept kept room) turns
    (s := (([] : Str16), next fw (construct fw path false w))) h⟩

/-- **The viewer and the messages.** -/
theorem readUnits_neverTraps (room : Nat → Bool) (h : w.trapped = false) :
    NeverTraps (fun turns => (readUnits fw room turns path w).state.2) ↔ Opens fw path false w := by
  apply neverTraps_iff ?_ 0 ?_
  · intro opens turns
    obtain ⟨_, present⟩ := readUnits_kept (present_kept fw) room turns
      (next_kept (present_kept fw) (construct_present opens h))
    exact present.2
  · intro missing
    obtain ⟨_, trapped⟩ := readUnits_kept (trapped_kept fw) room 0 (next_construct_missing missing)
    exact trapped

/-! ### Bitmaps -/

theorem readRow_kept (kept : Kept fw K) (n : Nat) : ∀ {k : BitVec 32} {d : Decoding Node},
    K (d.file.handle, d.world) →
      K ((LBitmap.readRow fw n k d).file.handle, (LBitmap.readRow fw n k d).world) := by
  induction n with
  | zero => exact fun h => h
  | succ n ih => exact fun h => ih (read_kept kept 3 h)

theorem readRows_kept (kept : Kept fw K) (columns : BitVec 32) (n : Nat) : ∀ {d : Decoding Node},
    K (d.file.handle, d.world) →
      K ((LBitmap.readRows fw columns n d).file.handle, (LBitmap.readRows fw columns n d).world) := by
  induction n with
  | zero => exact fun h => h
  | succ n ih => exact fun h => ih (readRow_kept kept columns.toNat h)

/-- What the calls of `LBitmap(FileName)` keep, from behind the first `Next()` on. -/
theorem bitmap_kept (kept : Kept fw K) (headers : Uninitialised)
    (h : K ((next fw (construct fw path false w)).1.handle, (next fw (construct fw path false w)).2)) :
    ∃ handle, K (handle, (LBitmap.construct fw path headers w).2) := by
  have read := read_kept kept 16 (read_kept kept 14 h)
  unfold LBitmap.construct
  simp only [LFile.destroy]
  refine ⟨_, readRows_kept kept _ _ ?_⟩
  simp only
  apply next_kept kept
  exact setPosition_kept kept _ read

/-- **A bitmap.** -/
theorem bitmap_trapped_iff (headers : Uninitialised) (h : w.trapped = false) :
    (LBitmap.construct fw path headers w).2.trapped = false ↔ Opens fw path false w := by
  constructor
  · intro fine
    refine provided_of_fine fine fun missing => ?_
    obtain ⟨_, trapped⟩ := bitmap_kept (trapped_kept fw) headers (next_construct_missing missing)
    exact trapped
  · intro opens
    obtain ⟨_, present⟩ := bitmap_kept (present_kept fw) headers
      (next_kept (present_kept fw) (construct_present opens h))
    exact present.2

/-! ### Fonts -/

/-- **`fonts.txt`.** -/
theorem loadFonts_trapped_iff (memory : LineBuffer) (h : w.trapped = false) :
    (loadFonts fw memory w).2.trapped = false ↔ Opens fw fontsFile false w := by
  constructor
  · intro fine
    exact provided_of_fine fine next_construct_missing
  · intro opens
    exact (next_kept (present_kept fw) (construct_present opens h)).2

theorem loadFonts_steady (memory : LineBuffer) (opens : Opens fw fontsFile false w) (h : w.trapped = false) :
    (loadFonts fw memory w).1.Steady where
  fonts := (next_kept (present_kept fw) (construct_present opens h)).1
  font _ absent := by cases absent

namespace FontLoading

variable {l : FontLoading Node} (memory : LineBuffer) (headers : Uninitialised)

/-- What the calls of `openFont` keep, from behind the first `Next()` on. -/
theorem openFont_kept (kept : Kept fw K) (turns : Nat)
    (h : K ((next fw (construct fw l.path false w)).1.handle, (next fw (construct fw l.path false w)).2)) :
    ∃ font, (openFont fw turns l w).state.1.font = some font ∧
      (openFont fw turns l w).state.1.fonts = l.fonts ∧ K (font.handle, (openFont fw turns l w).state.2) := by
  have named := readLine_kept kept turns h
  unfold openFont
  split
  · rename_i x reading
    rw [reading] at named
    exact ⟨_, rfl, rfl, named⟩
  · rename_i x done
    rw [done] at named
    exact ⟨_, rfl, rfl, named⟩

omit [DecidableEq Node] in
theorem Steady.innermost (h : Steady l) : l.innermost.handle.isSome := by
  unfold FontLoading.innermost
  cases font : l.font with
  | none => exact h.fonts
  | some file => exact h.font file font

omit [DecidableEq Node] in
theorem Steady.setInnermost (h : Steady l) {file : LFile Node} (handle : file.handle.isSome) :
    Steady (l.setInnermost file) := by
  unfold FontLoading.setInnermost
  split
  · exact ⟨h.fonts, by rintro _ ⟨⟩; exact handle⟩
  · exact ⟨handle, h.font⟩

theorem nextLine_steady (h : Steady l) (fine : w.trapped = false) (turns : Nat) :
    Steady (nextLine fw turns memory l w).state.1 ∧ (nextLine fw turns memory l w).state.2.trapped = false := by
  have present := readLine_kept (present_kept fw) turns (s := (l.innermost, w)) ⟨h.innermost, fine⟩
  unfold nextLine
  split
  · rename_i x reading
    rw [reading] at present
    exact ⟨h.setInnermost present.1, present.2⟩
  · rename_i x done
    rw [done] at present
    have kept := h.setInnermost present.1
    exact ⟨⟨kept.fonts, kept.font⟩, present.2⟩

/-- **The next thing that `LoadFonts()` does**, if what the line names opens. -/
theorem step_steady (h : Steady l) (fine : w.trapped = false) (opens : LineOpens fw l w) (turns : Nat) :
    (∀ l' ∈ (step fw turns memory headers l w).state.1, Steady l') ∧
      (step fw turns memory headers l w).state.2.trapped = false := by
  unfold step
  split
  · rename_i pending
    split
    · refine ⟨?_, fine⟩
      rintro _ ⟨⟩
      exact ⟨h.fonts, h.font⟩
    · rename_i line
      have file := opens pending line
      split
      · simp only [Turn.state]
        refine ⟨?_, (bitmap_trapped_iff headers fine).2 file⟩
        rintro _ ⟨⟩
        exact ⟨h.fonts, h.font⟩
      · obtain ⟨font, opened, fonts, present⟩ := openFont_kept (l := l) (present_kept fw) turns
          (next_kept (present_kept fw) (construct_present file fine))
        rw [Turn.state_map]
        refine ⟨?_, present.2⟩
        rintro _ ⟨⟩
        refine ⟨by rw [fonts]; exact h.fonts, ?_⟩
        rw [opened]
        rintro _ ⟨⟩
        exact present.1
  · split
    · refine ⟨fun l' left => ?_, fine⟩
      obtain ⟨font, -, rfl⟩ := Option.map_eq_some_iff.1 left
      refine ⟨h.fonts, fun _ absent => ?_⟩
      cases absent
    · obtain ⟨steady, fine⟩ := nextLine_steady memory h fine turns
      rw [Turn.state_map]
      refine ⟨?_, fine⟩
      rintro _ ⟨⟩
      exact steady

theorem step_missing (pending : l.pending = true) (line : l.szLine.units.headD 0 ≠ 0)
    (missing : ¬ Opens fw l.path false w) (fine : w.trapped = false) :
    (step fw 0 memory headers l w).state.2.trapped = true := by
  unfold step
  rw [if_pos pending, if_neg line]
  split
  · simp only [Turn.state]
    rw [← Bool.not_eq_false, bitmap_trapped_iff headers fine]
    exact missing
  · obtain ⟨font, -, -, trapped⟩ := openFont_kept (l := l) (trapped_kept fw) 0 (next_construct_missing missing)
    rw [Turn.state_map]
    exact trapped

theorem step_neverTraps (h : Steady l) (fine : w.trapped = false) :
    NeverTraps (fun turns => (step fw turns memory headers l w).state.2) ↔ LineOpens fw l w := by
  apply neverTraps_iff ?_ 0 ?_
  · exact fun opens turns => (step_steady memory headers h fine opens turns).2
  · intro missing
    obtain ⟨pending, others⟩ := Classical.not_imp.1 missing
    obtain ⟨line, missing⟩ := Classical.not_imp.1 others
    exact step_missing memory headers pending line missing fine

end FontLoading

end Loads

end Lavoro.Screen
