import Lavoro.Lib.Faults
import Lavoro.Lib.Loop
import Lavoro.Lib.Segments
import Lavoro.Lib.Trie
import Lavoro.Screen.Loads
import Lavoro.Screen.Sampler

/-!
# The glyphs of a font (`LFont::LoadBitmap`)

A sheet is a bitmap with the characters of a set one beside the other. `LoadBitmap` takes the colour of its
corner for the background, finds the box of what has another colour, and cuts the columns of the box into
glyphs: a glyph begins at the first column that is not empty and ends at the first empty one behind a
width that depends on the number of characters. The glyphs are kept in a trie with a level for each byte
of their characters.
-/

namespace Lavoro.Screen
open Lib LScreen Console

/-- What cannot be carried out; `trapped` is a call through the handle of a file that has not been opened. -/
inductive FontFault where
  | outside
  | divideByZero
  | negativeSize
  | scanline
  | trapped
  deriving Repr, DecidableEq

/-- `LFontHolder`, with `Bitmap` for its value and `Trie` for its children. -/
abbrev LFontHolder := Trie UInt8 MaskedScreen

/-- `Char & 0xff` and `(Char >> 8) & 0xff`. -/
def charKey (char : UInt16) : List UInt8 := [(char &&& 0xff).toUInt8, ((char >>> 8) &&& 0xff).toUInt8]

/-- What an `LFont` holds besides its name. -/
structure Glyphs where
  fontHolder : LFontHolder
  charHeight : BitVec 32
  fontEmptyColor : BitVec 32

/-- A font for which no bitmap has been loaded. -/
def Glyphs.new : Glyphs := ⟨.empty, 0, 0xffffff⟩

/-- `GetCharBitmap(Char)`. -/
def Glyphs.getCharBitmap (font : Glyphs) (char : UInt16) : Option MaskedScreen :=
  font.fontHolder.get (charKey char)

/-- `GetBuffer(x, y)`, where a negative index is a fault. -/
def readPixel (s : LScreen) (x y : BitVec 32) : Except FontFault (BitVec 32) :=
  match s.getBuffer x y with
  | some v => .ok v
  | none => .error .outside

/-- The values of `i` in `for (unsigned i = a; i < b; ++i)`. -/
def wordsFrom (a b : BitVec 32) : List (BitVec 32) :=
  (List.range (b.toNat - a.toNat)).map fun t => a + BitVec.ofNat 32 t

/-- `new LBitmap(0, 0, w, h)`, of which `memory` is what the array holds before it is cleared. -/
def newBitmap (memory : Nat → BitVec 32) (w h : BitVec 32) : Except FontFault LScreen :=
  if (w * h).msb then .error .negativeSize else .ok (LScreen.construct memory w h)

/-! ## The box -/

/-- `minWidth`, `maxWidth`, `minHeight` and `maxHeight`. -/
structure InkBox where
  minWidth : BitVec 32
  maxWidth : BitVec 32
  minHeight : BitVec 32
  maxHeight : BitVec 32

namespace InkBox

/-- The box with the pixel `(j, i)`; all comparisons are unsigned. -/
def add (b : InkBox) (j i : BitVec 32) : InkBox where
  minWidth := if b.minWidth.ult j then b.minWidth else j
  maxWidth := if j.ult b.maxWidth then b.maxWidth else j
  minHeight := if b.minHeight.ult i then b.minHeight else i
  maxHeight := if i.ult b.maxHeight then b.maxHeight else i

/-- The body of the loops over the bitmap. -/
def visit (bitmap : LScreen) (emptyColor : BitVec 32) (i : Nat) (b : InkBox) (j : Nat) : Except FontFault InkBox := do
  let v ← readPixel bitmap (BitVec.ofNat 32 j) (BitVec.ofNat 32 i)
  if v ≠ emptyColor then return b.add (BitVec.ofNat 32 j) (BitVec.ofNat 32 i) else return b

/-- The box in front of the loops. -/
def start (bitmap : LScreen) : InkBox := ⟨bitmap.w, 0, bitmap.h, 0⟩

/-- The loops, and `++maxWidth` and `++maxHeight`. -/
def find (bitmap : LScreen) (emptyColor : BitVec 32) : Except FontFault InkBox := do
  let b ← (List.range bitmap.h.toNat).foldlM (fun b i =>
    (List.range bitmap.w.toNat).foldlM (visit bitmap emptyColor i) b) (start bitmap)
  return { b with maxWidth := b.maxWidth + 1, maxHeight := b.maxHeight + 1 }

end InkBox

/-! ## The glyphs -/

/-- The local variables of `LoadBitmap` in front of its last loop. -/
structure Sheet where
  bitmap : LScreen
  emptyColor : BitVec 32
  box : InkBox
  minCharWidth : BitVec 32

namespace Sheet

/-- The values of `i` in the loops over the rows of the box. -/
def rows (s : Sheet) : List (BitVec 32) := wordsFrom s.box.minHeight s.box.maxHeight

/-- `scanline[i - minHeight] = bitmap.GetBuffer(j, i) != EmptyColor`. -/
def scanPixel (s : Sheet) (j i : BitVec 32) : Except FontFault Bool := do
  let v ← readPixel s.bitmap j i
  if (i - s.box.minHeight).toNat < (s.box.maxHeight - s.box.minHeight).toInt.toNat then
    return v ≠ s.emptyColor
  else throw .scanline

/-- `pscanned` for the column `j`. -/
def pscanned (s : Sheet) (j : BitVec 32) : Except FontFault Bool :=
  s.rows.foldlM (fun pscanned i => do return pscanned || (← s.scanPixel j i)) false

/-- `for (; j < maxWidth; ++j)` with `n` turns left, giving `startscan` and `j`. -/
def scanColumns (s : Sheet) : Nat → BitVec 32 → BitVec 32 → Bool → Except FontFault (BitVec 32 × BitVec 32)
  | 0, j, startscan, _ => return (startscan, j)
  | n + 1, j, startscan, scanned => do
    let pscanned ← s.pscanned j
    let startscan := if pscanned ∧ startscan = ~~~0 then j else startscan
    let far := startscan ≠ ~~~0 ∧ s.minCharWidth.ult (j - startscan)
    let scanned := if far then scanned && pscanned else scanned
    if far ∧ !scanned then return (startscan, j) else s.scanColumns n (j + 1) startscan scanned

/-- `CharBitmap->SetBuffer(x - startscan, y - minHeight, bitmap.GetBuffer(x, y))`. -/
def copyPixel (s : Sheet) (startscan x : BitVec 32) (charBitmap : LScreen) (y : BitVec 32) : Except FontFault LScreen := do
  let v ← readPixel s.bitmap x y
  return charBitmap.setBuffer (x - startscan) (y - s.box.minHeight) v

/-- `CharBitmap`. -/
def charBitmap (memory : Nat → BitVec 32) (s : Sheet) (startscan j : BitVec 32) : Except FontFault MaskedScreen := do
  let new ← newBitmap memory (j - startscan) (s.box.maxHeight - s.box.minHeight)
  let copied ← (wordsFrom startscan j).foldlM (fun c x => s.rows.foldlM (s.copyPixel startscan x) c) new
  return { toLScreen := copied, x := 0, y := 0, emptyColor := s.emptyColor, hasMask := true }

end Sheet

namespace Glyphs

/-- `CharBitmap` is stored for a character. -/
def store (font : Glyphs) (char : UInt16) (charBitmap : MaskedScreen) : Glyphs :=
  { font with
    fontHolder := font.fontHolder.insert charBitmap (charKey char)
    charHeight := if font.charHeight.ult charBitmap.h then charBitmap.h else font.charHeight }

/-- `for (unsigned j = minWidth, k = 0; j < maxWidth && CharSet[k]; ++j, ++k)`. -/
def loadChars (memory : Nat → BitVec 32) (s : Sheet) : Str16 → BitVec 32 → Glyphs → Except FontFault Glyphs
  | [], _, font => return font
  | char :: charSet, j, font =>
    if j.ult s.box.maxWidth then do
      let (startscan, j) ← s.scanColumns (s.box.maxWidth.toNat - j.toNat) j (~~~0) true
      if startscan ≠ ~~~0 then
        let charBitmap ← s.charBitmap memory startscan j
        loadChars memory s charSet (j + 1) (font.store char charBitmap)
      else loadChars memory s charSet (j + 1) font
    else return font

/-- `LoadBitmap` behind the constructor of `bitmap`. -/
def loadSheet (memory : Nat → BitVec 32) (font : Glyphs) (bitmap : LScreen) (charSet : Str16) : Except FontFault Glyphs := do
  let emptyColor ← readPixel bitmap 0 0
  let box ← InkBox.find bitmap emptyColor
  let charSetLength := BitVec.ofNat 32 charSet.length
  if charSetLength = 0 then throw .divideByZero
  let minCharWidth := ((box.maxWidth - box.minWidth).sdiv charSetLength).sdiv 3
  if (box.maxHeight - box.minHeight).msb then throw .negativeSize
  loadChars memory ⟨bitmap, emptyColor, box, minCharWidth⟩ charSet box.minWidth { font with fontEmptyColor := emptyColor }

variable {Node : Type} [DecidableEq Node]

/-- `LoadBitmap(BitmapFileName, CharSet)`, where there is the bitmap. -/
def loadBitmap (fw : Firmware Node) (headers : Uninitialised) (memory : Nat → BitVec 32)
    (bitmapFileName charSet : Str16) (font : Glyphs) (w : World Node) : Except FontFault Glyphs × World Node :=
  let bitmap := LBitmap.construct fw (fontsDirectory ++ bitmapFileName) headers w
  (if (bitmap.1.w * bitmap.1.h).msb then .error .negativeSize else font.loadSheet memory bitmap.1 charSet, bitmap.2)

end Glyphs

/-! ## The lines of a font file -/

variable {Node : Type} [DecidableEq Node]

/-- The first argument of `LoadBitmap`, which ends in front of the comma. -/
def bitmapFileName (szLine : Str16) : Str16 := (strAt szLine 0).takeWhile (· ≠ 44)

/-- The second one, `szLine + i + 1`. -/
def charSet (szLine : Str16) : Str16 := strAt szLine ((bitmapFileName szLine).length + 1)

/-- What ends the loading of the file `path`: `szPath` has no room for the path, or the file is not opened, and
`Next()` reads through its handle all the same. -/
def fileStop (fw : Firmware Node) (path : Str16) (w : World Node) : Option FontFault :=
  if maxPath ≤ path.length then some .outside
  else if (LFile.construct fw path false w).1.handle.isNone then some .trapped
  else none

/-- What is done with a line: it is empty, or names a bitmap, and `LoadBitmap(szLine, szLine + i + 1)` is called. -/
def Glyphs.loadLine (fw : Firmware Node) (headers : Uninitialised) (memory : Nat → BitVec 32) (szLine : Str16)
    (font : Glyphs) (w : World Node) : Except FontFault Glyphs × World Node :=
  if szLine.headD 0 = 0 then (.ok font, w)
  else
    match fileStop fw (fontsDirectory ++ bitmapFileName szLine) w with
    | some fault => (.error fault, w)
    | none => font.loadBitmap fw headers memory (bitmapFileName szLine) (charSet szLine) w

/-! ## The ink of a sheet -/

/-- What `GetBuffer(0, 0)` gives. -/
def corner (e : Extent) (s : LScreen) : BitVec 32 := if 0 < e.w * e.h then s.value e.w 0 0 else -1

/-- The pixel `(c, r)` has another colour than the corner. -/
def Ink (e : Extent) (s : LScreen) (c r : Nat) : Prop := c < e.w ∧ r < e.h ∧ s.value e.w r c ≠ s.value e.w 0 0

/-- The column `c` is not empty. -/
def Full (e : Extent) (s : LScreen) (c : Nat) : Prop := ∃ r < e.h, Ink e s c r

section Reading

variable {e : Extent} {s : LScreen} {c r : Nat}

instance (c r : Nat) : Decidable (Ink e s c r) := inferInstanceAs (Decidable (_ ∧ _ ∧ _ ≠ _))

instance : DecidablePred (Full e s) := fun c => inferInstanceAs (Decidable (∃ r < e.h, Ink e s c r))

theorem readPixel_of_getBuffer {x y v : BitVec 32} (read : s.getBuffer x y = some v) : readPixel s x y = .ok v := by
  rw [readPixel, read]

theorem readPixel_fails (s : LScreen) (x y : BitVec 32) : FailsWhen (s.getBuffer x y = none) .outside (readPixel s x y) := by
  cases read : s.getBuffer x y with
  | some v => exact .inr ⟨nofun, v, readPixel_of_getBuffer read⟩
  | none => exact .inl ⟨rfl, by rw [readPixel, read]⟩

theorem readPixel_inside (sized : Sized e s) (left : c < e.w) (up : r < e.h) :
    readPixel s (BitVec.ofNat 32 c) (BitVec.ofNat 32 r) = .ok (s.value e.w r c) := by
  exact readPixel_of_getBuffer (sized.pixel_eq left up)

theorem readPixel_corner (sized : Sized e s) : readPixel s 0 0 = .ok (corner e s) := by
  unfold corner
  split
  · rename_i area
    have left := Nat.pos_of_mul_pos_right area
    have up := Nat.pos_of_mul_pos_left area
    exact readPixel_inside sized left up
  · rename_i none
    have area : s.w * s.h = 0 := by
      rw [sized.1, sized.2, area_word, show e.w * e.h = 0 by omega]
      rfl
    rw [readPixel, LScreen.getBuffer, area]
    simp

/-- Inside of the sheet the corner is a pixel. -/
theorem ink_iff (left : c < e.w) (up : r < e.h) : Ink e s c r ↔ s.value e.w r c ≠ corner e s := by
  rw [corner, if_pos (Nat.mul_pos (Nat.zero_lt_of_lt left) (Nat.zero_lt_of_lt up)), Ink]
  exact ⟨fun ink => ink.2.2, fun ink => ⟨left, up, ink⟩⟩

theorem full_iff : Full e s c ↔ ∃ r, Ink e s c r :=
  ⟨fun ⟨r, _, ink⟩ => ⟨r, ink⟩, fun ⟨r, ink⟩ => ⟨r, ink.2.1, ink⟩⟩

end Reading

/-! ## The box of the ink -/

/-- `lo` and `hi` are the least and the greatest number with the property, or `n` and 0 if there is none. -/
structure Spans (P : Nat → Prop) (n : Nat) (lo hi : BitVec 32) : Prop where
  least : ∀ k, P k → lo.toNat ≤ k
  leastAt : P lo.toNat ∨ lo.toNat = n
  greatest : ∀ k, P k → k ≤ hi.toNat
  greatestAt : P hi.toNat ∨ hi.toNat = 0

namespace Spans

variable {P Q : Nat → Prop} {n k : Nat} {lo hi : BitVec 32}

theorem congr (same : ∀ k, P k ↔ Q k) (h : Spans P n lo hi) : Spans Q n lo hi := by
  obtain rfl : P = Q := funext fun k => propext (same k)
  exact h

/-- One number more. -/
theorem add (h : Spans P n lo hi) (small : k < 4294967296) :
    Spans (fun j => P j ∨ j = k) n (if lo.ult (BitVec.ofNat 32 k) then lo else BitVec.ofNat 32 k)
      (if (BitVec.ofNat 32 k).ult hi then hi else BitVec.ofNat 32 k) := by
  have word : (BitVec.ofNat 32 k).toNat = k := by
    rw [BitVec.toNat_ofNat]
    exact Nat.mod_eq_of_lt small
  have lower : lo.ult (BitVec.ofNat 32 k) = true ↔ lo.toNat < k := by
    rw [BitVec.ult_iff_lt, BitVec.lt_def, word]
  have higher : (BitVec.ofNat 32 k).ult hi = true ↔ k < hi.toNat := by
    rw [BitVec.ult_iff_lt, BitVec.lt_def, word]
  have leastWord : (if lo.ult (BitVec.ofNat 32 k) then lo else BitVec.ofNat 32 k).toNat = min lo.toNat k := by
    by_cases before : lo.toNat < k
    · rw [if_pos (lower.2 before), Nat.min_eq_left (Nat.le_of_lt before)]
    · rw [if_neg (mt lower.1 before), word, Nat.min_eq_right (Nat.le_of_not_lt before)]
  have greatestWord : (if (BitVec.ofNat 32 k).ult hi then hi else BitVec.ofNat 32 k).toNat = max hi.toNat k := by
    by_cases behind : k < hi.toNat
    · rw [if_pos (higher.2 behind), Nat.max_eq_left (Nat.le_of_lt behind)]
    · rw [if_neg (mt higher.1 behind), word, Nat.max_eq_right (Nat.le_of_not_lt behind)]
  obtain ⟨least, leastAt, greatest, greatestAt⟩ := h
  constructor
  · rw [leastWord]
    rintro j (old | rfl)
    · exact Nat.le_trans (Nat.min_le_left _ _) (least j old)
    · exact Nat.min_le_right _ _
  · rw [leastWord]
    rcases Nat.lt_or_ge lo.toNat k with lower | reached
    · rw [Nat.min_eq_left (Nat.le_of_lt lower)]
      exact leastAt.imp .inl id
    · rw [Nat.min_eq_right reached]
      exact .inl (.inr rfl)
  · rw [greatestWord]
    rintro j (old | rfl)
    · exact Nat.le_trans (greatest j old) (Nat.le_max_left _ _)
    · exact Nat.le_max_right _ _
  · rw [greatestWord]
    rcases Nat.lt_or_ge k hi.toNat with higher | reached
    · rw [Nat.max_eq_left (Nat.le_of_lt higher)]
      exact greatestAt.imp .inl id
    · rw [Nat.max_eq_right reached]
      exact .inl (.inr rfl)

/-- The numbers have a least one, and a least one behind them. -/
theorem words (h : Spans P n lo hi) (below : ∀ k, P k → k < n) {least behind : Nat}
    (left : IsLeast {k | P k} least) (right : IsLeast {j | ∀ k, P k → k < j} behind) :
    lo = BitVec.ofNat 32 least ∧ hi + 1 = BitVec.ofNat 32 behind := by
  have own := h.least least left.1
  have inside := below least left.1
  have from' : P lo.toNat := h.leastAt.resolve_right (by omega)
  have to' : P hi.toNat := by
    rcases h.greatestAt with there | zero
    · exact there
    · -- then 0 is the only number
      have most := h.greatest least left.1
      rw [zero, ← Nat.le_zero.1 (zero ▸ most)]
      exact left.1
  have same : lo.toNat = least := Nat.le_antisymm own (left.2 from')
  have last : behind = hi.toNat + 1 := by
    apply Nat.le_antisymm
    · exact right.2 fun k some => Nat.lt_succ_of_le (h.greatest k some)
    · exact right.1 _ to'
  constructor
  · rw [← same, BitVec.ofNat_toNat, BitVec.setWidth_eq]
  · rw [last, BitVec.ofNat_add, BitVec.ofNat_toNat, BitVec.setWidth_eq]
    rfl

end Spans

/-- A part of a sheet; the right and the lower bound are behind it. -/
structure Bounds where
  minWidth : Nat
  maxWidth : Nat
  minHeight : Nat
  maxHeight : Nat

/-- The smallest part with all the ink. -/
structure BoundingBox (e : Extent) (s : LScreen) (b : Bounds) : Prop where
  left : IsLeast {c | ∃ r, Ink e s c r} b.minWidth
  right : IsLeast {n | ∀ c r, Ink e s c r → c < n} b.maxWidth
  top : IsLeast {r | ∃ c, Ink e s c r} b.minHeight
  bottom : IsLeast {n | ∀ c r, Ink e s c r → r < n} b.maxHeight

namespace BoundingBox

variable {e : Extent} {s : LScreen} {b : Bounds}

theorem columns (h : BoundingBox e s b) : b.minWidth < b.maxWidth ∧ b.maxWidth ≤ e.w := by
  obtain ⟨r, ink⟩ := h.left.1
  exact ⟨h.right.1 _ r ink, h.right.2 fun c r own => own.1⟩

theorem rows (h : BoundingBox e s b) : b.minHeight < b.maxHeight ∧ b.maxHeight ≤ e.h := by
  obtain ⟨c, ink⟩ := h.top.1
  exact ⟨h.bottom.1 c _ ink, h.bottom.2 fun c r own => own.2.1⟩

/-- A column with ink has it in the rows of the box. -/
theorem full_iff (h : BoundingBox e s b) (c : Nat) :
    Full e s c ↔ ∃ t < b.maxHeight - b.minHeight, Ink e s c (b.minHeight + t) := by
  rw [Screen.full_iff]
  constructor
  · rintro ⟨r, ink⟩
    have below := h.bottom.1 c r ink
    have above : b.minHeight ≤ r := h.top.2 ⟨c, ink⟩
    exact ⟨r - b.minHeight, by omega, by rwa [Nat.add_sub_cancel' above]⟩
  · rintro ⟨t, -, ink⟩
    exact ⟨_, ink⟩

end BoundingBox

/-- The box in the words of `LoadBitmap`. -/
def Bounds.words (b : Bounds) : InkBox :=
  ⟨BitVec.ofNat 32 b.minWidth, BitVec.ofNat 32 b.maxWidth, BitVec.ofNat 32 b.minHeight, BitVec.ofNat 32 b.maxHeight⟩

namespace InkBox

section Find

variable {e : Extent} {s : LScreen}

/-- The box of the pixels with a property. -/
structure Encloses (e : Extent) (P : Nat → Nat → Prop) (b : InkBox) : Prop where
  columns : Spans (fun c => ∃ r, P c r) e.w b.minWidth b.maxWidth
  rows : Spans (fun r => ∃ c, P c r) e.h b.minHeight b.maxHeight

theorem Encloses.congr {P Q : Nat → Nat → Prop} {b : InkBox} (same : ∀ c r, P c r ↔ Q c r) (h : Encloses e P b) :
    Encloses e Q b where
  columns := h.columns.congr fun c => exists_congr fun r => same c r
  rows := h.rows.congr fun r => exists_congr fun c => same c r

theorem Encloses.add {P : Nat → Nat → Prop} {b : InkBox} (h : Encloses e P b) {c r : Nat} (left : c < e.w)
    (up : r < e.h) :
    Encloses e (fun c' r' => P c' r' ∨ c' = c ∧ r' = r) (b.add (BitVec.ofNat 32 c) (BitVec.ofNat 32 r)) := by
  have width := e.width
  have height := e.height
  constructor
  · refine (h.columns.add (k := c) (by omega)).congr fun c' => ?_
    rw [exists_or]
    exact or_congr_right ⟨fun same => ⟨r, same, rfl⟩, fun ⟨_, same, _⟩ => same⟩
  · refine (h.rows.add (k := r) (by omega)).congr fun r' => ?_
    rw [exists_or]
    exact or_congr_right ⟨fun same => ⟨c, rfl, same⟩, fun ⟨_, _, same⟩ => same⟩

/-- The box with a pixel that has ink. -/
def inkTurn (e : Extent) (s : LScreen) (i : Nat) (b : InkBox) (j : Nat) : InkBox :=
  if Ink e s j i then b.add (BitVec.ofNat 32 j) (BitVec.ofNat 32 i) else b

/-- The pixels of a row. -/
theorem visit_eq (sized : Sized e s) {i j : Nat} (up : i < e.h) (left : j < e.w) (b : InkBox) :
    visit s (corner e s) i b j = pure (inkTurn e s i b j) := by
  rw [visit, readPixel_inside sized left up, inkTurn]
  show (if s.value e.w i j ≠ corner e s then _ else _) = _
  by_cases ink : Ink e s j i
  · rw [if_pos ink, if_pos ((ink_iff left up).1 ink)]
  · rw [if_neg ink, if_neg (mt (ink_iff left up).2 ink)]

/-- A pixel of the row `i`. -/
theorem inkTurn_encloses {i j : Nat} {b : InkBox} (up : i < e.h) (left : j < e.w)
    (h : Encloses e (fun c r => Ink e s c r ∧ (r < i ∨ r = i ∧ c < j)) b) :
    Encloses e (fun c r => Ink e s c r ∧ (r < i ∨ r = i ∧ c < j + 1)) (inkTurn e s i b j) := by
  unfold inkTurn
  split
  · rename_i ink
    refine (h.add left up).congr fun c r => ?_
    constructor
    · rintro (⟨own, place⟩ | ⟨rfl, rfl⟩)
      · exact ⟨own, by omega⟩
      · exact ⟨ink, .inr ⟨rfl, Nat.lt_succ_self c⟩⟩
    · rintro ⟨own, place⟩
      by_cases here : c = j ∧ r = i
      · exact .inr here
      · exact .inl ⟨own, by omega⟩
  · rename_i none
    refine h.congr fun c r => and_congr_right fun own => ?_
    have other : ¬ (c = j ∧ r = i) := fun here => none (here.1 ▸ here.2 ▸ own)
    omega

/-- The row. -/
theorem inkRow_encloses {i : Nat} {b : InkBox} (up : i < e.h) (h : Encloses e (fun c r => Ink e s c r ∧ r < i) b) :
    Encloses e (fun c r => Ink e s c r ∧ r < i + 1) ((List.range e.w).foldl (inkTurn e s i) b) := by
  have columns : Encloses e (fun c r => Ink e s c r ∧ (r < i ∨ r = i ∧ c < e.w)) ((List.range e.w).foldl (inkTurn e s i) b) := by
    apply Loop.foldl_range (P := fun j b => Encloses e (fun c r => Ink e s c r ∧ (r < i ∨ r = i ∧ c < j)) b)
    · exact fun j b left h => inkTurn_encloses up left h
    · exact h.congr fun c r => and_congr_right fun _ => by omega
  refine columns.congr fun c r => and_congr_right fun own => ?_
  have inside := own.1
  omega

/-- **What the loops find** is the box of the ink. -/
theorem find_encloses (sized : Sized e s) :
    ∃ b, Encloses e (Ink e s) b ∧
      find s (corner e s) = .ok { b with maxWidth := b.maxWidth + 1, maxHeight := b.maxHeight + 1 } := by
  have all : Encloses e (fun c r => Ink e s c r ∧ r < e.h)
      ((List.range e.h).foldl (fun b i => (List.range e.w).foldl (inkTurn e s i) b) (start s)) := by
    refine Loop.foldl_range (P := fun i b => Encloses e (fun c r => Ink e s c r ∧ r < i) b)
      (fun i b up h => inkRow_encloses up h) ?_
    have width := toNat_word (n := e.w) e.width
    have height := toNat_word (n := e.h) e.height
    rw [← sized.1] at width
    rw [← sized.2] at height
    constructor
    · exact ⟨fun _ ⟨_, _, lt⟩ => absurd lt (Nat.not_lt_zero _), .inr width,
        fun _ ⟨_, _, lt⟩ => absurd lt (Nat.not_lt_zero _), .inr rfl⟩
    · exact ⟨fun _ ⟨_, _, lt⟩ => absurd lt (Nat.not_lt_zero _), .inr height,
        fun _ ⟨_, _, lt⟩ => absurd lt (Nat.not_lt_zero _), .inr rfl⟩
  refine ⟨_, all.congr fun c r => and_iff_left_of_imp fun ink => ink.2.1, ?_⟩
  have loops : (List.range e.h).foldlM (fun b i => (List.range e.w).foldlM (visit s (corner e s) i) b) (start s) =
      pure ((List.range e.h).foldl (fun b i => (List.range e.w).foldl (inkTurn e s i) b) (start s)) :=
    Loop.foldlM_eq_pure (fun i up b => Loop.foldlM_eq_pure (fun j left b =>
      visit_eq sized (List.mem_range.1 up) (List.mem_range.1 left) b) b) _
  rw [find, sized.toNat_h, sized.toNat_w, loops]
  rfl

/-- The box of a sheet with ink. -/
theorem find_eq (sized : Sized e s) {b : Bounds} (box : BoundingBox e s b) : find s (corner e s) = .ok b.words := by
  obtain ⟨found, ⟨columns, rows⟩, same⟩ := find_encloses sized
  have right : {n | ∀ c r, Ink e s c r → c < n} = {n | ∀ c, (∃ r, Ink e s c r) → c < n} := by
    simp only [forall_exists_index]
  have bottom : {n | ∀ c r, Ink e s c r → r < n} = {n | ∀ r, (∃ c, Ink e s c r) → r < n} := by
    ext n
    exact ⟨fun all r ⟨c, ink⟩ => all c r ink, fun all c r ink => all r ⟨c, ink⟩⟩
  obtain ⟨minWidth, maxWidth⟩ := columns.words (fun c ⟨r, ink⟩ => ink.1) box.left (right ▸ box.right)
  obtain ⟨minHeight, maxHeight⟩ := rows.words (fun r ⟨c, ink⟩ => ink.2.1) box.top (bottom ▸ box.bottom)
  rw [same, Bounds.words, ← minWidth, ← maxWidth, ← minHeight, ← maxHeight]

end Find

end InkBox

/-! ## The columns of a sheet -/

/-- A sheet with ink in front of the last loop. -/
def sheetOf (e : Extent) (s : LScreen) (b : Bounds) (m : Nat) : Sheet := ⟨s, corner e s, b.words, BitVec.ofNat 32 m⟩

theorem wordsFrom_ofNat {a b : Nat} (le : a ≤ b) (small : b < 2147483648) :
    wordsFrom (BitVec.ofNat 32 a) (BitVec.ofNat 32 b) = (List.range (b - a)).map fun t => BitVec.ofNat 32 (a + t) := by
  rw [wordsFrom, toNat_word small, toNat_word (Nat.lt_of_le_of_lt le small)]
  exact List.map_congr_left fun t _ => (BitVec.ofNat_add a t).symm

/-- `startscan`. -/
def startWord : Option Nat → BitVec 32
  | none => ~~~0
  | some s => BitVec.ofNat 32 s

theorem word_ne_start {a : Nat} (small : a < 2147483648) : BitVec.ofNat 32 a ≠ ~~~0 := by
  intro same
  have value := congrArg BitVec.toNat same
  rw [toNat_word small] at value
  exact absurd (value ▸ small) (by decide)

section Columns

variable {e : Extent} {s : LScreen} {b : Bounds} {m : Nat}

/-- A pixel is scanned inside of `scanline`. -/
theorem scanPixel_eq (sized : Sized e s) (box : BoundingBox e s b) {c t : Nat} (left : c < e.w)
    (lt : t < b.maxHeight - b.minHeight) :
    (sheetOf e s b m).scanPixel (BitVec.ofNat 32 c) (BitVec.ofNat 32 (b.minHeight + t)) =
      .ok (decide (Ink e s c (b.minHeight + t))) := by
  obtain ⟨some, inside⟩ := box.rows
  have height := e.height
  have up : b.minHeight + t < e.h := by omega
  have size : BitVec.ofNat 32 b.maxHeight - BitVec.ofNat 32 b.minHeight =
      BitVec.ofNat 32 (b.maxHeight - b.minHeight) := sub_word (Nat.le_of_lt some) (by omega)
  show (do
    let v ← readPixel s (BitVec.ofNat 32 c) (BitVec.ofNat 32 (b.minHeight + t))
    if (BitVec.ofNat 32 (b.minHeight + t) - BitVec.ofNat 32 b.minHeight).toNat <
        (BitVec.ofNat 32 b.maxHeight - BitVec.ofNat 32 b.minHeight).toInt.toNat then
      return decide (v ≠ corner e s) else throw .scanline : Except FontFault Bool) = _
  rw [readPixel_inside sized left up, add_sub_word, size, toNat_word (n := t) (by omega),
    toInt_word (n := b.maxHeight - b.minHeight) (by omega), Int.toNat_natCast]
  show (if t < b.maxHeight - b.minHeight then _ else _) = _
  rw [if_pos lt]
  exact congrArg Except.ok (decide_eq_decide.2 (ink_iff left up).symm)

/-- A column is scanned pixel by pixel. -/
theorem pscanned_eq (sized : Sized e s) (box : BoundingBox e s b) {c : Nat} (left : c < e.w) :
    (sheetOf e s b m).pscanned (BitVec.ofNat 32 c) = .ok (decide (Full e s c)) := by
  obtain ⟨some, inside⟩ := box.rows
  have height := e.height
  have rows : (sheetOf e s b m).rows =
      (List.range (b.maxHeight - b.minHeight)).map fun t => BitVec.ofNat 32 (b.minHeight + t) :=
    wordsFrom_ofNat (Nat.le_of_lt some) (by omega)
  have turn : ∀ t ∈ List.range (b.maxHeight - b.minHeight), ∀ pscanned,
      (do return pscanned || (← (sheetOf e s b m).scanPixel (BitVec.ofNat 32 c) (BitVec.ofNat 32 (b.minHeight + t)))) =
        (pure (pscanned || decide (Ink e s c (b.minHeight + t))) : Except FontFault Bool) := by
    intro t mem pscanned
    rw [scanPixel_eq sized box left (List.mem_range.1 mem)]
    rfl
  rw [Sheet.pscanned, rows, List.foldlM_map, Loop.foldlM_eq_pure turn,
    Loop.foldl_or (fun t => Ink e s c (b.minHeight + t))]
  exact congrArg Except.ok (decide_eq_decide.2 (box.full_iff c).symm)

/-- One turn, as long as every column has been `scanned`. -/
theorem scanColumns_succ {sheet : Sheet} {j startscan startscan' : BitVec 32} {p : Bool}
    (column : sheet.pscanned j = .ok p) (begun : (if p ∧ startscan = ~~~0 then j else startscan) = startscan') (n : Nat) :
    sheet.scanColumns (n + 1) j startscan true =
      if startscan' ≠ ~~~0 ∧ sheet.minCharWidth.ult (j - startscan') ∧ p = false then .ok (startscan', j)
      else sheet.scanColumns n (j + 1) startscan' true := by
  rw [Sheet.scanColumns, column]
  show (let startscan := if p ∧ startscan = ~~~0 then j else startscan
    let far := startscan ≠ ~~~0 ∧ sheet.minCharWidth.ult (j - startscan)
    let scanned := if far then true && p else true
    if far ∧ !scanned then .ok (startscan, j) else sheet.scanColumns n (j + 1) startscan scanned) = _
  rw [begun]
  simp only [← and_assoc]
  by_cases far : startscan' ≠ ~~~0 ∧ sheet.minCharWidth.ult (j - startscan')
  · cases p with
    | false => simp only [if_pos far, Bool.and_false, Bool.not_false, and_true]
    | true => simp only [if_pos far, Bool.and_true, Bool.not_true, Bool.false_eq_true, Bool.true_eq_false, and_false, if_false]
  · simp only [far, false_and, if_false]

/-- **The loop over the columns** is a scan. -/
theorem scanColumns_eq (sized : Sized e s) (box : BoundingBox e s b) (small : m < 4294967296) (n : Nat) {j : Nat}
    {start : Option Nat} (inside : j + n ≤ e.w) (started : ∀ a ∈ start, a ≤ j) :
    (sheetOf e s b m).scanColumns n (BitVec.ofNat 32 j) (startWord start) true =
      .ok (startWord (scan (fun c => decide (Full e s c)) m n j start).1,
        BitVec.ofNat 32 (scan (fun c => decide (Full e s c)) m n j start).2) := by
  have width := e.width
  induction n generalizing j start with
  | zero => rfl
  | succ n ih =>
    have next : BitVec.ofNat 32 j + 1 = BitVec.ofNat 32 (j + 1) := (BitVec.ofNat_add j 1).symm
    have column := pscanned_eq (m := m) sized box (show j < e.w by omega)
    cases start with
    | none =>
      rw [scan, show startWord none = ~~~0 from rfl]
      by_cases full : Full e s j
      · have near : ¬ (sheetOf e s b m).minCharWidth.ult (BitVec.ofNat 32 j - BitVec.ofNat 32 j) = true := by
          rw [BitVec.sub_self, BitVec.ult_iff_lt]
          exact BitVec.not_lt_zero
        rw [scanColumns_succ column (if_pos ⟨decide_eq_true full, rfl⟩), if_neg fun h => near h.2.1, next,
          if_pos (decide_eq_true full)]
        exact @ih (j + 1) (some j) (by omega) fun a first => by cases first; exact Nat.le_succ j
      · rw [scanColumns_succ column (if_neg fun h => full (of_decide_eq_true h.1)), if_neg fun h => h.1 rfl, next,
          if_neg fun h => full (of_decide_eq_true h)]
        exact @ih (j + 1) none (by omega) fun a first => absurd first (Option.not_mem_none a)
    | some a =>
      have le := started a rfl
      have width : (sheetOf e s b m).minCharWidth.ult (BitVec.ofNat 32 j - BitVec.ofNat 32 a) = true ↔ m < j - a := by
        show (BitVec.ofNat 32 m).ult _ = true ↔ _
        rw [sub_word le (by omega), BitVec.ult_iff_lt, BitVec.lt_def, BitVec.toNat_ofNat, Nat.mod_eq_of_lt small,
          toNat_word (n := j - a) (by omega)]
      have begun : BitVec.ofNat 32 a ≠ ~~~0 := word_ne_start (by omega)
      rw [scan, startWord, scanColumns_succ column (if_neg fun h => begun h.2), next]
      by_cases ends : m < j - a ∧ decide (Full e s j) = false
      · rw [if_pos ends]
        exact if_pos ⟨begun, width.2 ends.1, ends.2⟩
      · rw [if_neg ends]
        refine (if_neg fun h => ends ⟨width.1 h.2.1, h.2.2⟩).trans ?_
        exact @ih (j + 1) (some a) (by omega) fun a' same => by cases same; omega

/-- The glyph of the columns from `a` up to `z`; its pixels are written column by column. -/
def cutOut (memory : Nat → BitVec 32) (e : Extent) (s : LScreen) (b : Bounds) (a z : Nat) : MaskedScreen where
  w := BitVec.ofNat 32 (z - a)
  h := BitVec.ofNat 32 (b.maxHeight - b.minHeight)
  pixels :=
    { size := (z - a) * (b.maxHeight - b.minHeight)
      cells := scatter ((z - a) * (b.maxHeight - b.minHeight))
        (pointWrites (List.range (z - a)) (List.range (b.maxHeight - b.minHeight)) (fun x y => y * (z - a) + x)
          fun x y => some (s.value e.w (b.minHeight + y) (a + x)))
        fun c => if c < (z - a) * (b.maxHeight - b.minHeight) then 0 else memory c
      outside := false }
  x := 0
  y := 0
  emptyColor := corner e s
  hasMask := true

/-- The size of a glyph. -/
def glyphExtent (box : BoundingBox e s b) {a z : Nat} (inside : z ≤ e.w) : Extent where
  w := z - a
  h := b.maxHeight - b.minHeight
  width := by have width := e.width; omega
  height := by have height := e.height; have rows := box.rows; omega
  area := Nat.lt_of_le_of_lt (Nat.mul_le_mul (show z - a ≤ e.w by omega)
    (show b.maxHeight - b.minHeight ≤ e.h by have rows := box.rows; omega)) e.area

theorem cutOut_has (memory : Nat → BitVec 32) (box : BoundingBox e s b) {a z : Nat} (inside : z ≤ e.w) :
    (cutOut memory e s b a z).toLScreen.Has (glyphExtent box (a := a) inside) := ⟨rfl, rfl, rfl, rfl⟩

/-- **`CharBitmap`** is made without a fault. -/
theorem charBitmap_eq (memory : Nat → BitVec 32) (sized : Sized e s) (box : BoundingBox e s b) {a z : Nat} (le : a ≤ z)
    (inside : z ≤ e.w) :
    (sheetOf e s b m).charBitmap memory (BitVec.ofNat 32 a) (BitVec.ofNat 32 z) = .ok (cutOut memory e s b a z) := by
  obtain ⟨tall, below⟩ := box.rows
  have width := e.width
  have height := e.height
  let g : Extent := glyphExtent box (a := a) inside
  have across : BitVec.ofNat 32 z - BitVec.ofNat 32 a = BitVec.ofNat 32 g.w := sub_word le (by omega)
  have down : BitVec.ofNat 32 b.maxHeight - BitVec.ofNat 32 b.minHeight = BitVec.ofNat 32 g.h :=
    sub_word (Nat.le_of_lt tall) (by omega)
  have columns : wordsFrom (BitVec.ofNat 32 a) (BitVec.ofNat 32 z) =
      (List.range g.w).map fun x => BitVec.ofNat 32 (a + x) := wordsFrom_ofNat le (by omega)
  have rows : (sheetOf e s b m).rows = (List.range g.h).map fun y => BitVec.ofNat 32 (b.minHeight + y) :=
    wordsFrom_ofNat (Nat.le_of_lt tall) (by omega)
  have new : newBitmap memory (BitVec.ofNat 32 g.w) (BitVec.ofNat 32 g.h) =
      .ok (ofCells g fun c => if c < g.w * g.h then 0 else memory c) := by
    have made : ¬ (BitVec.ofNat 32 g.w * BitVec.ofNat 32 g.h).msb = true := by
      rw [area_word, msb_word g.area]
      decide
    rw [newBitmap, if_neg made, LScreen.construct_eq]
  let put (x : Nat) (c : LScreen) (y : Nat) : LScreen :=
    c.setBuffer (BitVec.ofNat 32 x) (BitVec.ofNat 32 y) (s.value e.w (b.minHeight + y) (a + x))
  have copied : ∀ x ∈ List.range g.w, ∀ y ∈ List.range g.h, ∀ c,
      (sheetOf e s b m).copyPixel (BitVec.ofNat 32 a) (BitVec.ofNat 32 (a + x)) c (BitVec.ofNat 32 (b.minHeight + y)) =
        pure (put x c y) := by
    intro x left y up c
    rw [List.mem_range] at left up
    have left' : x < z - a := left
    have up' : y < b.maxHeight - b.minHeight := up
    show (readPixel s _ _ >>= fun v => pure (c.setBuffer _ (_ - BitVec.ofNat 32 b.minHeight) v)) = _
    rw [readPixel_inside sized (show a + x < e.w by omega) (show b.minHeight + y < e.h by omega), add_sub_word, add_sub_word]
    rfl
  have turn : ∀ x ∈ List.range g.w, ∀ y ∈ List.range g.h, ∀ f, put x (ofCells g f) y =
      ofCells g ((some (s.value e.w (b.minHeight + y) (a + x))).elim f fun v =>
        scatterOne (g.w * g.h) f (y * g.w + x, v)) := by
    intro x left y up f
    have index := Nat.lt_trans (cell_lt (List.mem_range.1 left) (List.mem_range.1 up)) g.area
    exact setBuffer_at (has_ofCells g f) _ index
  have loops : (wordsFrom (BitVec.ofNat 32 a) (BitVec.ofNat 32 z)).foldlM
      (fun c x => (sheetOf e s b m).rows.foldlM ((sheetOf e s b m).copyPixel (BitVec.ofNat 32 a) x) c)
      (ofCells g fun c => if c < g.w * g.h then 0 else memory c) =
        .ok (cutOut memory e s b a z).toLScreen := by
    rw [columns, rows, List.foldlM_map, Loop.foldlM_eq_pure fun x left c => by
      rw [List.foldlM_map]
      exact Loop.foldlM_eq_pure (copied x left) c]
    exact congrArg Except.ok (foldl_points turn _)
  show (do
    let new ← newBitmap memory (BitVec.ofNat 32 z - BitVec.ofNat 32 a) (BitVec.ofNat 32 b.maxHeight - BitVec.ofNat 32 b.minHeight)
    let copied ← (wordsFrom (BitVec.ofNat 32 a) (BitVec.ofNat 32 z)).foldlM
      (fun c x => (sheetOf e s b m).rows.foldlM ((sheetOf e s b m).copyPixel (BitVec.ofNat 32 a) x) c) new
    return MaskedScreen.mk ⟨copied, 0, 0⟩ (corner e s) true : Except FontFault MaskedScreen) = _
  rw [across, down, new]
  exact congrArg (fun copied : Except FontFault LScreen => do
    return MaskedScreen.mk ⟨← copied, 0, 0⟩ (corner e s) true) loops

end Columns

end Lavoro.Screen
