import Lavoro.Screen.BitmapBounds
import Lavoro.Screen.Glyphs

/-!
# Sheets that are cut into their glyphs

On a sheet with ink `LoadBitmap` makes one bitmap for every segment of the columns, and nothing it does is
a fault. Where the columns of the sheet make up one piece for every character, and each piece starts behind the
column at which the one before ends, the characters get just these pieces.
-/

namespace Lavoro.Screen
open Lib LScreen

variable {Node : Type} [DecidableEq Node]

/-- What has been loaded from a file with such headers is a screen of their size. -/
theorem LBitmap.construct_has {fw : Firmware Node} {fileName : Str16} {world : World Node} {c : List UInt8} {offset : Nat} {e : Extent}
    (well : Readable fw) (named : fileName ≠ []) (memory : Uninitialised)
    (there : world.file (fw.nodeOf fileName) = some c) (H : HeaderOf c offset e.w e.h) :
    (LBitmap.construct fw fileName memory world).1.Has e := by
  have read := LBitmap.extents_eq well named memory there (Nat.le_of_lt H.headers)
  obtain ⟨pixels, loaded, outside, -⟩ := construct_spec well named memory there H
  obtain ⟨file, world', array⟩ := LBitmap.construct_pixels fw fileName memory world
  have size : (LBitmap.construct fw fileName memory world).1.pixels.size = e.w * e.h := by
    rw [array, LBitmap.readRows_size, read]
    exact H.cells
  rw [loaded] at size ⊢
  exact ⟨rfl, rfl, size, outside⟩

/-! ## Characters -/

theorem charKey_injective {c d : UInt16} (same : charKey c = charKey d) : c = d := by
  simp only [charKey, List.cons.injEq, and_true] at same
  obtain ⟨low, high⟩ := same
  have lowNat := congrArg UInt8.toNat low
  have highNat := congrArg UInt8.toNat high
  have small (x : UInt16) : (x &&& 0xff).toUInt8.toNat = x.toNat % 256 := by
    have mask := Nat.and_two_pow_sub_one_eq_mod x.toNat 8
    rw [UInt16.toNat_toUInt8, UInt16.toNat_and]
    show (x.toNat &&& 255) % 256 = _
    rw [show x.toNat &&& 255 = x.toNat % 256 from mask, Nat.mod_mod]
  have shifted (x : UInt16) : (x >>> 8).toNat = x.toNat / 256 := by
    rw [UInt16.toNat_shiftRight]
    exact Nat.shiftRight_eq_div_pow x.toNat 8
  rw [small, small] at lowNat highNat
  rw [shifted, shifted] at highNat
  apply UInt16.toNat_inj.1
  have boundC := c.toNat_lt
  have boundD := d.toNat_lt
  omega

namespace Glyphs

/-- The glyphs of these segments have been stored. -/
def stored (glyph : Nat → Nat → MaskedScreen) (l : List (UInt16 × Nat × Nat)) (font : Glyphs) : Glyphs :=
  l.foldl (fun font x => font.store x.1 (glyph x.2.1 x.2.2)) font

section Stored

variable {glyph : Nat → Nat → MaskedScreen} {l : List (UInt16 × Nat × Nat)} {font : Glyphs}

theorem fontHolder_stored :
    (stored glyph l font).fontHolder =
      Trie.inserted (fun x => charKey x.1) (fun x => glyph x.2.1 x.2.2) l font.fontHolder := by
  induction l generalizing font with
  | nil => rfl
  | cons x l ih => exact ih

/-- **Different characters** get their own glyphs. -/
theorem getCharBitmap_stored (distinct : (l.map Prod.fst).Nodup) {x : UInt16 × Nat × Nat} (mem : x ∈ l) :
    (stored glyph l font).getCharBitmap x.1 = some (glyph x.2.1 x.2.2) := by
  have keys : (l.map fun x => charKey x.1).Nodup := by
    rw [show (fun x : UInt16 × Nat × Nat => charKey x.1) = charKey ∘ Prod.fst from rfl, ← List.map_map]
    exact distinct.map fun c d => charKey_injective
  rw [getCharBitmap, fontHolder_stored]
  exact Trie.get_inserted keys mem font.fontHolder

end Stored

/-- A glyph has just been stored, or it was there before. -/
theorem getCharBitmap_store {font : Glyphs} {char c : UInt16} {charBitmap glyph : MaskedScreen}
    (there : (font.store char charBitmap).getCharBitmap c = some glyph) :
    glyph = charBitmap ∨ font.getCharBitmap c = some glyph := by
  have found : (if charKey c = charKey char then some charBitmap else font.getCharBitmap c) = some glyph :=
    (Trie.get_insert charBitmap (charKey char) (charKey c) font.fontHolder).symm.trans there
  split at found
  · exact .inl (Option.some.inj found).symm
  · exact .inr found

theorem getCharBitmap_new (char : UInt16) : new.getCharBitmap char = none := by
  rw [getCharBitmap, new, Trie.get_empty]

theorem charHeight_store (font : Glyphs) (char : UInt16) (charBitmap : MaskedScreen) :
    (font.store char charBitmap).charHeight.toNat = max font.charHeight.toNat charBitmap.h.toNat := by
  have lower : font.charHeight.ult charBitmap.h = true ↔ font.charHeight.toNat < charBitmap.h.toNat := by
    rw [BitVec.ult_iff_lt, BitVec.lt_def]
  show (if font.charHeight.ult charBitmap.h then charBitmap.h else font.charHeight).toNat = _
  by_cases grows : font.charHeight.toNat < charBitmap.h.toNat
  · rw [if_pos (lower.2 grows), Nat.max_eq_right (Nat.le_of_lt grows)]
  · rw [if_neg (mt lower.1 grows), Nat.max_eq_left (Nat.le_of_not_lt grows)]

/-- `CharHeight` is at least what it was, and the height of every glyph. -/
theorem charHeight_stored {glyph : Nat → Nat → MaskedScreen} {l : List (UInt16 × Nat × Nat)} {font : Glyphs} :
    font.charHeight.toNat ≤ (stored glyph l font).charHeight.toNat ∧
      ∀ x ∈ l, (glyph x.2.1 x.2.2).h.toNat ≤ (stored glyph l font).charHeight.toNat := by
  induction l generalizing font with
  | nil => exact ⟨Nat.le_refl _, nofun⟩
  | cons x l ih =>
    obtain ⟨before, others⟩ := @ih (font.store x.1 (glyph x.2.1 x.2.2))
    rw [charHeight_store] at before
    refine ⟨Nat.le_trans (Nat.le_max_left _ _) before, fun y mem => ?_⟩
    rcases List.mem_cons.1 mem with rfl | behind
    · exact Nat.le_trans (Nat.le_max_right _ _) before
    · exact others y behind

section Load

variable {e : Extent} {s : LScreen} {b : Bounds} {m : Nat}

/-- One turn of the last loop. -/
theorem loadChars_cons {sheet : Sheet} {j startscan stop : BitVec 32} (memory : Nat → BitVec 32)
    (going : j.ult sheet.box.maxWidth = true)
    (scanned : sheet.scanColumns (sheet.box.maxWidth.toNat - j.toNat) j (~~~0) true = .ok (startscan, stop))
    (char : UInt16) (charSet : Str16) (font : Glyphs) :
    loadChars memory sheet (char :: charSet) j font =
      if startscan ≠ ~~~0 then do
        let charBitmap ← sheet.charBitmap memory startscan stop
        loadChars memory sheet charSet (stop + 1) (font.store char charBitmap)
      else loadChars memory sheet charSet (stop + 1) font := by
  rw [loadChars, if_pos going, scanned]
  rfl

/-- **The last loop** stores the segments. -/
theorem loadChars_eq (memory : Nat → BitVec 32) (sized : Sized e s) (box : BoundingBox e s b) (small : m < 4294967296)
    (charSet : Str16) {j : Nat} (le : j ≤ b.maxWidth + 1) (font : Glyphs) :
    loadChars memory (sheetOf e s b m) charSet (BitVec.ofNat 32 j) font =
      .ok (stored (cutOut memory e s b) (cut (fun c => decide (Full e s c)) m b.maxWidth charSet j) font) := by
  have width := e.width
  have columns := box.columns.2
  induction charSet generalizing j font with
  | nil => rfl
  | cons char charSet ih =>
    have going : (BitVec.ofNat 32 j).ult (sheetOf e s b m).box.maxWidth = true ↔ j < b.maxWidth := by
      show (BitVec.ofNat 32 j).ult (BitVec.ofNat 32 b.maxWidth) = true ↔ _
      rw [BitVec.ult_iff_lt, BitVec.lt_def, BitVec.toNat_ofNat, toNat_word (n := b.maxWidth) (by omega)]
      omega
    rw [cut]
    by_cases inside : j < b.maxWidth
    · have count : (sheetOf e s b m).box.maxWidth.toNat - (BitVec.ofNat 32 j).toNat = b.maxWidth - j := by
        show (BitVec.ofNat 32 b.maxWidth).toNat - _ = _
        rw [toNat_word (n := b.maxWidth) (by omega), toNat_word (n := j) (by omega)]
      have idle : ∀ a ∈ (none : Option Nat), a ≤ j := fun a first => absurd first (Option.not_mem_none a)
      have scanned := @scanColumns_eq e s b m sized box small (b.maxWidth - j) j none (by omega) idle
      have bounds := @scan_bounds (fun c => decide (Full e s c)) m j (b.maxWidth - j) none idle
      rw [← count] at scanned
      rw [loadChars_cons memory (going.2 inside) scanned, if_pos inside, count]
      generalize scan (fun c => decide (Full e s c)) m (b.maxWidth - j) j none = found at bounds ⊢
      obtain ⟨start, stop⟩ := found
      obtain ⟨most, first⟩ := bounds
      dsimp only at most first ⊢
      have next : BitVec.ofNat 32 stop + 1 = BitVec.ofNat 32 (stop + 1) := (BitVec.ofNat_add stop 1).symm
      rw [next]
      cases start with
      | none =>
        rw [startWord, if_neg (not_not.2 rfl)]
        exact ih (by omega) font
      | some a =>
        have begun : a ≤ stop := first a rfl
        rw [startWord, if_pos (word_ne_start (by omega)), charBitmap_eq memory sized box begun (by omega)]
        exact ih (by omega) _
    · rw [loadChars, if_neg (mt going.1 inside), if_neg inside]
      rfl

/-- The length of a character set as it divides the width of the box. -/
theorem minCharWidth_eq {w n : Nat} (hw : w < 2147483648) (hn : n < 2147483648) :
    ((BitVec.ofNat 32 w).sdiv (BitVec.ofNat 32 n)).sdiv 3 = BitVec.ofNat 32 (w / n / 3) := by
  have quotient : w / n < 2147483648 := Nat.lt_of_le_of_lt (Nat.div_le_self w n) hw
  rw [sdiv_word hw hn]
  exact sdiv_word quotient (m := 3) (by decide)

/-- `LoadBitmap` behind the loops that find the box. -/
theorem loadSheet_of_find (memory : Nat → BitVec 32) (charSet : Str16) (font : Glyphs) {v : BitVec 32} {box : InkBox}
    (corner : readPixel s 0 0 = .ok v) (found : InkBox.find s v = .ok box) :
    font.loadSheet memory s charSet =
      if BitVec.ofNat 32 charSet.length = 0 then .error .divideByZero
      else if (box.maxHeight - box.minHeight).msb then .error .negativeSize
      else loadChars memory
        ⟨s, v, box, ((box.maxWidth - box.minWidth).sdiv (BitVec.ofNat 32 charSet.length)).sdiv 3⟩ charSet box.minWidth
        { font with fontEmptyColor := v } := by
  rw [loadSheet, corner]
  show (InkBox.find s v >>= _) = _
  rw [found]
  show (if BitVec.ofNat 32 charSet.length = 0 then _ else _) = _
  split
  · rfl
  · show (if (box.maxHeight - box.minHeight).msb then _ else _) = _
    split
    · rfl
    · rfl

/-- `minCharWidth`, unsigned as it is compared. -/
def sheetCharWidth (b : Bounds) (charSet : Str16) : Nat :=
  (((BitVec.ofNat 32 (b.maxWidth - b.minWidth)).sdiv (BitVec.ofNat 32 charSet.length)).sdiv 3).toNat

/-- **A sheet with ink** is loaded without a fault, unless its character set is empty. -/
theorem loadSheet_inked (memory : Nat → BitVec 32) (sized : Sized e s) (box : BoundingBox e s b) {charSet : Str16}
    (some : BitVec.ofNat 32 charSet.length ≠ 0) (font : Glyphs) :
    font.loadSheet memory s charSet =
      .ok (stored (cutOut memory e s b)
        (cut (fun c => decide (Full e s c)) (sheetCharWidth b charSet) b.maxWidth charSet b.minWidth)
        { font with fontEmptyColor := corner e s }) := by
  have width := e.width
  have height := e.height
  obtain ⟨wide, right⟩ := box.columns
  obtain ⟨tall, bottom⟩ := box.rows
  have array : ¬ (b.words.maxHeight - b.words.minHeight).msb = true := by
    show ¬ (BitVec.ofNat 32 b.maxHeight - BitVec.ofNat 32 b.minHeight).msb = true
    rw [sub_word (Nat.le_of_lt tall) (by omega), msb_word (by omega)]
    decide
  have minCharWidth : ((b.words.maxWidth - b.words.minWidth).sdiv (BitVec.ofNat 32 charSet.length)).sdiv 3 =
      BitVec.ofNat 32 (sheetCharWidth b charSet) := by
    show ((BitVec.ofNat 32 b.maxWidth - BitVec.ofNat 32 b.minWidth).sdiv _).sdiv 3 = _
    rw [sub_word (Nat.le_of_lt wide) (by omega), sheetCharWidth, BitVec.ofNat_toNat, BitVec.setWidth_eq]
  have small : sheetCharWidth b charSet < 4294967296 := BitVec.isLt _
  rw [loadSheet_of_find memory charSet font (readPixel_corner sized) (InkBox.find_eq sized box), if_neg some, if_neg array,
    minCharWidth]
  exact loadChars_eq memory sized box small charSet (by omega) _

/-- The same for a character set that is not too long. -/
theorem loadSheet_eq (memory : Nat → BitVec 32) (sized : Sized e s) (box : BoundingBox e s b) {charSet : Str16}
    (some : charSet ≠ []) (few : charSet.length < 2147483648) (font : Glyphs) :
    font.loadSheet memory s charSet =
      .ok (stored (cutOut memory e s b)
        (cut (fun c => decide (Full e s c)) ((b.maxWidth - b.minWidth) / charSet.length / 3) b.maxWidth charSet b.minWidth)
        { font with fontEmptyColor := corner e s }) := by
  have width := e.width
  have right := box.columns.2
  have first := Nat.div_le_self (b.maxWidth - b.minWidth) charSet.length
  have minCharWidth : sheetCharWidth b charSet = (b.maxWidth - b.minWidth) / charSet.length / 3 := by
    rw [sheetCharWidth, minCharWidth_eq (by omega) few, toNat_word (by omega)]
  have divisor : BitVec.ofNat 32 charSet.length ≠ 0 := by
    intro zero
    have value := congrArg BitVec.toNat zero
    rw [toNat_word few] at value
    exact some (List.length_eq_zero_iff.1 value)
  rw [loadSheet_inked memory sized box divisor, minCharWidth]

end Load

/-! ## Sheets of pieces -/

/-- The bitmap has the columns from `a` up to `z` of a sheet, and the rows of its box. -/
structure Excerpt (sheet : LScreen) (b : Bounds) (a z : Nat) (glyph : MaskedScreen) : Prop where
  w : glyph.w = BitVec.ofNat 32 (z - a)
  h : glyph.h = BitVec.ofNat 32 (b.maxHeight - b.minHeight)
  inside : glyph.pixels.outside = false
  pixels : ∀ x y, x < z - a → y < b.maxHeight - b.minHeight →
    ∃ v, glyph.pixel x y = some v ∧ sheet.pixel (a + x) (b.minHeight + y) = some v

theorem cutOut_excerpt {e : Extent} {s : LScreen} {b : Bounds} (memory : Nat → BitVec 32) (sized : Sized e s)
    (box : BoundingBox e s b) {a z : Nat} (inside : z ≤ e.w) : Excerpt s b a z (cutOut memory e s b a z) where
  w := rfl
  h := rfl
  inside := rfl
  pixels x y left up := by
    have rows := box.rows
    refine ⟨s.value e.w (b.minHeight + y) (a + x), ?_, sized.pixel_eq (by omega) (by omega)⟩
    rw [LScreen.pixel_eq (cutOut_has memory box inside) left up]
    refine congrArg some (scatter_points_last (cell_lt left up) left up rfl rfl ?_)
    -- no two pixels have one cell
    intro x' y' left' _ later _ same
    have own := (cell_eq_iff left left').1 same
    omega

/-- **The characters of a sheet get their pieces.** -/
theorem loadBitmap_pieces {fw : Firmware Node} {headers : Uninitialised} {memory : Nat → BitVec 32}
    {bitmapFileName charSet : Str16} {font : Glyphs} {world : World Node} {sheet : LScreen} {e : Extent} {b : Bounds}
    {s t : Nat → Nat} (loaded : (LBitmap.construct fw (fontsDirectory ++ bitmapFileName) headers world).1 = sheet)
    (has : sheet.Has e) (box : BoundingBox e sheet b) (distinct : charSet.Nodup)
    (pieces : Pieces (Full e sheet) ((b.maxWidth - b.minWidth) / charSet.length / 3) b.maxWidth charSet.length s t) :
    ∃ font', (font.loadBitmap fw headers memory bitmapFileName charSet world).1 = .ok font' ∧
      ∀ i (inside : i < charSet.length), ∃ glyph, font'.getCharBitmap charSet[i] = some glyph ∧
        Excerpt sheet b (s i)
          (min (max (t i) (s i + (b.maxWidth - b.minWidth) / charSet.length / 3 + 1)) b.maxWidth) glyph ∧
        glyph.h.toNat ≤ font'.charHeight.toNat := by
  let m := (b.maxWidth - b.minWidth) / charSet.length / 3
  have columns := box.columns
  have width := e.width
  have first : 0 < charSet.length := by
    obtain ⟨i, inside, -⟩ := pieces.covered b.minWidth (full_iff.2 box.left.1)
    omega
  have few : charSet.length < 2147483648 := by
    have count := pieces.le_start (show charSet.length - 1 < charSet.length by omega)
    have last := (pieces.start _ (show charSet.length - 1 < charSet.length by omega)).choose_spec.2.1
    omega
  have loads : (font.loadBitmap fw headers memory bitmapFileName charSet world).1 =
      font.loadSheet memory sheet charSet := by
    have array : ¬ (sheet.w * sheet.h).msb = true := by
      rw [has.w, has.h, area_word, msb_word e.area]
      decide
    rw [loadBitmap, loaded]
    exact if_neg array
  have segments := pieces.cut_eq charSet rfl (j := b.minWidth) fun some => box.left.2 (full_iff.1 (pieces.start 0 some))
  let segment (x : UInt16 × Nat) : UInt16 × Nat × Nat := (x.1, s x.2, min (max (t x.2) (s x.2 + m + 1)) b.maxWidth)
  let font' := stored (cutOut memory e sheet b) (charSet.zipIdx.map segment) { font with fontEmptyColor := corner e sheet }
  have result : font.loadSheet memory sheet charSet = .ok font' := by
    rw [loadSheet_eq memory has.sized box (List.ne_nil_of_length_pos first) few, segments]
  refine ⟨font', loads.trans result, fun i inside => ?_⟩
  let z := min (max (t i) (s i + m + 1)) b.maxWidth
  have mem : (charSet[i], s i, z) ∈ charSet.zipIdx.map segment :=
    List.mem_map.2 ⟨(charSet[i], i), List.mk_mem_zipIdx_iff_getElem?.2 (List.getElem?_eq_getElem inside), rfl⟩
  have labels : (charSet.zipIdx.map segment).map Prod.fst = charSet := by
    rw [List.map_map]
    exact List.zipIdx_map_fst 0 charSet
  have found : font'.getCharBitmap charSet[i] = some (cutOut memory e sheet b (s i) z) :=
    getCharBitmap_stored (x := (charSet[i], s i, z)) (labels.symm ▸ distinct) mem
  have tall : (cutOut memory e sheet b (s i) z).h.toNat ≤ font'.charHeight.toNat :=
    charHeight_stored.2 (charSet[i], s i, z) mem
  have most : z ≤ e.w := Nat.le_trans (Nat.min_le_right _ _) columns.2
  exact ⟨_, found, cutOut_excerpt memory has.sized box most, tall⟩

/-- Two black columns of one pixel, each behind a white one. -/
def bars (x _ : Nat) : Colour := if x % 2 = 0 then ⟨255, 255, 255⟩ else ⟨0, 0, 0⟩

/-- A world whose only file is the sheet `a` with them. -/
def barsWorld : World Str16 :=
  (World.start fun _ => none).setFile (flawless.nodeOf (fontsDirectory ++ [97]))
    (some ((Bmp.plain 4 1 (by decide) (by decide) (by decide)).content bars))

/-- The two columns are found for the characters `A` and `B`. -/
theorem bars_found :
    ∃ font', (Glyphs.new.loadBitmap flawless zeroed (fun _ => 0) [97] [65, 66] barsWorld).1 = .ok font' ∧
      (∃ glyph, font'.getCharBitmap 65 = some glyph ∧ glyph.w = 1 ∧ glyph.pixel 0 0 = some 0) ∧
      ∃ glyph, font'.getCharBitmap 66 = some glyph ∧ glyph.w = 1 ∧ glyph.pixel 0 0 = some 0 := by
  let file := Bmp.plain 4 1 (by decide) (by decide) (by decide)
  let e : Extent := ⟨4, 1, by decide, by decide, by decide⟩
  let sheet := (LBitmap.construct flawless (fontsDirectory ++ [97]) zeroed barsWorld).1
  have has : sheet.Has e := LBitmap.construct_has flawless_readable (by decide) zeroed
    (World.setFile_file_same _ _ _) (file.headerOf bars)
  have shows : Decodes flawless (fontsDirectory ++ [97]) zeroed (World.start fun _ => none) file bars :=
    (bitmap_decoded_iff flawless_readable (by decide) zeroed _ file).2 (.inr rfl) bars
  have colour (x : Nat) (left : x < 4) : sheet.value 4 0 x = (bars x 0).word :=
    Option.some.inj ((LScreen.pixel_eq has left Nat.one_pos).symm.trans (shows.colours x 0 left Nat.one_pos))
  have ink (c r : Nat) : Ink e sheet c r ↔ (c = 1 ∨ c = 3) ∧ r = 0 := by
    constructor
    · rintro ⟨left, up, other⟩
      obtain rfl : r = 0 := Nat.lt_one_iff.1 up
      rw [colour c left, colour 0 (by decide)] at other
      have odd : c % 2 ≠ 0 := fun even => other (congrArg Colour.word (if_pos even))
      have small : c < 4 := left
      omega
    · rintro ⟨at', rfl⟩
      have left : c < 4 := by omega
      refine ⟨left, Nat.one_pos, ?_⟩
      rw [colour c left, colour 0 (by decide)]
      rcases at' with rfl | rfl <;> decide
  have inBox (c r : Nat) (own : Ink e sheet c r) : 1 ≤ c ∧ c < 4 ∧ r < 1 := by
    have at' := (ink c r).1 own
    omega
  have first : Ink e sheet 1 0 := (ink 1 0).2 (by decide)
  have last : Ink e sheet 3 0 := (ink 3 0).2 (by decide)
  have box : BoundingBox e sheet ⟨1, 4, 0, 1⟩ := {
    left := ⟨⟨0, first⟩, fun c ⟨r, own⟩ => (inBox c r own).1⟩
    right := ⟨fun c r own => (inBox c r own).2.1, fun _ above => above 3 0 last⟩
    top := ⟨⟨1, first⟩, fun r _ => Nat.zero_le r⟩
    bottom := ⟨fun c r own => (inBox c r own).2.2, fun _ above => above 1 0 first⟩ }
  have full (c : Nat) : Full e sheet c ↔ c = 1 ∨ c = 3 := by
    rw [full_iff]
    exact ⟨fun ⟨r, own⟩ => ((ink c r).1 own).1, fun at' => ⟨0, (ink c 0).2 ⟨at', rfl⟩⟩⟩
  have pieces : Pieces (Full e sheet) 0 4 2 (fun i => 2 * i + 1) (fun i => 2 * i + 2) := by
    constructor
    · intro c some
      rcases (full c).1 some with rfl | rfl
      · exact ⟨0, by decide, by decide, by decide⟩
      · exact ⟨1, by decide, by decide, by decide⟩
    · rfl
    · intro i inside
      rw [full]
      omega
    · intro i inside c front back far
      omega
    · intro i inside
      omega
  obtain ⟨font', loads, found⟩ := @loadBitmap_pieces _ _ flawless zeroed (fun _ => 0) [97] [65, 66] .new barsWorld
    sheet e _ _ _ rfl has box (by decide) pieces
  have glyph (i : Nat) (inside : i < [(65 : UInt16), 66].length) : ∃ glyph,
      font'.getCharBitmap [(65 : UInt16), 66][i] = some glyph ∧ glyph.w = 1 ∧ glyph.pixel 0 0 = some 0 := by
    obtain ⟨glyph, there, excerpt, -⟩ := found i inside
    have two : i < 2 := inside
    have wide : min (max (2 * i + 2) (2 * i + 1 + 0 + 1)) 4 - (2 * i + 1) = 1 := by omega
    have w : glyph.w = BitVec.ofNat 32 (min (max (2 * i + 2) (2 * i + 1 + 0 + 1)) 4 - (2 * i + 1)) := excerpt.w
    obtain ⟨v, shown, source⟩ := excerpt.pixels 0 0
      (show 0 < min (max (2 * i + 2) (2 * i + 1 + 0 + 1)) 4 - (2 * i + 1) by omega) (by decide)
    have left : 2 * i + 1 < 4 := by omega
    have black : (bars (2 * i + 1) 0).word = 0 := congrArg Colour.word (if_neg (by omega))
    have cell : sheet.pixel (2 * i + 1) 0 = some 0 := by
      rw [LScreen.pixel_eq has left Nat.one_pos, ← black]
      exact congrArg some (colour _ left)
    rw [wide] at w
    exact ⟨glyph, there, w, shown.trans (source.symm.trans cell)⟩
  exact ⟨font', loads, glyph 0 (by decide), glyph 1 (by decide)⟩

end Glyphs

end Lavoro.Screen
