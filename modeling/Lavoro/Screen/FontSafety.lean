import Lavoro.Screen.FontMaking
import Lavoro.Screen.TextCells

/-!
# The arithmetic of fonts

`DrawText` divides by `CharHeight` and makes arrays for the blanks and the scaled bitmaps, and `LoadBitmap` divides
by the length of the character set and makes an array for the rows. Nothing tests the numbers, which come out of
files.
-/

namespace Lavoro.Screen
open Lib LScreen Console

/-! ## Drawing -/

/-- The loops over a bitmap of this size read a pixel with a negative index. -/
def Overreads (w h offsetY : BitVec 32) : Prop :=
  ∃ x ∈ wordsFrom 0 w, ∃ y ∈ wordsFrom offsetY (h + offsetY),
    ((y - offsetY) * w + x).slt (w * h) = true ∧ ((y - offsetY) * w + x).msb = true

instance (w h offsetY : BitVec 32) : Decidable (Overreads w h offsetY) :=
  inferInstanceAs (Decidable (∃ x ∈ wordsFrom 0 w, ∃ y ∈ wordsFrom offsetY (h + offsetY), _ ∧ _))

namespace Glyphs

/-- The height of the bitmap of a character. -/
def bitmapHeight (font : Glyphs) (char : UInt16) : BitVec 32 :=
  match font.getCharBitmap char with
  | some c => c.h
  | none => font.charHeight

/-- The size of the array for the blank, or of that for the scaled bitmap, is negative. -/
def Negative (font : Glyphs) (ratio : BitVec 32) (char : UInt16) : Prop :=
  (font.getCharBitmap char).isNone = true ∧ ((font.charHeight >>> 1) * font.charHeight).msb = true ∨
    (scaledSize (font.bitmapWidth char) ratio * scaledSize (font.bitmapHeight char) ratio).msb = true

instance (font : Glyphs) (ratio : BitVec 32) (char : UInt16) : Decidable (font.Negative ratio char) :=
  inferInstanceAs (Decidable (_ ∧ _ ∨ _))

/-- The character is printed, and needs an array of negative size. -/
def CharFails (font : Glyphs) (fontSize : BitVec 32) (char : UInt16) : Prop :=
  Prints char ∧ font.Negative (fontSize * 100 / font.charHeight) char

/-- The character is printed, and its scaled bitmap is read outside of its array. -/
def CharEnds (font : Glyphs) (fontSize : BitVec 32) (char : UInt16) : Prop :=
  Prints char ∧ ¬ font.Negative (fontSize * 100 / font.charHeight) char ∧
    Overreads (scaledSize (font.bitmapWidth char) (fontSize * 100 / font.charHeight))
      (scaledSize (font.bitmapHeight char) (fontSize * 100 / font.charHeight))
      (font.offsetY fontSize (font.bitmapHeight char))

instance (font : Glyphs) (fontSize : BitVec 32) : DecidablePred (font.CharEnds fontSize) :=
  fun _ => inferInstanceAs (Decidable (_ ∧ _ ∧ _))

end Glyphs

section Characters

variable {memory : Nat → BitVec 32} {font : Glyphs} {fontSize ratio : BitVec 32}

theorem getBuffer_eq_none_iff {s : LScreen} {x y : BitVec 32} :
    s.getBuffer x y = none ↔ (y * s.w + x).slt (s.w * s.h) = true ∧ (y * s.w + x).msb = true := by
  unfold LScreen.getBuffer
  dsimp only
  split
  · rename_i before
    split
    · rename_i negative
      exact iff_of_true rfl ⟨before, negative⟩
    · rename_i inside
      exact iff_of_false nofun fun h => inside h.2
  · rename_i behind
    exact iff_of_false nofun fun h => behind h.1

theorem copyBitmap_overreads (font : Glyphs) (c : MaskedScreen) (offsetY currentX currentY : BitVec 32) (screen : LScreen) :
    FailsWhen (Overreads c.w c.h offsetY) .outside (font.copyBitmap c offsetY currentX currentY screen) := by
  apply (copyBitmap_fails font c offsetY currentX currentY screen).congr
  unfold Overreads
  simp only [getBuffer_eq_none_iff]

/-- The bitmap of a character, which may be a blank. -/
theorem bitmapOf_spec (memory : Nat → BitVec 32) (font : Glyphs) (char : UInt16) :
    ((font.getCharBitmap char).isNone = true ∧ ((font.charHeight >>> 1) * font.charHeight).msb = true ∧
        font.bitmapOf memory char = .error .negativeSize) ∨
      ¬ ((font.getCharBitmap char).isNone = true ∧ ((font.charHeight >>> 1) * font.charHeight).msb = true) ∧
        ∃ c, font.bitmapOf memory char = .ok c ∧ c.w = font.bitmapWidth char ∧ c.h = font.bitmapHeight char := by
  unfold Glyphs.bitmapOf Glyphs.bitmapWidth Glyphs.bitmapHeight
  cases font.getCharBitmap char with
  | some c => exact .inr ⟨nofun, c, rfl, rfl, rfl⟩
  | none =>
    by_cases negative : ((font.charHeight >>> 1) * font.charHeight).msb = true
    · refine .inl ⟨rfl, negative, ?_⟩
      show (newBitmap memory _ _ >>= _) = _
      rw [newBitmap, if_pos negative]
      rfl
    · refine .inr ⟨fun h => negative h.2, ?_⟩
      show ∃ c, (newBitmap memory _ _ >>= _) = _ ∧ _
      rw [newBitmap, if_neg negative]
      exact ⟨_, rfl, rfl, rfl⟩

/-- A blank with a size that fits. -/
theorem blank_ok {e : Extent} (w : font.charHeight >>> 1 = BitVec.ofNat 32 e.w) (h : font.charHeight = BitVec.ofNat 32 e.h) :
    ∃ c, font.blank memory = .ok c ∧ c.toLScreen.Has e := by
  let cleared : LScreen := ofCells e fun c => if c < e.w * e.h then 0 else memory c
  have array : ¬ (BitVec.ofNat 32 e.w * BitVec.ofNat 32 e.h).msb = true := by
    rw [area_word, msb_word e.area]
    decide
  have new : newBitmap memory (font.charHeight >>> 1) font.charHeight = .ok cleared := by
    rw [w, h, newBitmap, if_neg array, LScreen.construct_eq]
  refine ⟨⟨⟨cleared.fill font.fontEmptyColor, 0, 0⟩, -1, false⟩, ?_, ?_⟩
  · rw [Glyphs.blank, new]
    rfl
  · show (cleared.fill font.fontEmptyColor).Has e
    rw [fill_eq (has_ofCells e _)]
    exact has_withCells (has_ofCells e _) _

/-- A bitmap of a font whose glyphs are whole can be scaled if its sizes fit, before and after. -/
theorem scalable_iff {n : Nat} (memory : Nat → BitVec 32) (whole : font.Whole) (char : UInt16) :
    Scalable memory font n char ↔ ∃ e : Extent, font.bitmapWidth char = BitVec.ofNat 32 e.w ∧
      font.bitmapHeight char = BitVec.ofNat 32 e.h ∧ e.Scales (n * 100 / font.charHeight.toNat) := by
  constructor
  · rintro ⟨c, e, bitmap, has, scales⟩
    rcases bitmapOf_spec memory font char with ⟨-, -, fault⟩ | ⟨-, c', bitmap', w, h⟩
    · rw [fault] at bitmap
      cases bitmap
    · obtain rfl := Except.ok.inj (bitmap.symm.trans bitmap')
      exact ⟨e, w.symm.trans has.w, h.symm.trans has.h, scales⟩
  · rintro ⟨e, w, h, scales⟩
    unfold Glyphs.bitmapWidth at w
    unfold Glyphs.bitmapHeight at h
    unfold Scalable Glyphs.bitmapOf
    cases there : font.getCharBitmap char with
    | some c =>
      rw [there] at w h
      have w : c.w = BitVec.ofNat 32 e.w := w
      have h : c.h = BitVec.ofNat 32 e.h := h
      obtain ⟨g, has⟩ := whole char c there
      have width : g.w = e.w := by rw [← toNat_word g.width, ← has.w, w, toNat_word e.width]
      have height : g.h = e.h := by rw [← toNat_word g.height, ← has.h, h, toNat_word e.height]
      exact ⟨c, e, rfl, ⟨w, h, by rw [has.size, width, height], has.inside⟩, scales⟩
    | none =>
      rw [there] at w h
      have w : font.charHeight >>> 1 = BitVec.ofNat 32 e.w := w
      have h : font.charHeight = BitVec.ofNat 32 e.h := h
      obtain ⟨c, made, has⟩ := @blank_ok memory font e w h
      exact ⟨c, e, made, has, scales⟩

/-- **A character that is printed.** -/
theorem printChar_cases (memory : Nat → BitVec 32) (font : Glyphs) (fontSize ratio : BitVec 32) (d : Drawing) (char : UInt16) :
    font.Negative ratio char ∧ font.printChar memory fontSize ratio d char = .error .negativeSize ∨
      ¬ font.Negative ratio char ∧ Overreads (scaledSize (font.bitmapWidth char) ratio)
        (scaledSize (font.bitmapHeight char) ratio) (font.offsetY fontSize (font.bitmapHeight char)) ∧
        font.printChar memory fontSize ratio d char = .error .outside ∨
      ¬ font.Negative ratio char ∧ ¬ Overreads (scaledSize (font.bitmapWidth char) ratio)
        (scaledSize (font.bitmapHeight char) ratio) (font.offsetY fontSize (font.bitmapHeight char)) ∧
        ∃ d', font.printChar memory fontSize ratio d char = .ok d' := by
  rcases bitmapOf_spec memory font char with ⟨missing, blank, fault⟩ | ⟨made, c, bitmap, w, h⟩
  · refine .inl ⟨.inl ⟨missing, blank⟩, ?_⟩
    rw [Glyphs.printChar, fault]
    rfl
  by_cases array : (scaledSize c.w ratio * scaledSize c.h ratio).msb = true
  · refine .inl ⟨.inr (w ▸ h ▸ array), ?_⟩
    rw [Glyphs.printChar, bitmap]
    show (c.scaleInto memory ratio >>= _) = _
    rw [MaskedScreen.scaleInto, if_pos array]
    rfl
  have positive : ¬ font.Negative ratio char := by
    rintro (blank | negative)
    · exact made blank
    · exact array (by rw [w, h]; exact negative)
  obtain ⟨imageW, imageH⟩ := c.scale_sizes memory ratio
  have copies := copyBitmap_overreads font (c.scale memory ratio) (font.offsetY fontSize c.h)
    (d.wrap fontSize (c.scale memory ratio).w).1 (d.wrap fontSize (c.scale memory ratio).w).2 d.screen
  rw [printChar_eq bitmap array, ← w, ← h, ← imageW, ← imageH]
  rcases copies with ⟨outside, fault⟩ | ⟨within, t, copied⟩
  · refine .inr (.inl ⟨positive, outside, ?_⟩)
    rw [fault]
    rfl
  · refine .inr (.inr ⟨positive, within, ?_⟩)
    rw [copied]
    exact ⟨_, rfl⟩

theorem drawChar_judged (memory : Nat → BitVec 32) (font : Glyphs) (fontSize : BitVec 32) :
    Loop.Judged FontFault.Arithmetic (font.drawChar memory fontSize (fontSize * 100 / font.charHeight))
      (font.CharEnds fontSize) (font.CharFails fontSize) := by
  apply Loop.Judged.of_cases
  intro d char
  by_cases prints : Prints char
  · rw [drawChar_of_prints prints]
    rcases printChar_cases memory font fontSize (fontSize * 100 / font.charHeight) d char with
      ⟨negative, fault⟩ | ⟨positive, outside, fault⟩ | ⟨positive, within, printed⟩
    · exact .inr (.inl ⟨fun ends => ends.2.1 negative, ⟨prints, negative⟩, .negativeSize, arithmetic_negativeSize, fault⟩)
    · exact .inl ⟨⟨prints, positive, outside⟩, .outside, not_arithmetic_outside, fault⟩
    · exact .inr (.inr ⟨fun ends => within ends.2.2, fun fails => positive fails.2, printed⟩)
  · obtain ⟨x, y, control⟩ :=
      drawChar_of_control font memory fontSize (fontSize * 100 / font.charHeight) d prints
    exact .inr (.inr ⟨fun ends => prints ends.1, fun fails => prints fails.1, _, control⟩)

/-- **`DrawText`** needs a height, and no array of negative size. -/
theorem drawText_spares_iff (memory : Nat → BitVec 32) (font : Glyphs) (screen : LScreen) (fontSize : BitVec 32)
    (text : Str16) :
    Spares FontFault.Arithmetic (font.drawText memory screen fontSize text) ↔
      font.charHeight ≠ 0 ∧ ∀ char ∈ text.takeWhile (¬ font.CharEnds fontSize ·), ¬ font.CharFails fontSize char := by
  unfold Glyphs.drawText
  split
  · rename_i zero
    exact iff_of_false (fun spares => spares .divideByZero arithmetic_divideByZero rfl) fun h => h.1 zero
  · rename_i some
    rw [Loop.spares_foldlM_iff (drawChar_judged memory font fontSize)]
    exact (and_iff_right some).symm

end Characters

/-! ## Loading and drawing -/

/-- Making the font of what has been read is safe if its sheets are. -/
theorem made_spares_iff {Node : Type} [DecidableEq Node] (fw : Firmware Node) (turns : Nat) (stack : Nat → LineBuffer)
    (headers : Uninitialised) (memory : Nat → BitVec 32) (fileName : Str16) (w : World Node) :
    Spares FontFault.Arithmetic (FontMaking.construct fw turns stack headers memory fileName w) ↔
      Spares FontFault.Arithmetic (Glyphs.loadSheets memory (FontReading.sheetsIn fw turns stack headers fileName w)) := by
  have stopped : ∀ fault ∈ (FontReading.read fw turns stack headers fileName w).stopped, ¬ FontFault.Arithmetic fault :=
    FontReading.read_stopped fileName w
  rw [FontMaking.construct_eq, FontReading.made, spares_bind_iff, FontReading.sheetsIn]
  apply and_iff_left
  intro font _
  cases stop : (FontReading.read fw turns stack headers fileName w).stopped with
  | none => exact spares_ok font
  | some fault => exact spares_error_iff.2 (stopped fault stop)

/-- **When the arithmetic of a font is safe**: no sheet that its file names fails, and for the font that has been
made some sheet has ink and no character fails. What comes behind a file that is missing, or an access outside of an
array, is left open. -/
theorem font_arithmetic_iff {Node : Type} [DecidableEq Node] (fw : Firmware Node) (turns : Nat) (stack : Nat → LineBuffer)
    (headers : Uninitialised) (memory : Nat → BitVec 32) (fileName : Str16) (w : World Node) (screen : LScreen)
    (fontSize : BitVec 32) (text : Str16) :
    Spares FontFault.Arithmetic (do
        let font ← FontMaking.construct fw turns stack headers memory fileName w
        font.drawText memory screen fontSize text) ↔
      (∀ sheet ∈ (FontReading.sheetsIn fw turns stack headers fileName w).takeWhile (¬ Overrun ·.1),
        ¬ SheetFails sheet) ∧
      ∀ font, FontMaking.construct fw turns stack headers memory fileName w = .ok font →
        (∃ sheet ∈ FontReading.sheetsIn fw turns stack headers fileName w, HasInk sheet.1) ∧
        ∀ char ∈ text.takeWhile (¬ font.CharEnds fontSize ·), ¬ font.CharFails fontSize char := by
  rw [spares_bind_iff, made_spares_iff]
  apply and_congr (Loop.spares_foldlM_iff (Glyphs.loadRead_judged memory) _ .new)
  refine forall_congr' fun font => forall_congr' fun made => ?_
  rw [FontMaking.construct_eq] at made
  have loaded : Glyphs.loadSheets memory (FontReading.sheetsIn fw turns stack headers fileName w) = .ok font :=
    (FontReading.made_eq_ok made).2
  rw [drawText_spares_iff, Glyphs.charHeight_loadSheets loaded]

/-- The same invariant as `loadSheets_whole`, for the heights. -/
theorem Glyphs.loadSheets_fits {memory : Nat → BitVec 32} {sheets : List (LScreen × Str16)} {font : Glyphs}
    (loaded : Glyphs.loadSheets memory sheets = .ok font) : font.Fits := by
  refine Loop.foldlM_keeps (motive := Glyphs.Fits) ?_ loaded Glyphs.new_fits
  intro font sheet font' turn fits
  unfold Glyphs.loadRead at turn
  split at turn
  · cases turn
  · exact fits.loadSheet turn

/-- **The fonts that are made**: no glyph is higher than `CharHeight`, and every glyph has an array of its size. -/
theorem construct_sound {Node : Type} [DecidableEq Node] {fw : Firmware Node} {turns : Nat} {stack : Nat → LineBuffer}
    {headers : Uninitialised} {memory : Nat → BitVec 32} {fileName : Str16} {w : World Node} {font : Glyphs}
    (made : FontMaking.construct fw turns stack headers memory fileName w = .ok font) : font.Fits ∧ font.Whole := by
  rw [FontMaking.construct_eq] at made
  have loaded := (FontReading.made_eq_ok made).2
  exact ⟨Glyphs.loadSheets_fits loaded, Glyphs.loadSheets_whole loaded⟩

/-- A world whose only file is the font `F`, which names no bitmap. -/
def nameOnly : World Str16 := World.start fun path => if path = [70] then some [78] else none

/-- Its `CharHeight` is zero; so is the length of an empty character set, and a sheet of one colour has a box
of negative height. -/
theorem font_divides_by_zero :
    ¬ Spares FontFault.Arithmetic (do
        let font ← FontMaking.construct flawless 3 (fun _ => FontRun.noMemory) zeroed (fun _ => 0) [70] nameOnly
        font.drawText (fun _ => 0) (ofCells square fun _ => 0) 2 [65]) ∧
      ¬ Spares FontFault.Arithmetic (Glyphs.new.loadSheet (fun _ => 0) (rightColumn square) []) ∧
      ¬ Spares FontFault.Arithmetic (Glyphs.new.loadSheet (fun _ => 0) (ofCells square fun _ => 0) [65]) := by
  have read : (FontReading.read flawless 3 (fun _ => FontRun.noMemory) zeroed [70] nameOnly).stopped = none := by
    decide +kernel
  have sheets : (FontReading.read flawless 3 (fun _ => FontRun.noMemory) zeroed [70] nameOnly).sheets = [] :=
    List.eq_nil_of_length_eq_zero (by decide +kernel)
  have blank : ¬ HasInk (ofCells square fun _ => 0) := by
    rintro ⟨c, r, left, up, other⟩
    apply other
    rw [LScreen.pixel_eq (has_ofCells square _) left up, LScreen.pixel_eq (has_ofCells square _) (by decide) (by decide)]
    rfl
  refine ⟨?_, ?_, ?_⟩
  · rw [FontMaking.construct_eq, FontReading.made, sheets, read]
    exact fun spares => spares .divideByZero arithmetic_divideByZero rfl
  · have ink : HasInk (rightColumn square) := ⟨1, 0, by decide, by decide, by decide⟩
    rcases Glyphs.loadSheet_ink (fun _ => 0) (by decide) (by decide) ink [] .new with ⟨-, fault⟩ | ⟨some, -⟩
    · rw [fault]
      exact fun spares => spares .divideByZero arithmetic_divideByZero rfl
    · exact absurd rfl some
  · rw [Glyphs.loadSheet_blank (fun _ => 0) blank (v := 0) (by decide)]
    exact fun spares => spares .negativeSize arithmetic_negativeSize rfl

end Lavoro.Screen
