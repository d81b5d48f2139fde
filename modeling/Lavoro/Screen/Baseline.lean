import Lavoro.Screen.DrawText

/-!
# Where glyphs of different heights are drawn

For a glyph that is less high than `CharHeight` the loop over its rows begins at `OffsetY`, which is what
it lacks, scaled and rounded up. But `OffsetY` is taken off again both where a pixel is read and where it
is put: all glyphs are drawn from the top of the line on.
-/

namespace Lavoro.Screen
open Lib LScreen

/-! ## Fonts that have been loaded -/

namespace Glyphs

/-- No glyph is higher than `CharHeight`. -/
def Fits (font : Glyphs) : Prop :=
  ∀ char glyph, font.getCharBitmap char = some glyph → glyph.h.toNat ≤ font.charHeight.toNat

theorem new_fits : new.Fits := by
  intro char glyph there
  rw [getCharBitmap_new] at there
  cases there

theorem Fits.store {font : Glyphs} (h : font.Fits) (char : UInt16) (charBitmap : MaskedScreen) :
    (font.store char charBitmap).Fits := by
  intro c glyph there
  rw [charHeight_store]
  rcases getCharBitmap_store there with rfl | before
  · exact Nat.le_max_right _ _
  · exact Nat.le_trans (h c glyph before) (Nat.le_max_left _ _)

theorem Fits.loadChars {memory : Nat → BitVec 32} {s : Sheet} {charSet : Str16} {j : BitVec 32} {font font' : Glyphs}
    (h : font.Fits) (loaded : Glyphs.loadChars memory s charSet j font = .ok font') : font'.Fits := by
  induction charSet generalizing j font with
  | nil =>
    cases loaded
    exact h
  | cons char charSet ih =>
    rw [Glyphs.loadChars] at loaded
    split at loaded
    · obtain ⟨⟨startscan, stop⟩, -, rest⟩ := Loop.bind_eq_ok loaded
      dsimp only at rest
      split at rest
      · obtain ⟨charBitmap, -, rest⟩ := Loop.bind_eq_ok rest
        exact ih (h.store char charBitmap) rest
      · exact ih h rest
    · cases loaded
      exact h

theorem Fits.loadSheet {memory : Nat → BitVec 32} {bitmap : LScreen} {charSet : Str16} {font font' : Glyphs} (h : font.Fits)
    (loaded : font.loadSheet memory bitmap charSet = .ok font') : font'.Fits := by
  obtain ⟨emptyColor, -, rest⟩ := Loop.bind_eq_ok loaded
  obtain ⟨box, -, rest⟩ := Loop.bind_eq_ok rest
  dsimp only at rest
  have same : Fits { font with fontEmptyColor := emptyColor } := h
  split at rest
  · cases rest
  · split at rest
    · cases rest
    · exact same.loadChars rest

variable {Node : Type} [DecidableEq Node]

/-- **`LoadBitmap`** keeps it so. -/
theorem Fits.loadBitmap {fw : Firmware Node} {headers : Uninitialised} {memory : Nat → BitVec 32}
    {bitmapFileName charSet : Str16} {font font' : Glyphs} {w : World Node} (h : font.Fits)
    (loaded : (font.loadBitmap fw headers memory bitmapFileName charSet w).1 = .ok font') : font'.Fits := by
  unfold Glyphs.loadBitmap at loaded
  dsimp only at loaded
  split at loaded
  · cases loaded
  · exact h.loadSheet loaded

end Glyphs

/-! ## The rows of the calls -/

/-- `OffsetY` as it is meant: what a bitmap of this height lacks, scaled and rounded up. -/
def baselineOffset (charHeight height fontSize : Nat) : Nat := (charHeight - height) * fontSize ⌈/⌉ charHeight

/-- Every row of a bitmap is drawn `OffsetY` rows below its place in the line. -/
def Baseline (font : Glyphs) (fontSize : Nat) (d : Drawing) : Prop :=
  ∀ p ∈ d.printed, ∀ call ∈ p.calls,
    call.y = p.currentY + BitVec.ofNat 32 (baselineOffset font.charHeight.toNat p.height.toNat fontSize) + call.row

/-- A pixel of the bitmap has another colour than `FontEmptyColor`. -/
def Visible (font : Glyphs) (c : MaskedScreen) : Prop :=
  ∃ i j v, i < c.w.toNat ∧ j < c.h.toNat ∧ c.pixel i j = some v ∧ v ≠ font.fontEmptyColor

section Rows

variable {font : Glyphs} {memory : Nat → BitVec 32} {n : Nat}

theorem charHeight_pos (some : font.charHeight ≠ 0) : 0 < font.charHeight.toNat := by
  apply Nat.pos_of_ne_zero
  exact fun zero => some (BitVec.eq_of_toNat_eq zero)

/-- The offset is not negative, whatever overflows on its way. -/
theorem offsetY_small {height : BitVec 32} (some : font.charHeight ≠ 0) (fits : height.toNat ≤ font.charHeight.toNat)
    (small : n < 2147483648) : (font.offsetY (BitVec.ofNat 32 n) height).toNat < 2147483648 := by
  have pos := charHeight_pos some
  have whole := ((font.charHeight - height) * BitVec.ofNat 32 n + font.charHeight - 1).isLt
  rw [Glyphs.offsetY, BitVec.toNat_udiv]
  rcases Nat.lt_or_ge 1 font.charHeight.toNat with more | one
  · have half := Nat.div_le_div_left (c := 2) more (by decide)
      (a := ((font.charHeight - height) * BitVec.ofNat 32 n + font.charHeight - 1).toNat)
    omega
  · -- the height is 0 or 1, and so is what it lacks
    have unit : font.charHeight = 1 := BitVec.eq_of_toNat_eq (show font.charHeight.toNat = 1 by omega)
    have value : (font.charHeight - height) * BitVec.ofNat 32 n + font.charHeight - 1 =
        (font.charHeight - height) * BitVec.ofNat 32 n := by
      rw [unit]
      grind
    rw [value, unit]
    rcases (show height.toNat = 0 ∨ height.toNat = 1 by omega) with zero | full
    · obtain rfl : height = 0 := BitVec.eq_of_toNat_eq zero
      have all : (1 - 0) * BitVec.ofNat 32 n = BitVec.ofNat 32 n := by grind
      rw [all, toNat_word small]
      exact Nat.lt_of_le_of_lt (Nat.div_le_self n _) small
    · obtain rfl : height = 1 := BitVec.eq_of_toNat_eq full
      have none : (1 - 1) * BitVec.ofNat 32 n = 0 := by grind
      rw [none]
      decide

theorem baselineOffset_le {charHeight height : Nat} (pos : 0 < charHeight) : baselineOffset charHeight height n ≤ n := by
  apply (place_le_iff pos).2
  exact Nat.mul_le_mul_right n (Nat.sub_le charHeight height)

/-- Only bitmaps of the full height lack nothing. -/
theorem baselineOffset_eq_zero_iff {charHeight height : Nat} (pos : 0 < charHeight) (some : 0 < n) (fits : height ≤ charHeight) :
    baselineOffset charHeight height n = 0 ↔ height = charHeight := by
  apply (place_eq_zero_iff pos some).trans
  omega

/-- The scaled bitmaps are as high as is meant. -/
theorem scaled_height {c : MaskedScreen} {r : Nat} (small : c.h.toNat * r + 99 < 2147483648) :
    (c.scale memory (BitVec.ofNat 32 r)).h = BitVec.ofNat 32 (place r 100 c.h.toNat) := by
  have sized := scaledSize_eq small
  rw [ofNat_eq_of_toNat_eq (x := c.h) rfl] at sized
  exact (MaskedScreen.scale_sizes memory c _).2.trans sized

/-- `ratio`. -/
theorem ratio_eq (font : Glyphs) (small : n * 100 < 4294967296) :
    BitVec.ofNat 32 n * 100 / font.charHeight = BitVec.ofNat 32 (n * 100 / font.charHeight.toNat) := by
  have product : (BitVec.ofNat 32 n * 100).toNat = n * 100 := by
    rw [show BitVec.ofNat 32 n * 100 = BitVec.ofNat 32 (n * 100) from (BitVec.ofNat_mul n 100).symm, BitVec.toNat_ofNat]
    exact Nat.mod_eq_of_lt small
  have quotient := Nat.div_le_self (n * 100) font.charHeight.toNat
  apply BitVec.eq_of_toNat_eq
  rw [BitVec.toNat_udiv, product, BitVec.toNat_ofNat]
  exact (Nat.mod_eq_of_lt (Nat.lt_of_le_of_lt quotient small)).symm

/-- The bitmap of a character is its glyph, or a blank of the full height. -/
theorem bitmapOf_cases {char : UInt16} {c : MaskedScreen} (made : font.bitmapOf memory char = .ok c) :
    font.getCharBitmap char = some c ∨
      font.getCharBitmap char = none ∧ c.w = font.charHeight >>> 1 ∧ c.h = font.charHeight := by
  unfold Glyphs.bitmapOf at made
  split at made
  · rename_i glyph there
    cases made
    exact .inl there
  · rename_i missing
    refine .inr ⟨missing, ?_⟩
    obtain ⟨new, made', done⟩ := Loop.bind_eq_ok made
    cases done
    unfold newBitmap at made'
    split at made'
    · cases made'
    · cases made'
      exact ⟨rfl, rfl⟩

/-- A scaled bitmap is not higher than a line. -/
theorem image_height_le {char : UInt16} {p : Printed} (size : n * 100 + 99 < 2147483648)
    (fits : p.height.toNat ≤ font.charHeight.toNat)
    (printed : PrintedAs memory font (BitVec.ofNat 32 n) (BitVec.ofNat 32 (n * 100 / font.charHeight.toNat)) char p) :
    p.image.h.toNat ≤ n := by
  obtain ⟨c, -, height, scaled⟩ := printed.bitmap
  have scaledUp : c.h.toNat * (n * 100 / font.charHeight.toNat) ≤ n * 100 :=
    calc c.h.toNat * (n * 100 / font.charHeight.toNat)
        ≤ font.charHeight.toNat * (n * 100 / font.charHeight.toNat) := Nat.mul_le_mul_right _ (height ▸ fits)
      _ ≤ n * 100 := Nat.mul_div_le _ _
  have numerator : c.h.toNat * (n * 100 / font.charHeight.toNat) + 99 < 2147483648 := by omega
  rw [← MaskedScreen.scale_of_scaleInto scaled, scaled_height numerator, toNat_word (place_small numerator)]
  apply (place_le_iff (by decide)).2
  rw [Nat.mul_comm 100]
  exact scaledUp

/-- The calls for a character. -/
theorem mem_printed_calls {char : UInt16} {p : Printed} (size : n * 100 + 99 < 2147483648) (some : font.charHeight ≠ 0)
    (fits : p.height.toNat ≤ font.charHeight.toNat)
    (printed : PrintedAs memory font (BitVec.ofNat 32 n) (BitVec.ofNat 32 (n * 100 / font.charHeight.toNat)) char p)
    (call : SetCall) :
    call ∈ p.calls ↔ ∃ i j v, i < p.image.w.toNat ∧ j < p.image.h.toNat ∧ p.image.pixel i j = .some v ∧
      v ≠ font.fontEmptyColor ∧
      call = ⟨BitVec.ofNat 32 i, BitVec.ofNat 32 j, p.currentX + BitVec.ofNat 32 i, p.currentY + BitVec.ofNat 32 j⟩ := by
  obtain ⟨before, after, copied⟩ := printed.copied
  have low := image_height_le size fits printed
  have offset := offsetY_small (n := n) some fits (by omega)
  exact mem_calls copied (by omega) call

/-- **A character** is drawn from its place in the line on, which is right where it lacks nothing. -/
theorem printed_baseline_iff {char : UInt16} {p : Printed} (size : n * 100 + 99 < 2147483648) (some : font.charHeight ≠ 0)
    (fits : p.height.toNat ≤ font.charHeight.toNat)
    (printed : PrintedAs memory font (BitVec.ofNat 32 n) (BitVec.ofNat 32 (n * 100 / font.charHeight.toNat)) char p) :
    (∀ call ∈ p.calls, call.y = p.currentY +
        BitVec.ofNat 32 (baselineOffset font.charHeight.toNat p.height.toNat n) + call.row) ↔
      p.height = font.charHeight ∨ ¬ Visible font p.image := by
  have pos := charHeight_pos some
  have low := image_height_le size fits printed
  have calls := mem_printed_calls size some fits printed
  constructor
  · intro rows
    by_contra lacks
    rw [not_or, not_not] at lacks
    obtain ⟨short, i, j, v, left, up, read, drawn⟩ := lacks
    have row := rows _ ((calls _).2 ⟨i, j, v, left, up, read, drawn, rfl⟩)
    dsimp only at row
    -- then it is not moved at all, though it lacks something
    have moved : BitVec.ofNat 32 (baselineOffset font.charHeight.toNat p.height.toNat n) = 0 := by grind
    have most : baselineOffset font.charHeight.toNat p.height.toNat n ≤ n := baselineOffset_le pos
    have value := congrArg BitVec.toNat moved
    rw [toNat_word (by omega)] at value
    exact short (BitVec.eq_of_toNat_eq ((baselineOffset_eq_zero_iff pos (by omega) fits).1 value))
  · rintro whole call mem
    obtain ⟨i, j, v, left, up, read, drawn, rfl⟩ := (calls call).1 mem
    rcases whole with full | blank
    · have none : baselineOffset font.charHeight.toNat p.height.toNat n = 0 := by
        rw [full, baselineOffset, Nat.sub_self]
        exact place_zero n _
      rw [none]
      grind
    · exact absurd ⟨i, j, v, left, up, read, drawn⟩ blank

/-- **When glyphs share a baseline**: those that are printed are as high as `CharHeight`, or show nothing. -/
theorem drawText_baseline_iff (memory : Nat → BitVec 32) {font : Glyphs} (fits : font.Fits) (screen : LScreen)
    (size : n * 100 + 99 < 2147483648) (text : Str16) {d : Drawing}
    (drawn : font.drawText memory screen (BitVec.ofNat 32 n) text = .ok d) :
    Baseline font n d ↔ ∀ char ∈ text, Prints char → ∀ glyph, font.getCharBitmap char = some glyph →
      glyph.h = font.charHeight ∨
        ¬ Visible font (glyph.scale memory (BitVec.ofNat 32 (n * 100 / font.charHeight.toNat))) := by
  have some : font.charHeight ≠ 0 := by
    intro zero
    rw [Glyphs.drawText, if_pos zero] at drawn
    cases drawn
  have printed := drawText_printed drawn
  rw [ratio_eq font (by omega)] at printed
  constructor
  · intro baseline char mem prints glyph there
    obtain ⟨p, own, as⟩ := exists_of_forall₂_left printed (List.mem_filter.2 ⟨mem, decide_eq_true prints⟩)
    obtain ⟨c, bitmap, height, scaled⟩ := as.bitmap
    rw [Glyphs.bitmapOf, there] at bitmap
    obtain rfl := Except.ok.inj bitmap
    have low : p.height.toNat ≤ font.charHeight.toNat := height ▸ fits char glyph there
    have rows := (printed_baseline_iff size some low as).1 (baseline p own)
    rw [height] at rows
    rw [MaskedScreen.scale_of_scaleInto scaled]
    exact rows
  · intro glyphs p own
    obtain ⟨char, mem, as⟩ := exists_of_forall₂_right printed own
    obtain ⟨inText, prints⟩ := List.mem_filter.1 mem
    obtain ⟨c, bitmap, height, scaled⟩ := as.bitmap
    rcases bitmapOf_cases bitmap with there | ⟨-, -, full⟩
    · have low : p.height.toNat ≤ font.charHeight.toNat := height ▸ fits char c there
      apply (printed_baseline_iff size some low as).2
      rw [← MaskedScreen.scale_of_scaleInto scaled, height]
      exact glyphs char inText (of_decide_eq_true prints) c there
    · have whole : p.height = font.charHeight := height.trans full
      exact (printed_baseline_iff size some (whole ▸ Nat.le_refl _) as).2 (.inl whole)

end Rows

/-- A sheet whose right column is black. -/
def rightColumn (e : Extent) : LScreen := ofCells e fun k => if k % e.w = 1 then 0 else 0xffffff

/-- A font of two sheets: `A` is one pixel high and `B` is two. -/
def twoHeights : Except FontFault Glyphs := do
  let font ← Glyphs.new.loadSheet (fun _ => 0) (rightColumn line) [65]
  font.loadSheet (fun _ => 0) (rightColumn square) [66]

theorem twoHeights_fits {font : Glyphs} (loaded : twoHeights = .ok font) : font.Fits := by
  obtain ⟨first, short, tall⟩ := Loop.bind_eq_ok loaded
  exact (Glyphs.new_fits.loadSheet short).loadSheet tall

theorem eq_ok_of_toOption {α : Type} {x : Except FontFault α} {a : α} (h : x.toOption = some a) : x = .ok a := by
  cases x with
  | error fault => cases h
  | ok b => exact congrArg Except.ok (Option.some.inj h)

/-- The higher of them is drawn on the baseline. -/
theorem tall_on_baseline :
    ∃ font d, twoHeights = .ok font ∧ font.drawText (fun _ => 0) (ofCells square fun _ => 0) 2 [66] = .ok d ∧
      Baseline font 2 d := by
  have run : (do
      let font ← twoHeights.toOption
      let d ← (font.drawText (fun _ => 0) (ofCells square fun _ => 0) 2 [66]).toOption
      let glyph ← font.getCharBitmap 66
      return (d.printed.length, glyph.h, font.charHeight)) = some (1, 2, 2) := by decide +kernel
  obtain ⟨font, loaded, rest⟩ := Option.bind_eq_some_iff.1 run
  obtain ⟨d, drawn, rest⟩ := Option.bind_eq_some_iff.1 rest
  obtain ⟨glyph, there, values⟩ := Option.bind_eq_some_iff.1 rest
  have values : (d.printed.length, glyph.h, font.charHeight) = (1, 2, 2) := Option.some.inj values
  simp only [Prod.mk.injEq] at values
  obtain ⟨-, height, charHeight⟩ := values
  have loaded := eq_ok_of_toOption loaded
  have drawn := eq_ok_of_toOption drawn
  refine ⟨font, d, loaded, drawn, ?_⟩
  apply (drawText_baseline_iff (n := 2) (fun _ => 0) (twoHeights_fits loaded) _ (by decide) [66] drawn).2
  intro char mem _ glyph' there'
  obtain rfl := List.mem_singleton.1 mem
  obtain rfl := Option.some.inj (there.symm.trans there')
  exact .inl (height.trans charHeight.symm)

/-- The lower one should be drawn in the lower of two rows, and is drawn in the upper one. -/
theorem short_above_baseline :
    ∃ font d, twoHeights = .ok font ∧ font.drawText (fun _ => 0) (ofCells square fun _ => 0) 2 [65] = .ok d ∧
      d.printed.map (fun p => (p.currentY, p.calls)) = [(0, [⟨0, 0, 0, 0⟩])] ∧
      baselineOffset 2 1 2 = 1 ∧ ¬ Baseline font 2 d := by
  have run : (do
      let font ← twoHeights.toOption
      let d ← (font.drawText (fun _ => 0) (ofCells square fun _ => 0) 2 [65]).toOption
      return (font.charHeight, d.printed.map fun p => (p.height, p.currentY, p.calls))) =
        some (2, [(1, 0, [⟨0, 0, 0, 0⟩])]) := by decide +kernel
  obtain ⟨font, loaded, rest⟩ := Option.bind_eq_some_iff.1 run
  obtain ⟨d, drawn, values⟩ := Option.bind_eq_some_iff.1 rest
  have values := Option.some.inj values
  simp only [Prod.mk.injEq] at values
  obtain ⟨charHeight, printed⟩ := values
  obtain ⟨p, others, list, own, none⟩ := List.map_eq_cons_iff.1 printed
  obtain rfl := List.map_eq_nil_iff.1 none
  simp only [Prod.mk.injEq] at own
  obtain ⟨height, currentY, calls⟩ := own
  refine ⟨font, d, eq_ok_of_toOption loaded, eq_ok_of_toOption drawn, ?_, rfl, fun baseline => ?_⟩
  · rw [list, List.map_cons, List.map_nil, currentY, calls]
  · have row := baseline p (list ▸ List.mem_cons_self) ⟨0, 0, 0, 0⟩ (calls ▸ List.mem_cons_self)
    rw [charHeight, height, currentY] at row
    exact absurd row (by decide)

end Lavoro.Screen
