import Mathlib.Order.Lattice.Nat
import Lavoro.Lib.Faults
import Lavoro.Screen.Sheets

/-!
# Sheets that cannot be loaded

`LoadBitmap` divides by the length of the character set and allocates a flag for every row of the box of the
ink. On a sheet of one colour this box is what its start leaves: `maxHeight - minHeight` is `1 - H`. A sheet
whose array is smaller than the sheet is read outside of it, before either comes up.
-/

namespace Lavoro.Screen
open Lib LScreen Console

/-- A division by zero, an array of negative size, or an index outside of `scanline`. -/
def FontFault.Arithmetic (fault : FontFault) : Prop := fault ≠ .outside ∧ fault ≠ .trapped

theorem arithmetic_divideByZero : FontFault.Arithmetic .divideByZero := ⟨FontFault.noConfusion, FontFault.noConfusion⟩

theorem arithmetic_negativeSize : FontFault.Arithmetic .negativeSize := ⟨FontFault.noConfusion, FontFault.noConfusion⟩

theorem not_arithmetic_outside : ¬ FontFault.Arithmetic .outside := fun bad => bad.1 rfl

theorem not_arithmetic_trapped : ¬ FontFault.Arithmetic .trapped := fun bad => bad.2 rfl

/-- The array is smaller than the sheet. -/
def Overrun (s : LScreen) : Prop := ¬ (s.w * s.h).msb = true ∧ 2147483648 ≤ s.w.toNat * s.h.toNat

instance : DecidablePred Overrun := fun _ => inferInstanceAs (Decidable (_ ∧ _))

/-- A pixel has another colour than the corner. -/
def HasInk (s : LScreen) : Prop := ∃ c r, c < s.w.toNat ∧ r < s.h.toNat ∧ s.pixel c r ≠ s.pixel 0 0

/-- The size of the array is negative, the character set is empty, or the sheet has no ink and more than one row. -/
def SheetFails (sheet : LScreen × Str16) : Prop :=
  (sheet.1.w * sheet.1.h).msb = true ∨ BitVec.ofNat 32 sheet.2.length = 0 ∨
    ¬ HasInk sheet.1 ∧ 2 ≤ sheet.1.h.toNat ∧ sheet.1.h.toNat ≤ 2147483649

namespace Glyphs

/-- `LoadBitmap`, given what has become of `bitmap`. -/
def loadRead (memory : Nat → BitVec 32) (font : Glyphs) (sheet : LScreen × Str16) : Except FontFault Glyphs :=
  if (sheet.1.w * sheet.1.h).msb then .error .negativeSize else font.loadSheet memory sheet.1 sheet.2

theorem loadBitmap_eq {Node : Type} [DecidableEq Node] (fw : Firmware Node) (headers : Uninitialised)
    (memory : Nat → BitVec 32) (bitmapFileName charSet : Str16) (font : Glyphs) (w : World Node) :
    font.loadBitmap fw headers memory bitmapFileName charSet w =
      (font.loadRead memory ((LBitmap.construct fw (fontsDirectory ++ bitmapFileName) headers w).1, charSet),
        (LBitmap.construct fw (fontsDirectory ++ bitmapFileName) headers w).2) := rfl

end Glyphs

section Lines

variable {Node : Type} [DecidableEq Node]

/-- What a line gives `LoadBitmap` to work on: nothing if it is empty, else a sheet and a character set. -/
def sheetsOfLine (fw : Firmware Node) (headers : Uninitialised) (szLine : Str16) (w : World Node) :
    Except FontFault (List (LScreen × Str16)) × World Node :=
  if szLine.headD 0 = 0 then (.ok [], w)
  else
    match fileStop fw (fontsDirectory ++ bitmapFileName szLine) w with
    | some fault => (.error fault, w)
    | none =>
      let bitmap := LBitmap.construct fw (fontsDirectory ++ bitmapFileName szLine) headers w
      (.ok [(bitmap.1, charSet szLine)], bitmap.2)

/-- **A line** does to a font what its sheets do. -/
theorem loadLine_eq (fw : Firmware Node) (headers : Uninitialised) (memory : Nat → BitVec 32) (szLine : Str16)
    (font : Glyphs) (w : World Node) :
    font.loadLine fw headers memory szLine w =
      ((sheetsOfLine fw headers szLine w).1 >>= fun sheets => sheets.foldlM (Glyphs.loadRead memory) font,
        (sheetsOfLine fw headers szLine w).2) := by
  unfold Glyphs.loadLine sheetsOfLine
  split
  · rfl
  · cases fileStop fw (fontsDirectory ++ bitmapFileName szLine) w with
    | some fault => rfl
    | none =>
      dsimp only
      rw [Glyphs.loadBitmap_eq]
      generalize LBitmap.construct fw (fontsDirectory ++ bitmapFileName szLine) headers w = bitmap
      have once : font.loadRead memory (bitmap.1, charSet szLine) =
          [(bitmap.1, charSet szLine)].foldlM (Glyphs.loadRead memory) font :=
        (bind_pure (font.loadRead memory (bitmap.1, charSet szLine))).symm
      rw [once]
      rfl

/-- What ends a line in front of its bitmap is nothing arithmetical. -/
theorem fileStop_spares {fw : Firmware Node} {path : Str16} {w : World Node} {fault : FontFault}
    (stop : fileStop fw path w = some fault) : ¬ FontFault.Arithmetic fault := by
  unfold fileStop at stop
  split at stop
  · obtain rfl := Option.some.inj stop
    exact not_arithmetic_outside
  · split at stop
    · obtain rfl := Option.some.inj stop
      exact not_arithmetic_trapped
    · cases stop

theorem sheetsOfLine_spares (fw : Firmware Node) (headers : Uninitialised) (szLine : Str16) (w : World Node) :
    Spares FontFault.Arithmetic (sheetsOfLine fw headers szLine w).1 := by
  unfold sheetsOfLine
  split
  · exact spares_ok _
  · split
    · rename_i fault stop
      exact spares_error_iff.2 (fileStop_spares stop)
    · exact spares_ok _

end Lines

section Sheet

variable {s : LScreen} {v : BitVec 32}

theorem exists_corner (s : LScreen) : ∃ v, s.getBuffer 0 0 = some v := by
  have index : 0 * s.w + 0 = 0 := by grind
  unfold LScreen.getBuffer
  rw [index]
  dsimp only
  split
  · exact ⟨_, rfl⟩
  · exact ⟨_, rfl⟩

/-! ## One colour -/

namespace InkBox

/-- **On a sheet of one colour** the box is what its start leaves. -/
theorem find_blank (blank : ¬ HasInk s) (corner : s.getBuffer 0 0 = some v) : find s v = .ok ⟨s.w, 1, s.h, 1⟩ := by
  have turn : ∀ i ∈ List.range s.h.toNat, ∀ j ∈ List.range s.w.toNat, ∀ b, visit s v i b j = pure b := by
    intro i up j left b
    have same : s.pixel j i = s.pixel 0 0 := by
      by_contra other
      exact blank ⟨j, i, List.mem_range.1 left, List.mem_range.1 up, other⟩
    rw [visit, readPixel_of_getBuffer (same.trans corner)]
    show (if v ≠ v then _ else _) = _
    rw [if_neg (not_not.2 rfl)]
  have loops : (List.range s.h.toNat).foldlM (fun b i => (List.range s.w.toNat).foldlM (visit s v i) b) (start s) =
      pure (start s) := by
    rw [Loop.foldlM_eq_pure (g := fun b _ => b) fun i up b => by
      rw [Loop.foldlM_eq_pure (g := fun b _ => b) (turn i up), List.foldl_fixed], List.foldl_fixed]
  rw [find, loops]
  rfl

end InkBox

/-- No column of it is full. -/
theorem pscanned_blank {m : BitVec 32} (corner : s.getBuffer 0 0 = some v) :
    (Sheet.mk s v ⟨s.w, 1, s.h, 1⟩ m).pscanned 0 = .ok false := by
  have turn : ∀ i ∈ (Sheet.mk s v ⟨s.w, 1, s.h, 1⟩ m).rows, ∀ p,
      (do return p || (← (Sheet.mk s v ⟨s.w, 1, s.h, 1⟩ m).scanPixel 0 i)) = (pure p : Except FontFault Bool) := by
    intro i mem p
    obtain ⟨t, below, own⟩ := List.mem_map.1 mem
    have below : t < 1 - s.h.toNat := List.mem_range.1 below
    have none : s.h = 0 := BitVec.eq_of_toNat_eq (show s.h.toNat = 0 by omega)
    obtain rfl : t = 0 := by omega
    have row : i = 0 := by
      rw [← own]
      show s.h + 0 = 0
      rw [none]
      rfl
    have scanned : (Sheet.mk s v ⟨s.w, 1, s.h, 1⟩ m).scanPixel 0 i = .ok false := by
      have inside : (0 - s.h).toNat < (1 - s.h).toInt.toNat := by
        rw [none]
        decide
      rw [row, Sheet.scanPixel, readPixel_of_getBuffer corner]
      show (if (0 - s.h).toNat < (1 - s.h).toInt.toNat then _ else _) = _
      rw [if_pos inside]
      exact congrArg Except.ok (decide_eq_false (not_not.2 rfl))
    rw [scanned]
    show Except.ok (p || false) = _
    rw [Bool.or_false]
    rfl
  rw [Sheet.pscanned, Loop.foldlM_eq_pure (g := fun p _ => p) turn, List.foldl_fixed]
  rfl

namespace Glyphs

/-- It has no characters. -/
theorem loadChars_blank (memory : Nat → BitVec 32) {m : BitVec 32} (corner : s.getBuffer 0 0 = some v) (charSet : Str16)
    (font : Glyphs) : loadChars memory ⟨s, v, ⟨s.w, 1, s.h, 1⟩, m⟩ charSet s.w font = .ok font := by
  have behind (charSet : Str16) {j : BitVec 32} (ends : ¬ j.ult 1 = true) :
      loadChars memory ⟨s, v, ⟨s.w, 1, s.h, 1⟩, m⟩ charSet j font = .ok font := by
    cases charSet with
    | nil => rfl
    | cons char charSet =>
      rw [loadChars, if_neg ends]
      rfl
  cases charSet with
  | nil => rfl
  | cons char charSet =>
    by_cases going : s.w.ult 1 = true
    · have zero : s.w = 0 := by
        rw [BitVec.ult_iff_lt, BitVec.lt_def] at going
        exact BitVec.eq_of_toNat_eq (Nat.lt_one_iff.1 going)
      have column := pscanned_blank (m := m) corner
      have first : (Sheet.mk s v ⟨s.w, 1, s.h, 1⟩ m).scanColumns 1 0 (~~~0) true = .ok (~~~0, 1) := by
        rw [scanColumns_succ column (if_neg fun h => Bool.false_ne_true h.1), if_neg fun h => h.1 rfl]
        rfl
      have scanned : (Sheet.mk s v ⟨s.w, 1, s.h, 1⟩ m).scanColumns ((1 : BitVec 32).toNat - s.w.toNat) s.w (~~~0) true =
          .ok (~~~0, 1) := by
        rw [show s.w.toNat = 0 by rw [zero]; rfl]
        exact zero ▸ first
      rw [loadChars_cons memory going scanned, if_neg (not_not.2 rfl)]
      exact behind charSet (by decide)
    · exact behind _ going

/-- **A sheet of one colour.** -/
theorem loadSheet_blank (memory : Nat → BitVec 32) (blank : ¬ HasInk s) (corner : s.getBuffer 0 0 = some v)
    (charSet : Str16) (font : Glyphs) :
    font.loadSheet memory s charSet =
      if BitVec.ofNat 32 charSet.length = 0 then .error .divideByZero
      else if (1 - s.h).msb then .error .negativeSize
      else .ok { font with fontEmptyColor := v } := by
  rw [loadSheet_of_find memory charSet font (readPixel_of_getBuffer corner) (InkBox.find_blank blank corner)]
  dsimp only
  rw [loadChars_blank memory corner]

theorem flags_negative_iff (h : BitVec 32) : (1 - h).msb = true ↔ 2 ≤ h.toNat ∧ h.toNat ≤ 2147483649 := by
  have bound := h.isLt
  have one : (1 : BitVec 32).toNat = 1 := rfl
  rw [BitVec.msb_eq_true_iff_two_mul_ge, BitVec.toNat_sub, one]
  omega

/-! ## An array that is too small -/

/-- An index of some pixel is negative. -/
theorem exists_outside (overrun : Overrun s) :
    ∃ c r, c < s.w.toNat ∧ r < s.h.toNat ∧ s.getBuffer (BitVec.ofNat 32 c) (BitVec.ofNat 32 r) = none := by
  obtain ⟨array, product⟩ := overrun
  have positive : 0 < s.w.toNat := by
    rw [Nat.pos_iff_ne_zero]
    intro zero
    rw [zero, Nat.zero_mul] at product
    omega
  have small : (s.w * s.h).toNat < 2147483648 := by
    rw [BitVec.msb_eq_true_iff_two_mul_ge, BitVec.toNat_mul] at array
    rw [BitVec.toNat_mul]
    omega
  have more : 2147483648 < s.w.toNat * s.h.toNat := by
    apply Nat.lt_of_le_of_ne product
    intro exact'
    rw [BitVec.toNat_mul, ← exact'] at small
    exact absurd small (by decide)
  have row : 2147483648 / s.w.toNat < s.h.toNat := (Nat.div_lt_iff_lt_mul positive).2 (by rwa [Nat.mul_comm])
  have column : 2147483648 % s.w.toNat < s.w.toNat := Nat.mod_lt _ positive
  refine ⟨_, _, column, row, ?_⟩
  -- the first index that is too large for an `int`
  have word : BitVec.ofNat 32 s.w.toNat = s.w := ofNat_eq_of_toNat_eq rfl
  have area : BitVec.ofNat 32 (s.w * s.h).toNat = s.w * s.h := ofNat_eq_of_toNat_eq rfl
  have index : BitVec.ofNat 32 (2147483648 / s.w.toNat) * s.w + BitVec.ofNat 32 (2147483648 % s.w.toNat) =
      BitVec.ofNat 32 2147483648 :=
    calc BitVec.ofNat 32 (2147483648 / s.w.toNat) * s.w + BitVec.ofNat 32 (2147483648 % s.w.toNat)
        = BitVec.ofNat 32 (2147483648 / s.w.toNat) * BitVec.ofNat 32 s.w.toNat +
            BitVec.ofNat 32 (2147483648 % s.w.toNat) := by rw [word]
      _ = BitVec.ofNat 32 (2147483648 / s.w.toNat * s.w.toNat + 2147483648 % s.w.toNat) := by
        rw [BitVec.ofNat_add, BitVec.ofNat_mul]
      _ = BitVec.ofNat 32 2147483648 := by rw [Nat.div_add_mod']
  have passes : (BitVec.ofNat 32 2147483648).slt (s.w * s.h) = true := area ▸ slt_of_negative small (by decide)
  unfold LScreen.getBuffer
  rw [index]
  dsimp only
  rw [if_pos passes, if_pos (by decide)]

/-- A pixel that can be read does not end the loops of `LoadBitmap`. -/
theorem visit_fails (s : LScreen) (v : BitVec 32) (i j : Nat) (b : InkBox) :
    FailsWhen (s.getBuffer (BitVec.ofNat 32 j) (BitVec.ofNat 32 i) = none) .outside (InkBox.visit s v i b j) := by
  refine (readPixel_fails s (BitVec.ofNat 32 j) (BitVec.ofNat 32 i)).bind fun u => ?_
  split
  · exact ⟨_, rfl⟩
  · exact ⟨_, rfl⟩

theorem find_fails (s : LScreen) (v : BitVec 32) :
    FailsWhen (∃ i ∈ List.range s.h.toNat, ∃ j ∈ List.range s.w.toNat,
      s.getBuffer (BitVec.ofNat 32 j) (BitVec.ofNat 32 i) = none) .outside (InkBox.find s v) := by
  refine FailsWhen.bind ?_ fun b => ⟨_, rfl⟩
  apply FailsWhen.foldlM
  intro b i
  apply FailsWhen.foldlM
  exact fun b j => visit_fails s v i j b

/-- **A sheet with such an array** is read outside of it. -/
theorem loadSheet_overrun (memory : Nat → BitVec 32) (overrun : Overrun s) (charSet : Str16) (font : Glyphs) :
    font.loadSheet memory s charSet = .error .outside := by
  obtain ⟨v, corner⟩ := exists_corner s
  obtain ⟨c, r, left, up, none⟩ := exists_outside overrun
  have fault : InkBox.find s v = .error .outside :=
    (find_fails s v).error ⟨r, List.mem_range.2 up, c, List.mem_range.2 left, none⟩
  rw [loadSheet, readPixel_of_getBuffer corner]
  show (InkBox.find s v >>= _) = _
  rw [fault]
  rfl

/-! ## Ink -/

/-- A sheet with ink whose array is large enough has a size, and a box. -/
theorem exists_box (array : ¬ (s.w * s.h).msb = true) (whole : ¬ Overrun s) (ink : HasInk s) :
    ∃ e b, Sized e s ∧ BoundingBox e s b := by
  obtain ⟨c, r, left, up, other⟩ := ink
  have area : s.w.toNat * s.h.toNat < 2147483648 := by
    by_contra large
    exact whole ⟨array, Nat.le_of_not_lt large⟩
  have width := Nat.lt_of_le_of_lt (Nat.le_mul_of_pos_right s.w.toNat (Nat.zero_lt_of_lt up)) area
  have height := Nat.lt_of_le_of_lt (Nat.le_mul_of_pos_left s.h.toNat (Nat.zero_lt_of_lt left)) area
  let e : Extent := ⟨s.w.toNat, s.h.toNat, width, height, area⟩
  have sized : Sized e s := ⟨(ofNat_eq_of_toNat_eq rfl).symm, (ofNat_eq_of_toNat_eq rfl).symm⟩
  have own : Ink e s c r := by
    refine ⟨left, up, fun same => other ?_⟩
    rw [sized.pixel_eq left up, sized.pixel_eq (Nat.zero_lt_of_lt left) (Nat.zero_lt_of_lt up), same]
  have least {S : Set Nat} (some : S.Nonempty) : IsLeast S (sInf S) := ⟨Nat.sInf_mem some, fun _ => Nat.sInf_le⟩
  exact ⟨e, ⟨_, _, _, _⟩, sized, least ⟨c, r, own⟩, least ⟨e.w, fun c r ink => ink.1⟩, least ⟨r, c, own⟩,
    least ⟨e.h, fun c r ink => ink.2.1⟩⟩

/-- Every glyph has an array of its size. -/
def Whole (font : Glyphs) : Prop :=
  ∀ char glyph, font.getCharBitmap char = some glyph → ∃ e, glyph.toLScreen.Has e

theorem new_whole : new.Whole := by
  intro char glyph there
  rw [getCharBitmap_new] at there
  cases there

theorem Whole.stored {glyph : Nat → Nat → MaskedScreen} {l : List (UInt16 × Nat × Nat)} {font : Glyphs} (h : font.Whole)
    (each : ∀ x ∈ l, ∃ e, (glyph x.2.1 x.2.2).toLScreen.Has e) : (Glyphs.stored glyph l font).Whole := by
  induction l generalizing font with
  | nil => exact h
  | cons x l ih =>
    refine @ih (font.store x.1 (glyph x.2.1 x.2.2)) ?_ fun y mem => each y (List.mem_cons_of_mem x mem)
    intro char c there
    rcases getCharBitmap_store there with rfl | before
    · exact each x List.mem_cons_self
    · exact h char c before

/-- **A sheet with ink** is loaded, unless its character set is empty, and gives the font a height. -/
theorem loadSheet_ink (memory : Nat → BitVec 32) (array : ¬ (s.w * s.h).msb = true) (whole : ¬ Overrun s)
    (ink : HasInk s) (charSet : Str16) (font : Glyphs) :
    BitVec.ofNat 32 charSet.length = 0 ∧ font.loadSheet memory s charSet = .error .divideByZero ∨
      BitVec.ofNat 32 charSet.length ≠ 0 ∧
        ∃ font', font.loadSheet memory s charSet = .ok font' ∧ font'.charHeight ≠ 0 ∧ (font.Whole → font'.Whole) := by
  obtain ⟨e, b, sized, box⟩ := exists_box array whole ink
  by_cases empty : BitVec.ofNat 32 charSet.length = 0
  · refine .inl ⟨empty, ?_⟩
    rw [loadSheet_of_find memory charSet font (readPixel_corner sized) (InkBox.find_eq sized box), if_pos empty]
  · refine .inr ⟨empty, _, loadSheet_inked memory sized box empty font, ?_, fun before => ?_⟩
    · have some : charSet ≠ [] := by
        rintro rfl
        exact empty rfl
      have full : decide (Full e s b.minWidth) = true := decide_eq_true (full_iff.2 box.left.1)
      obtain ⟨x, mem⟩ : ∃ x, x ∈ cut (fun c => decide (Full e s c)) (sheetCharWidth b charSet) b.maxWidth charSet b.minWidth :=
        exists_mem_cut full box.columns.1 some
      have tall := (@charHeight_stored (cutOut memory e s b) _ { font with fontEmptyColor := corner e s }).2 x mem
      have rows := box.rows
      have height := e.height
      have own : (cutOut memory e s b x.2.1 x.2.2).h.toNat = b.maxHeight - b.minHeight := toNat_word (by omega)
      intro zero
      rw [own, zero] at tall
      have none : (0 : BitVec 32).toNat = 0 := rfl
      omega
    · have same : Whole { font with fontEmptyColor := corner e s } := before
      apply same.stored
      intro x mem
      exact ⟨_, cutOut_has memory box (Nat.le_trans (cut_bounds mem).2 box.columns.2)⟩

end Glyphs

end Sheet

/-! ## All sheets -/

namespace Glyphs

/-- **What `LoadBitmap` does** with a sheet. -/
theorem loadRead_cases (memory : Nat → BitVec 32) (font : Glyphs) (sheet : LScreen × Str16) :
    Overrun sheet.1 ∧ font.loadRead memory sheet = .error .outside ∨
      ¬ Overrun sheet.1 ∧ SheetFails sheet ∧
        (∃ fault, FontFault.Arithmetic fault ∧ font.loadRead memory sheet = .error fault) ∨
      ¬ Overrun sheet.1 ∧ ¬ SheetFails sheet ∧
        ∃ font', font.loadRead memory sheet = .ok font' ∧
          (font'.charHeight ≠ 0 ↔ font.charHeight ≠ 0 ∨ HasInk sheet.1) ∧ (font.Whole → font'.Whole) := by
  obtain ⟨s, charSet⟩ := sheet
  unfold loadRead SheetFails
  dsimp only
  by_cases array : (s.w * s.h).msb = true
  · exact .inr (.inl ⟨fun overrun => overrun.1 array, .inl array, .negativeSize, arithmetic_negativeSize, if_pos array⟩)
  rw [if_neg array]
  by_cases overrun : Overrun s
  · exact .inl ⟨overrun, loadSheet_overrun memory overrun charSet font⟩
  by_cases ink : HasInk s
  · rcases loadSheet_ink memory array overrun ink charSet font with ⟨empty, fault⟩ | ⟨some, font', loaded, height, keeps⟩
    · exact .inr (.inl ⟨overrun, .inr (.inl empty), .divideByZero, arithmetic_divideByZero, fault⟩)
    · refine .inr (.inr ⟨overrun, ?_, font', loaded, iff_of_true height (.inr ink), keeps⟩)
      rintro (negative | empty | ⟨none, -⟩)
      · exact array negative
      · exact some empty
      · exact none ink
  · obtain ⟨v, corner⟩ := exists_corner s
    rw [loadSheet_blank memory ink corner]
    by_cases empty : BitVec.ofNat 32 charSet.length = 0
    · exact .inr (.inl ⟨overrun, .inr (.inl empty), .divideByZero, arithmetic_divideByZero, if_pos empty⟩)
    rw [if_neg empty]
    by_cases flags : (1 - s.h).msb = true
    · exact .inr (.inl ⟨overrun, .inr (.inr ⟨ink, (flags_negative_iff s.h).1 flags⟩), .negativeSize, arithmetic_negativeSize, if_pos flags⟩)
    · refine .inr (.inr ⟨overrun, ?_, _, if_neg flags, (or_iff_left ink).symm, fun before => before⟩)
      rintro (negative | none | ⟨-, tall⟩)
      · exact array negative
      · exact empty none
      · exact flags ((flags_negative_iff s.h).2 tall)

/-- **The sheets** one after the other. -/
def loadSheets (memory : Nat → BitVec 32) (sheets : List (LScreen × Str16)) : Except FontFault Glyphs :=
  sheets.foldlM (loadRead memory) .new

theorem loadRead_judged (memory : Nat → BitVec 32) :
    Loop.Judged FontFault.Arithmetic (loadRead memory) (fun sheet => Overrun sheet.1) SheetFails := by
  apply Loop.Judged.of_cases
  intro font sheet
  rcases loadRead_cases memory font sheet with ⟨overrun, fault⟩ | fails | ⟨whole, fine, font', loaded, -⟩
  · exact .inl ⟨overrun, .outside, not_arithmetic_outside, fault⟩
  · exact .inr (.inl fails)
  · exact .inr (.inr ⟨whole, fine, font', loaded⟩)

/-- Every glyph of such a font is whole. -/
theorem loadSheets_whole {memory : Nat → BitVec 32} {sheets : List (LScreen × Str16)} {font : Glyphs}
    (loaded : loadSheets memory sheets = .ok font) : font.Whole := by
  refine Loop.foldlM_keeps (motive := Whole) ?_ loaded new_whole
  intro font sheet font' turn before
  rcases loadRead_cases memory font sheet with ⟨-, fault⟩ | ⟨-, -, e, -, fault⟩ | ⟨-, -, next, done, -, keeps⟩
  · rw [fault] at turn
    cases turn
  · rw [fault] at turn
    cases turn
  · obtain rfl := Except.ok.inj (turn.symm.trans done)
    exact keeps before

/-- **A font has a height** if some sheet has ink. -/
theorem charHeight_loadSheets {memory : Nat → BitVec 32} {sheets : List (LScreen × Str16)} {font : Glyphs}
    (loaded : loadSheets memory sheets = .ok font) : font.charHeight ≠ 0 ↔ ∃ sheet ∈ sheets, HasInk sheet.1 := by
  have run : ∀ (sheets : List (LScreen × Str16)) (font font' : Glyphs), sheets.foldlM (loadRead memory) font = .ok font' →
      (font'.charHeight ≠ 0 ↔ font.charHeight ≠ 0 ∨ ∃ sheet ∈ sheets, HasInk sheet.1) := by
    intro sheets
    induction sheets with
    | nil =>
      intro font font' done
      cases done
      exact (or_iff_left fun ⟨_, mem, _⟩ => List.not_mem_nil mem).symm
    | cons sheet sheets ih =>
      intro font font' done
      rw [List.foldlM_cons] at done
      obtain ⟨next, first, rest⟩ := Loop.bind_eq_ok done
      rcases loadRead_cases memory font sheet with ⟨-, fault⟩ | ⟨-, -, e, -, fault⟩ | ⟨-, -, next', first', height, -⟩
      · rw [fault] at first
        cases first
      · rw [fault] at first
        cases first
      · obtain rfl := Except.ok.inj (first.symm.trans first')
        rw [ih next font' rest, height, or_assoc, List.exists_mem_cons_iff]
  refine (run sheets .new font loaded).trans (or_iff_right ?_)
  exact not_not.2 rfl

end Glyphs

end Lavoro.Screen
