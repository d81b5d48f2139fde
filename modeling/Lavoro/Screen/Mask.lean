import Lavoro.Screen.Draw

/-!
# Masks (`HasMask` and `EmptyColor`)

A screen with a mask is to be shown without its cells of the colour `EmptyColor`. `Paint()` of the
test build leaves them out pixel by pixel; `Paint()` of the real one hands the whole buffer to `Blt`,
and neither `Draw` looks at the mask. These are right exactly where what is under the mask has the
colour `EmptyColor` already.
-/

namespace Lavoro.Screen
open Lib LScreen

structure MaskedScreen extends Placed where
  emptyColor : BitVec 32
  hasMask : Bool

/-! ## The display -/

/-- `COLORREF`. -/
structure ColorRef where
  red : BitVec 8
  green : BitVec 8
  blue : BitVec 8
  deriving Repr, DecidableEq

/-- `RGB((v >> 16) & 0xff, (v >> 8) & 0xff, v & 0xff)`, which is also what a cell is as an
`EFI_GRAPHICS_OUTPUT_BLT_PIXEL`. -/
def colourOf (v : BitVec 32) : ColorRef := ⟨(v >>> 16).setWidth 8, (v >>> 8).setWidth 8, v.setWidth 8⟩

/-- The pixels of a window or of the video, by column and row. -/
structure Frame where
  size : Extent
  pixel : Nat → Nat → ColorRef

namespace Frame

/-- `SetPixel`, which does nothing outside. -/
def setPixel (f : Frame) (x y : BitVec 32) (c : ColorRef) : Frame :=
  if x.toNat < f.size.w ∧ y.toNat < f.size.h then
    { f with pixel := fun p q => if p = x.toNat ∧ q = y.toNat then c else f.pixel p q }
  else f

/-- `Blt` with `EfiBltBufferToVideo`, which refuses a rectangle that is not inside. -/
def blt (f : Frame) (buffer : Nat → BitVec 32) (x y w h : Nat) : Frame :=
  if x + w ≤ f.size.w ∧ y + h ≤ f.size.h then
    { f with pixel := fun p q =>
        if x ≤ p ∧ p < x + w ∧ y ≤ q ∧ q < y + h then colourOf (buffer ((q - y) * w + (p - x)))
        else f.pixel p q }
  else f

end Frame

namespace MaskedScreen

/-- The body of the loops of `Paint()` in the test build, with the counter `k`. -/
def paintPixel (s : MaskedScreen) (i : Nat) (x : Nat × Frame) (j : Nat) : Nat × Frame :=
  let v := s.pixels.cells x.1
  (x.1 + 1,
    if v ≠ s.emptyColor ∨ !s.hasMask then
      x.2.setPixel (s.x + BitVec.ofNat 32 j) (s.y + BitVec.ofNat 32 i) (colourOf v)
    else x.2)

def paintRow (s : MaskedScreen) (x : Nat × Frame) (i : Nat) : Nat × Frame :=
  (List.range s.w.toNat).foldl (s.paintPixel i) x

/-- `Paint()` with `_TEST_`, on the window if there is one. -/
def paintTest (s : MaskedScreen) (window : Option Frame) : Option Frame :=
  window.map fun frame => ((List.range s.h.toNat).foldl s.paintRow (0, frame)).2

/-- `Paint()` without, on the video if there is a graphics output. -/
def paint (s : MaskedScreen) (video : Option Frame) : Option Frame :=
  video.map fun frame => frame.blt s.pixels.cells s.x.toNat s.y.toNat s.w.toNat s.h.toNat

end MaskedScreen

/-! ## What a mask asks for -/

section Law

variable {β : Type}

/-- A screen of size `f` has been shown at `(a, b)` with its mask: of a destination of size `e` only
what is under its other cells has changed. -/
structure Honours (e f : Extent) (s : MaskedScreen) (a b : Nat) (shown : BitVec 32 → β)
    (before after : Nat → Nat → β) : Prop where
  masked : ∀ i j, i < f.h → j < f.w → s.value f.w i j = s.emptyColor →
    after (a + j) (b + i) = before (a + j) (b + i)
  copied : ∀ i j, i < f.h → j < f.w → s.value f.w i j ≠ s.emptyColor →
    after (a + j) (b + i) = shown (s.value f.w i j)
  around : ∀ p q, p < e.w → q < e.h → ¬ Covers f.w f.h a b p q → after p q = before p q

/-- What is under the mask has its colour. -/
def Blank (f : Extent) (s : MaskedScreen) (a b : Nat) (shown : BitVec 32 → β) (before : Nat → Nat → β) : Prop :=
  ∀ i j, i < f.h → j < f.w → s.value f.w i j = s.emptyColor → before (a + j) (b + i) = shown s.emptyColor

/-- Everything has been copied. -/
structure Verbatim (e f : Extent) (s : MaskedScreen) (a b : Nat) (shown : BitVec 32 → β)
    (before after : Nat → Nat → β) : Prop where
  copied : ∀ i j, i < f.h → j < f.w → after (a + j) (b + i) = shown (s.value f.w i j)
  around : ∀ p q, p < e.w → q < e.h → ¬ Covers f.w f.h a b p q → after p q = before p q

/-- **A verbatim copy honours the mask** exactly over what has its colour. -/
theorem honours_verbatim_iff {e f : Extent} {s : MaskedScreen} {a b : Nat} {shown : BitVec 32 → β}
    {before after : Nat → Nat → β} (h : Verbatim e f s a b shown before after) :
    Honours e f s a b shown before after ↔ Blank f s a b shown before := by
  constructor
  · intro honours i j row column empty
    rw [← honours.masked i j row column empty, h.copied i j row column, empty]
  · intro blank
    exact {
      masked := fun i j row column empty => by
        rw [h.copied i j row column, empty, blank i j row column empty]
      copied := fun i j row column _ => h.copied i j row column
      around := h.around }

end Law

/-! ## Drawing -/

/-- The cells of a screen of size `e`, by column and row. -/
def points (e : Extent) (s : LScreen) (p q : Nat) : BitVec 32 := s.value e.w q p

/-- A screen of size `f` at `(x, y)` lies in one of size `e`. -/
structure Inside (e f : Extent) (x y : BitVec 32) : Prop where
  right : x.toNat + f.w ≤ e.w
  bottom : y.toNat + f.h ≤ e.h

section Drawing

variable {e f : Extent} {x y : BitVec 32}

theorem Inside.toInt (inside : Inside e f x y) : x.toInt = x.toNat ∧ y.toInt = y.toNat := by
  have width := e.width
  have height := e.height
  have right := inside.right
  have bottom := inside.bottom
  constructor
  · apply BitVec.toInt_eq_toNat_of_lt
    omega
  · apply BitVec.toInt_eq_toNat_of_lt
    omega

/-- No index of it is negative or wraps round, and no row runs on in the next. -/
theorem Inside.draws (inside : Inside e f x y) : DrawsInside e f x.toInt y.toInt := by
  obtain ⟨xInt, yInt⟩ := inside.toInt
  obtain ⟨right, bottom⟩ := inside
  have area := e.area
  unfold DrawsInside
  rw [xInt, yInt]
  by_cases empty : f.w = 0 ∨ f.h = 0
  · exact or_assoc.1 (.inl empty)
  · -- the last cell lies in the array, and so does the first
    have last : (y.toNat + (f.h - 1)) * e.w + (x.toNat + (f.w - 1)) < e.w * e.h := by
      apply cell_lt
      · omega
      · omega
    rw [Nat.add_mul] at last
    have rows : (((f.h - 1) * e.w : Nat) : Int) = ((f.h : Int) - 1) * e.w := by
      rw [Nat.cast_mul, Nat.cast_sub (by omega), Nat.cast_one]
    have first : (y.toNat : Int) * e.w = ((y.toNat * e.w : Nat) : Int) := by
      rw [Nat.cast_mul]
    rw [Int.bmod_eq_of_le (by omega) (by omega), ← rows, first]
    refine .inr (.inr ⟨?_, ?_, .inr ⟨?_, ?_, ?_, ?_, .inl ?_⟩⟩)
    all_goals omega

/-- **`Draw` copies** the screen, whatever its mask. -/
theorem drawAt_verbatim {target : LScreen} {s : MaskedScreen} (has : target.Has e) (from' : s.toLScreen.Has f)
    (inside : Inside e f x y) :
    Verbatim e f s x.toNat y.toNat id (points e target) (points e (target.drawAt s.toLScreen x y)) := by
  have clips := ((drawAt_clips_iff e f x y).2 inside.draws target s.toLScreen has from').cells
  rw [inside.toInt.1, inside.toInt.2] at clips
  obtain ⟨right, bottom⟩ := inside
  constructor
  · intro i j row column
    have copied := (clips (x.toNat + j) (y.toNat + i) (by omega) (by omega)).1 (by unfold Covers; omega)
    rw [show ((y.toNat + i : Nat) - (y.toNat : Int)).toNat = i by omega,
      show ((x.toNat + j : Nat) - (x.toNat : Int)).toNat = j by omega] at copied
    exact copied
  · intro p q left up out
    exact (clips p q left up).2 out

end Drawing

/-! ## Painting -/

namespace MaskedScreen

section Painting

variable {f : Extent} {s : MaskedScreen} {frame : Frame} {i m : Nat}

/-- `pixel` after the first `m` columns of the row `i`. -/
def maskedRow (f : Extent) (s : MaskedScreen) (i m : Nat) (pixel : Nat → Nat → ColorRef) : Nat → Nat → ColorRef :=
  fun p q =>
    if q = s.y.toNat + i ∧ s.x.toNat ≤ p ∧ p < s.x.toNat + m ∧
        s.value f.w i (p - s.x.toNat) ≠ s.emptyColor then colourOf (s.value f.w i (p - s.x.toNat))
    else pixel p q

/-- `pixel` after the first `m` rows. -/
def maskedRows (f : Extent) (s : MaskedScreen) (m : Nat) (pixel : Nat → Nat → ColorRef) : Nat → Nat → ColorRef :=
  fun p q =>
    if s.y.toNat ≤ q ∧ q < s.y.toNat + m ∧ s.x.toNat ≤ p ∧ p < s.x.toNat + f.w ∧
        s.value f.w (q - s.y.toNat) (p - s.x.toNat) ≠ s.emptyColor then
      colourOf (s.value f.w (q - s.y.toNat) (p - s.x.toNat))
    else pixel p q

/-- The next row. -/
theorem maskedRow_maskedRows (f : Extent) (s : MaskedScreen) (m : Nat) (pixel : Nat → Nat → ColorRef) :
    maskedRow f s m f.w (maskedRows f s m pixel) = maskedRows f s (m + 1) pixel := by
  funext p q
  unfold maskedRow maskedRows
  by_cases last : q = s.y.toNat + m
  · subst last
    simp only [true_and, Nat.le_add_right, Nat.add_sub_cancel_left, Nat.lt_irrefl, false_and, if_false,
      Nat.add_lt_add_left (Nat.lt_succ_self m)]
  · have same : q < s.y.toNat + (m + 1) ↔ q < s.y.toNat + m := by omega
    simp only [last, same, false_and, if_false]

/-- The next column, if it is shown. -/
theorem maskedRow_succ_shown (shown : s.value f.w i m ≠ s.emptyColor) (pixel : Nat → Nat → ColorRef) :
    maskedRow f s i (m + 1) pixel = fun p q =>
      if p = s.x.toNat + m ∧ q = s.y.toNat + i then colourOf (s.value f.w i m)
      else maskedRow f s i m pixel p q := by
  funext p q
  unfold maskedRow
  by_cases here : p = s.x.toNat + m ∧ q = s.y.toNat + i
  · obtain ⟨rfl, rfl⟩ := here
    rw [Nat.add_sub_cancel_left, if_pos ⟨rfl, by omega, by omega, shown⟩, if_pos ⟨rfl, rfl⟩]
  · have same : (q = s.y.toNat + i ∧ s.x.toNat ≤ p ∧ p < s.x.toNat + (m + 1)) ↔
        (q = s.y.toNat + i ∧ s.x.toNat ≤ p ∧ p < s.x.toNat + m) := by omega
    simp only [← and_assoc] at same ⊢
    simp only [if_neg here, same]

/-- The next column, if it is not. -/
theorem maskedRow_succ_empty (empty : s.value f.w i m = s.emptyColor) (pixel : Nat → Nat → ColorRef) :
    maskedRow f s i (m + 1) pixel = maskedRow f s i m pixel := by
  funext p q
  unfold maskedRow
  by_cases here : p = s.x.toNat + m
  · subst here
    rw [Nat.add_sub_cancel_left, if_neg fun h => h.2.2.2 empty, if_neg fun h => h.2.2.2 empty]
  · have same : p < s.x.toNat + (m + 1) ↔ p < s.x.toNat + m := by omega
    simp only [same]

/-- The body of the loops. -/
theorem paintPixel_eq (set : s.hasMask = true) (inside : Inside frame.size f s.x s.y) (row : i < f.h)
    (column : m < f.w) (pixel : Nat → Nat → ColorRef) :
    s.paintPixel i (i * f.w + m, { frame with pixel := maskedRow f s i m pixel }) m =
      (i * f.w + (m + 1), { frame with pixel := maskedRow f s i (m + 1) pixel }) := by
  obtain ⟨right, bottom⟩ := inside
  have width := frame.size.width
  have height := frame.size.height
  have across : (s.x + BitVec.ofNat 32 m).toNat = s.x.toNat + m := by
    rw [BitVec.toNat_add, BitVec.toNat_ofNat]
    omega
  have down : (s.y + BitVec.ofNat 32 i).toNat = s.y.toNat + i := by
    rw [BitVec.toNat_add, BitVec.toNat_ofNat]
    omega
  have left : s.x.toNat + m < frame.size.w := by omega
  have up : s.y.toNat + i < frame.size.h := by omega
  have value : s.pixels.cells (i * f.w + m) = s.value f.w i m := rfl
  unfold paintPixel
  simp only [set, value, Bool.not_true, Bool.false_eq_true, or_false, Nat.add_assoc]
  by_cases empty : s.value f.w i m = s.emptyColor
  · rw [if_neg (not_not.2 empty), maskedRow_succ_empty empty]
  · rw [if_pos empty, maskedRow_succ_shown empty, Frame.setPixel, across, down, if_pos ⟨left, up⟩]

/-- A row. -/
theorem paintRow_eq (from' : s.toLScreen.Has f) (set : s.hasMask = true) (inside : Inside frame.size f s.x s.y)
    (row : i < f.h) (pixel : Nat → Nat → ColorRef) :
    s.paintRow (i * f.w, { frame with pixel }) i =
      ((i + 1) * f.w, { frame with pixel := maskedRow f s i f.w pixel }) := by
  have columns : ∀ m, m ≤ f.w →
      (List.range m).foldl (s.paintPixel i) (i * f.w, { frame with pixel }) =
        (i * f.w + m, { frame with pixel := maskedRow f s i m pixel }) := by
    intro m le
    induction m with
    | zero =>
      have start : maskedRow f s i 0 pixel = pixel := by
        funext p q
        exact if_neg fun h => Nat.not_lt_of_le h.2.1 h.2.2.1
      rw [start]
      rfl
    | succ m ih =>
      rw [List.range_succ, List.foldl_append, ih (Nat.le_of_succ_le le), List.foldl_cons, List.foldl_nil,
        paintPixel_eq set inside row le]
  rw [paintRow, from'.toNat_w, Nat.succ_mul]
  exact columns f.w (Nat.le_refl _)

/-- **`Paint()` of the test build** paints the cells that are shown, and no others. -/
theorem paintTest_eq (from' : s.toLScreen.Has f) (set : s.hasMask = true)
    (inside : Inside frame.size f s.x s.y) :
    s.paintTest (some frame) = some { frame with pixel := maskedRows f s f.h frame.pixel } := by
  have rows : ∀ m, m ≤ f.h →
      (List.range m).foldl s.paintRow (0, frame) =
        (m * f.w, { frame with pixel := maskedRows f s m frame.pixel }) := by
    intro m le
    induction m with
    | zero =>
      have start : maskedRows f s 0 frame.pixel = frame.pixel := by
        funext p q
        exact if_neg fun h => Nat.not_lt_of_le h.1 h.2.1
      rw [start, Nat.zero_mul]
      rfl
    | succ m ih =>
      rw [List.range_succ, List.foldl_append, ih (Nat.le_of_succ_le le), List.foldl_cons, List.foldl_nil,
        paintRow_eq from' set inside le, maskedRow_maskedRows]
  rw [paintTest, Option.map_some, from'.toNat_h, rows f.h (Nat.le_refl _)]

/-- **`Paint()` of the test build honours the mask.** -/
theorem paintTest_honours (from' : s.toLScreen.Has f) (set : s.hasMask = true)
    (inside : Inside frame.size f s.x s.y) :
    ∃ after, s.paintTest (some frame) = some after ∧
      Honours frame.size f s s.x.toNat s.y.toNat colourOf frame.pixel after.pixel := by
  refine ⟨_, paintTest_eq from' set inside, ?_, ?_, ?_⟩
  · intro i j _ _ empty
    refine if_neg fun h => h.2.2.2.2 ?_
    rw [Nat.add_sub_cancel_left, Nat.add_sub_cancel_left]
    exact empty
  · intro i j row column shown
    simp only [maskedRows, Nat.add_sub_cancel_left]
    exact if_pos ⟨by omega, by omega, by omega, by omega, shown⟩
  · intro p q _ _ out
    refine if_neg fun h => out ?_
    unfold Covers
    omega

/-- `pixel` after all cells. -/
def allCells (f : Extent) (s : MaskedScreen) (pixel : Nat → Nat → ColorRef) : Nat → Nat → ColorRef :=
  fun p q =>
    if s.x.toNat ≤ p ∧ p < s.x.toNat + f.w ∧ s.y.toNat ≤ q ∧ q < s.y.toNat + f.h then
      colourOf (s.value f.w (q - s.y.toNat) (p - s.x.toNat))
    else pixel p q

/-- `Paint()` of the real build paints them all. -/
theorem paint_eq (from' : s.toLScreen.Has f) (inside : Inside frame.size f s.x s.y) :
    s.paint (some frame) = some { frame with pixel := allCells f s frame.pixel } := by
  unfold paint Frame.blt
  rw [Option.map_some, from'.toNat_w, from'.toNat_h, if_pos ⟨inside.right, inside.bottom⟩]
  rfl

/-- It copies the screen, whatever its mask. -/
theorem allCells_verbatim (e f : Extent) (s : MaskedScreen) (pixel : Nat → Nat → ColorRef) :
    Verbatim e f s s.x.toNat s.y.toNat colourOf pixel (allCells f s pixel) := by
  constructor
  · intro i j row column
    simp only [allCells, Nat.add_sub_cancel_left]
    exact if_pos ⟨by omega, by omega, by omega, by omega⟩
  · intro p q _ _ out
    refine if_neg fun h => out ?_
    unfold Covers
    omega

/-- **The real build honours the mask** exactly over what has its colour. -/
theorem paint_honours_iff (from' : s.toLScreen.Has f) (inside : Inside frame.size f s.x s.y) :
    (∃ after, s.paint (some frame) = some after ∧
      Honours frame.size f s s.x.toNat s.y.toNat colourOf frame.pixel after.pixel) ↔
      Blank f s s.x.toNat s.y.toNat colourOf frame.pixel := by
  rw [paint_eq from' inside, ← honours_verbatim_iff (allCells_verbatim frame.size f s frame.pixel)]
  constructor
  · rintro ⟨after, painted, honours⟩
    cases painted
    exact honours
  · exact fun honours => ⟨_, rfl, honours⟩

/-- Over what has the colour of the mask all cells may be painted. -/
theorem maskedRows_eq_allCells {pixel : Nat → Nat → ColorRef}
    (blank : Blank f s s.x.toNat s.y.toNat colourOf pixel) : maskedRows f s f.h pixel = allCells f s pixel := by
  funext p q
  unfold maskedRows allCells
  by_cases covered : s.x.toNat ≤ p ∧ p < s.x.toNat + f.w ∧ s.y.toNat ≤ q ∧ q < s.y.toNat + f.h
  · obtain ⟨left, right, up, down⟩ := covered
    by_cases empty : s.value f.w (q - s.y.toNat) (p - s.x.toNat) = s.emptyColor
    · have under := blank (q - s.y.toNat) (p - s.x.toNat) (by omega) (by omega) empty
      rw [Nat.add_sub_cancel' left, Nat.add_sub_cancel' up] at under
      rw [if_neg fun h => h.2.2.2.2 empty, if_pos ⟨left, right, up, down⟩, under, empty]
    · rw [if_pos ⟨up, down, left, right, empty⟩, if_pos ⟨left, right, up, down⟩]
  · rw [if_neg fun h => covered ⟨h.2.2.1, h.2.2.2.1, h.1, h.2.1⟩, if_neg covered]

/-- **The two builds** paint the same frame exactly there. -/
theorem paintTest_eq_paint_iff (from' : s.toLScreen.Has f) (set : s.hasMask = true)
    (inside : Inside frame.size f s.x s.y) :
    s.paintTest (some frame) = s.paint (some frame) ↔ Blank f s s.x.toNat s.y.toNat colourOf frame.pixel := by
  constructor
  · intro same
    rw [← paint_honours_iff from' inside, ← same]
    exact paintTest_honours from' set inside
  · intro blank
    rw [paintTest_eq from' set inside, paint_eq from' inside, maskedRows_eq_allCells blank]

end Painting

end MaskedScreen

/-! ## All four -/

/-- A screen with a mask, of size `f`, a place `(x, y)` for it on a target of size `e`, and its own
place, on the target and on the display. -/
structure MaskedOnto (e f : Extent) (s : MaskedScreen) (target : LScreen) (frame : Frame) (x y : BitVec 32) : Prop where
  masked : s.hasMask = true
  has : s.toLScreen.Has f
  onto : target.Has e
  given : Inside e f x y
  own : Inside e f s.x s.y
  shown : Inside frame.size f s.x s.y

/-- The mask is honoured on all four ways, and both builds paint the same. -/
structure HonoursMask (e f : Extent) (s : MaskedScreen) (target : LScreen) (frame : Frame)
    (x y : BitVec 32) : Prop where
  drawnAt : Honours e f s x.toNat y.toNat id (points e target) (points e (target.drawAt s.toLScreen x y))
  drawn : Honours e f s s.x.toNat s.y.toNat id (points e target) (points e (target.draw s.toPlaced))
  paintedTest : ∃ after, s.paintTest (some frame) = some after ∧
    Honours frame.size f s s.x.toNat s.y.toNat colourOf frame.pixel after.pixel
  painted : ∃ after, s.paint (some frame) = some after ∧
    Honours frame.size f s s.x.toNat s.y.toNat colourOf frame.pixel after.pixel
  same : s.paintTest (some frame) = s.paint (some frame)

/-- **When a mask is honoured**: wherever it is, what is under it has its colour already. -/
theorem honoursMask_iff (e f : Extent) (s : MaskedScreen) (target : LScreen) (frame : Frame)
    (x y : BitVec 32) (shows : MaskedOnto e f s target frame x y) :
    HonoursMask e f s target frame x y ↔
      Blank f s x.toNat y.toNat id (points e target) ∧
        Blank f s s.x.toNat s.y.toNat id (points e target) ∧
        Blank f s s.x.toNat s.y.toNat colourOf frame.pixel := by
  have at' := honours_verbatim_iff (drawAt_verbatim shows.onto shows.has shows.given)
  have own := honours_verbatim_iff (drawAt_verbatim shows.onto shows.has shows.own)
  have painted := MaskedScreen.paint_honours_iff shows.has shows.shown
  have same := MaskedScreen.paintTest_eq_paint_iff shows.has shows.masked shows.shown
  constructor
  · intro honours
    exact ⟨at'.1 honours.drawnAt, own.1 honours.drawn, painted.1 honours.painted⟩
  · rintro ⟨givenBlank, ownBlank, frameBlank⟩
    exact {
      drawnAt := at'.2 givenBlank
      drawn := own.2 ownBlank
      paintedTest := MaskedScreen.paintTest_honours shows.has shows.masked shows.shown
      painted := painted.2 frameBlank
      same := same.2 frameBlank }

/-- A line whose left cell is masked, as white is in the pictures of the explorer. -/
def icon : MaskedScreen where
  toLScreen := ofCells line fun k => if k = 0 then 0xffffff else 0
  x := 0
  y := 0
  emptyColor := 0xffffff
  hasMask := true

/-- A display of one colour. -/
def window (v : BitVec 32) : Frame := ⟨line, fun _ _ => colourOf v⟩

theorem icon_onto (v : BitVec 32) : MaskedOnto line line icon (ofCells line fun _ => v) (window v) 0 0 :=
  ⟨rfl, has_ofCells line _, has_ofCells line _, ⟨by decide, by decide⟩, ⟨by decide, by decide⟩,
    ⟨Nat.le_refl 2, Nat.le_refl 1⟩⟩

theorem icon_honoured_on_white :
    HonoursMask line line icon (ofCells line fun _ => 0xffffff) (window 0xffffff) 0 0 :=
  (honoursMask_iff line line icon (ofCells line fun _ => 0xffffff) (window 0xffffff) 0 0
    (icon_onto 0xffffff)).2 ⟨fun _ _ _ _ _ => rfl, fun _ _ _ _ _ => rfl, fun _ _ _ _ _ => rfl⟩

/-- Over the colour of the main screen the white cell is drawn and painted, in the real build. -/
theorem icon_not_masked :
    MaskedOnto line line icon (ofCells line fun _ => 0xFBF3FF) (window 0xFBF3FF) 0 0 ∧
      ¬ HonoursMask line line icon (ofCells line fun _ => 0xFBF3FF) (window 0xFBF3FF) 0 0 ∧
      icon.paintTest (some (window 0xFBF3FF)) ≠ icon.paint (some (window 0xFBF3FF)) := by
  have shows := icon_onto 0xFBF3FF
  refine ⟨shows, fun honours => ?_, fun same => ?_⟩
  · have drawn := drawAt_verbatim shows.onto shows.has shows.given
    have blank := (honours_verbatim_iff drawn).1 honours.drawnAt 0 0 (by decide) (by decide) rfl
    exact absurd blank (by decide)
  · have blank := (MaskedScreen.paintTest_eq_paint_iff shows.has shows.masked shows.shown).1 same
    exact absurd (blank 0 0 (by decide) (by decide) rfl) (by decide)

end Lavoro.Screen
