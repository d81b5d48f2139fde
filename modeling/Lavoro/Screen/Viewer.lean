import Lavoro.Screen.Sampler

/-!
# The viewer of pictures (`main.cpp`)

`ScreenMode` shows a bitmap in the viewer: it takes the largest percentage, up to 100, with which
neither side is longer than the viewer's, scales the bitmap with it, fills the viewer with a colour and
draws the scaled bitmap in its middle. Neither `Scale` nor `Draw` clips anything; the results say that
there is nothing to clip.
-/

namespace Lavoro.Screen
open Lib LScreen

/-- `if (size > room) { int k = (room * 100) / size; ratio = ratio < k ? ratio : k; }`. -/
def shrinkRatio (ratio size room : BitVec 32) : BitVec 32 :=
  if room.slt size then
    let k := (room * 100).sdiv size
    if ratio.slt k then ratio else k
  else ratio

/-- The ratio for the width, and then for the height. -/
def viewerRatio (bitmap viewer : LScreen) : BitVec 32 :=
  shrinkRatio (shrinkRatio 100 bitmap.w viewer.w) bitmap.h viewer.h

/-- `(room - size) >> 1`. -/
def centred (room size : BitVec 32) : BitVec 32 := (room - size).sshiftRight 1

/-- `Viewer.Fill(0xFFFE91)`, and `Viewer.Draw(image, ..)` of the scaled bitmap. -/
def showBitmap (memory : Nat → BitVec 32) (bitmap : MaskedScreen) (viewer : LScreen) : LScreen :=
  let image := bitmap.scale memory (viewerRatio bitmap.toLScreen viewer)
  (viewer.fill 0xFFFE91).drawAt image.toLScreen (centred viewer.w image.w) (centred viewer.h image.h)

section Ratio

variable {r n m : Nat}

/-- One side: the ratio gets no larger, and the side comes to fit. -/
theorem shrinkRatio_fits (percent : r ≤ 100) (hn : n < 2147483648) (hm : m < 2147483648)
    (small : m * 100 < 2147483648) :
    ∃ r' ≤ r, shrinkRatio (BitVec.ofNat 32 r) (BitVec.ofNat 32 n) (BitVec.ofNat 32 m) = BitVec.ofNat 32 r' ∧
      n * r' ≤ m * 100 := by
  unfold shrinkRatio
  by_cases large : m < n
  · have product : BitVec.ofNat 32 m * 100 = BitVec.ofNat 32 (m * 100) := by
      rw [BitVec.ofNat_mul]
      rfl
    have quotient : m * 100 / n < 2147483648 := Nat.lt_of_le_of_lt (Nat.div_le_self _ n) small
    have most : n * (m * 100 / n) ≤ m * 100 := Nat.mul_div_le (m * 100) n
    rw [if_pos ((slt_word hm hn).2 large), product, sdiv_word small hn]
    by_cases less : r < m * 100 / n
    · refine ⟨r, Nat.le_refl r, if_pos ((slt_word (by omega) quotient).2 less), ?_⟩
      exact Nat.le_trans (Nat.mul_le_mul_left n (Nat.le_of_lt less)) most
    · refine ⟨m * 100 / n, Nat.le_of_not_lt less, if_neg (mt (slt_word (by omega) quotient).1 less), most⟩
  · refine ⟨r, Nat.le_refl r, if_neg (mt (slt_word hm hn).1 large), ?_⟩
    exact Nat.mul_le_mul (Nat.le_of_not_lt large) percent

end Ratio

/-- Half of what is left. -/
theorem centred_eq {room size : Nat} (small : room < 2147483648) (fits : size ≤ room) :
    centred (BitVec.ofNat 32 room) (BitVec.ofNat 32 size) = BitVec.ofNat 32 ((room - size) / 2) := by
  rw [centred, sub_word fits small]
  exact half_word (Nat.lt_of_le_of_lt (Nat.sub_le room size) small)

/-- In the middle it lies inside. -/
theorem centred_inside {e f : Extent} (narrow : f.w ≤ e.w) (flat : f.h ≤ e.h) :
    Inside e f (centred (BitVec.ofNat 32 e.w) (BitVec.ofNat 32 f.w)) (centred (BitVec.ofNat 32 e.h) (BitVec.ofNat 32 f.h)) := by
  have width := e.width
  have height := e.height
  constructor
  · rw [centred_eq width narrow, toNat_word (by omega)]
    omega
  · rw [centred_eq height flat, toNat_word (by omega)]
    omega

section Viewer

variable {e f : Extent} {bitmap : MaskedScreen} {viewer : LScreen}

/-- The ratio that is chosen. -/
theorem viewerRatio_fits (has : bitmap.toLScreen.Has e) (onto : viewer.Has f) (wide : f.w * 100 < 2147483648)
    (high : f.h * 100 < 2147483648) :
    ∃ r ≤ 100, viewerRatio bitmap.toLScreen viewer = BitVec.ofNat 32 r ∧ e.w * r ≤ f.w * 100 ∧
      e.h * r ≤ f.h * 100 := by
  obtain ⟨r, percent, across, fitsWidth⟩ := shrinkRatio_fits (Nat.le_refl 100) e.width f.width wide
  obtain ⟨r', less, down, fitsHeight⟩ := shrinkRatio_fits percent e.height f.height high
  refine ⟨r', Nat.le_trans less percent, ?_, Nat.le_trans (Nat.mul_le_mul_left e.w less) fitsWidth, fitsHeight⟩
  rw [viewerRatio, has.w, has.h, onto.w, onto.h, ← down, ← across]
  rfl

/-- **The viewer shows the whole picture**, in its middle, on its background. -/
theorem viewer_shows (memory : Nat → BitVec 32) (has : bitmap.toLScreen.Has e) (onto : viewer.Has f)
    (wide : f.w * 100 + 99 < 2147483648) (high : f.h * 100 + 99 < 2147483648) :
    let ratio := viewerRatio bitmap.toLScreen viewer
    let image := bitmap.scale memory ratio
    let x := centred viewer.w image.w
    let y := centred viewer.h image.h
    let shown := showBitmap memory bitmap viewer
    (0 ≤ ratio.toInt ∧ ratio.toInt ≤ 100) ∧ (image.w.toInt ≤ viewer.w.toInt ∧ image.h.toInt ≤ viewer.h.toInt) ∧
      (0 ≤ x.toInt ∧ 0 ≤ y.toInt) ∧ shown.pixels.outside = false ∧
      (∀ p q, p < image.w.toNat → q < image.h.toNat → ∃ v, image.pixel p q = some v ∧
        shown.pixel (x.toNat + p) (y.toNat + q) = some v) ∧
      ∀ p q, p < f.w → q < f.h → ¬ Covers image.w.toNat image.h.toNat x.toNat y.toNat p q →
        shown.pixel p q = some 0xFFFE91 := by
  obtain ⟨r, percent, chosen, fitsWidth, fitsHeight⟩ := viewerRatio_fits has onto (by omega) (by omega)
  have scales : e.Scales r := .of_le percent (by omega) (by omega)
  have new := MaskedScreen.scale_eq memory has scales
  rw [← chosen] at new
  intro ratio image x y shown
  let g := e.scaled r scales
  have from' : image.toLScreen.Has g := by
    show (bitmap.scale memory ratio).toLScreen.Has g
    rw [new]
    exact has_ofCells g _
  have narrow : g.w ≤ f.w := (place_le_iff (by decide)).2 (by omega)
  have flat : g.h ≤ f.h := (place_le_iff (by decide)).2 (by omega)
  have width := f.width
  have height := f.height
  have inside : Inside f g x y := by
    show Inside f g (centred viewer.w image.w) (centred viewer.h image.h)
    rw [onto.w, onto.h, from'.w, from'.h]
    exact centred_inside narrow flat
  have right := inside.right
  have bottom := inside.bottom
  have background : (viewer.fill 0xFFFE91).Has f := by
    rw [fill_eq onto]
    exact has_withCells onto _
  have drawn := drawAt_verbatim background from' inside
  have result : shown.Has f := ((drawAt_clips_iff f g x y).2 inside.draws _ _ background from').has
  refine ⟨⟨?_, ?_⟩, ⟨?_, ?_⟩, ⟨?_, ?_⟩, result.inside, fun p q left up => ?_, fun p q left up out => ?_⟩
  · show 0 ≤ (viewerRatio bitmap.toLScreen viewer).toInt
    rw [chosen, toInt_word (n := r) (by omega)]
    exact Int.natCast_nonneg r
  · show (viewerRatio bitmap.toLScreen viewer).toInt ≤ 100
    rw [chosen, toInt_word (n := r) (by omega)]
    omega
  · rw [from'.w, onto.w, toInt_word g.width, toInt_word width]
    omega
  · rw [from'.h, onto.h, toInt_word g.height, toInt_word height]
    omega
  · rw [inside.toInt.1]
    exact Int.natCast_nonneg _
  · rw [inside.toInt.2]
    exact Int.natCast_nonneg _
  · rw [from'.toNat_w] at left
    rw [from'.toNat_h] at up
    have copied := drawn.copied q p up left
    refine ⟨image.toLScreen.value g.w q p, LScreen.pixel_eq from' left up, ?_⟩
    rw [LScreen.pixel_eq result (by omega) (by omega)]
    exact congrArg some copied
  · rw [from'.toNat_w, from'.toNat_h] at out
    have kept := drawn.around p q left up out
    rw [LScreen.pixel_eq result left up]
    refine congrArg some (kept.trans ?_)
    show (viewer.fill 0xFFFE91).value f.w q p = _
    rw [fill_eq onto]
    exact if_pos (cell_lt left up)

end Viewer

/-- A picture of four by two in a viewer of two by one. -/
theorem dots_shown : (showBitmap (fun _ => 0) MaskedScreen.dots (ofCells line fun _ => 0)).pixels.outside = false :=
  have onto : (ofCells line fun _ => 0).Has line := has_ofCells line _
  have has : MaskedScreen.dots.toLScreen.Has ⟨4, 2, by decide, by decide, by decide⟩ := has_ofCells _ _
  (viewer_shows (fun _ => 0) has onto (by decide) (by decide)).2.2.2.1

end Lavoro.Screen
