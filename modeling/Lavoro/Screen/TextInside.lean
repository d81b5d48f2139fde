import Lavoro.Screen.FontSafety

/-!
# Text that stays on the screen

What `DrawText` changes of a screen is what its `SetBuffer` calls say (`drawText_writes`). A text that is
not too long is drawn without a fault, and nothing of the screen changes but the cells of its characters
(`text_inside`).
-/

namespace Lavoro.Screen
open Lib LScreen

/-- The index that `SetBuffer` computes. -/
def SetCall.index (e : Extent) (call : SetCall) : BitVec 32 := call.y * BitVec.ofNat 32 e.w + call.x

/-- After these calls on a screen of size `e` with these cells: no index was negative, and what is changed is among
the cells of the calls. -/
structure Writes (e : Extent) (cells : Nat → BitVec 32) (calls : List SetCall) (s : LScreen) : Prop where
  has : s.Has e
  frame : ∀ k, (∀ call ∈ calls, (call.index e).toNat ≠ k) → s.pixels.cells k = cells k

section Calls

variable {e : Extent} {cells : Nat → BitVec 32} {calls : List SetCall} {s : LScreen}

/-- **One call** at an index that is not negative. -/
theorem Writes.setBuffer (h : Writes e cells calls s) (call : SetCall) (positive : (call.index e).msb = false)
    (v : BitVec 32) : Writes e cells (calls ++ [call]) (s.setBuffer call.x call.y v) := by
  obtain ⟨has, frame⟩ := h
  have before : ∀ k, (∀ c ∈ calls ++ [call], (c.index e).toNat ≠ k) → s.pixels.cells k = cells k :=
    fun k none => frame k fun c mem => none c (List.mem_append_left _ mem)
  have area : BitVec.ofNat 32 e.w * BitVec.ofNat 32 e.h = BitVec.ofNat 32 (e.w * e.h) := by
    rw [BitVec.ofNat_mul]
  have positive' : (call.y * BitVec.ofNat 32 e.w + call.x).msb = false := positive
  unfold LScreen.setBuffer
  simp only [has.w, has.h, area, positive', Bool.false_eq_true, if_false]
  split
  · rename_i inside
    have inside := (slt_iff_of_positive e.area positive').1 inside
    rw [Pixels.put, if_pos (has.size ▸ inside)]
    refine ⟨⟨rfl, rfl, has.size, has.inside⟩, fun k none => ?_⟩
    have other : k ≠ (call.y * BitVec.ofNat 32 e.w + call.x).toNat :=
      (none call (List.mem_append_right _ List.mem_cons_self)).symm
    exact (if_neg other).trans (before k none)
  · exact ⟨has, before⟩

/-- A bitmap is copied. -/
theorem copyBitmap_writes {font : Glyphs} {c : MaskedScreen} {off currentX currentY : BitVec 32}
    {t : LScreen × List SetCall} (copied : font.copyBitmap c off currentX currentY s = .ok t)
    (h : Writes e cells calls s) (positive : ∀ call ∈ t.2, (call.index e).msb = false) :
    Writes e cells (calls ++ t.2) t.1 := by
  let Inv (s : LScreen × List SetCall) : Prop :=
    (∀ call ∈ s.2, (call.index e).msb = false) → Writes e cells (calls ++ s.2) s.1
  have start : Inv (s, []) := fun _ => (List.append_nil calls).symm ▸ h
  refine Loop.foldlM_keeps (motive := Inv) ?_ copied start positive
  intro s x t column before
  refine Loop.foldlM_keeps (motive := Inv) ?_ column before
  intro s y t pixel before positive
  obtain ⟨v, -, done⟩ := Loop.bind_eq_ok pixel
  split at done
  · cases done
    have last := positive _ (List.mem_append_right _ List.mem_cons_self)
    have earlier := before fun call mem => positive call (List.mem_append_left _ mem)
    rw [← List.append_assoc]
    exact earlier.setBuffer _ last v
  · cases done
    exact before positive

/-- **What `DrawText` changes** is what its calls say. -/
theorem drawText_writes {memory : Nat → BitVec 32} {font : Glyphs} {fontSize : BitVec 32} {text : Str16} {d : Drawing}
    (drawn : font.drawText memory s fontSize text = .ok d) (has : s.Has e)
    (positive : ∀ p ∈ d.printed, ∀ call ∈ p.calls, (call.index e).msb = false) :
    Writes e s.pixels.cells (d.printed.flatMap Printed.calls) d.screen := by
  let Inv (d : Drawing) : Prop := (∀ p ∈ d.printed, ∀ call ∈ p.calls, (call.index e).msb = false) →
    Writes e s.pixels.cells (d.printed.flatMap Printed.calls) d.screen
  have start : Inv ⟨s, 0, 0, []⟩ := fun _ => ⟨has, fun _ _ => rfl⟩
  unfold Glyphs.drawText at drawn
  split at drawn
  · cases drawn
  refine Loop.foldlM_keeps (motive := Inv) ?_ drawn start positive
  intro d char d' turn before positive
  by_cases prints : Prints char
  · rw [drawChar_of_prints prints] at turn
    obtain ⟨c, -, rest⟩ := Loop.bind_eq_ok turn
    obtain ⟨image, -, rest⟩ := Loop.bind_eq_ok rest
    obtain ⟨copied, calls, done⟩ := Loop.bind_eq_ok rest
    cases done
    have earlier := before fun p mem => positive p (List.mem_append_left _ mem)
    have last := positive _ (List.mem_append_right _ List.mem_cons_self)
    rw [List.flatMap_append, List.flatMap_singleton]
    exact copyBitmap_writes calls earlier last
  · obtain ⟨x, y, control⟩ := drawChar_of_control font memory fontSize (fontSize * 100 / font.charHeight) d prints
    obtain rfl := Except.ok.inj (control.symm.trans turn)
    exact before positive

end Calls

section Run

variable {memory : Nat → BitVec 32} {font : Glyphs} {n : Nat} {e : Extent}

/-- No character reaches further than the screen is wide, or a tab. -/
theorem reach_le {text : Str16} (narrow : ∀ char ∈ text, Prints char → font.boxWidth n char ≤ e.w) :
    ∀ m ∈ text.map (font.move n), Typeset.reach m ≤ e.w + 2 * n := by
  intro m mem
  obtain ⟨char, inText, rfl⟩ := List.mem_map.1 mem
  by_cases prints : Prints char
  · rw [move_of_prints prints]
    have box := narrow char inText prints
    show font.boxWidth n char ≤ _
    omega
  · rcases control_cases prints with rfl | rfl | rfl | rfl
    · exact Nat.zero_le _
    · exact Nat.zero_le _
    · show n / 2 * 4 ≤ _
      omega
    · show n / 2 ≤ _
      omega

/-- **A call for a character in its cell**: its index is that of a point of the cell. -/
theorem own_index (fits : font.Fits) (some : font.charHeight ≠ 0) (size : n * 100 + 99 < 2147483648) {screen : LScreen}
    (has : screen.Has e) {c : Cell UInt16} {p : Printed} (set : InCell memory font n c p) (inside : c.x + c.w ≤ e.w)
    (small : (c.y + n) * e.w < 2147483648) (down : c.y < 2147483648) {call : SetCall} (mem : call ∈ p.calls) :
    (call.index e).msb = false ∧
      ∃ x y : Nat, (call.index e).toNat = y * e.w + x ∧ Covers c.w n c.x c.y x y := by
  obtain ⟨cellX, cellY, cellW⟩ := set.toInt inside down
  have own := (own_cell_iff fits some size has set inside down).2
  obtain ⟨image, bitmap, height, scaled⟩ := set.printed.bitmap
  have low := image_height_le size (height ▸ bitmapOf_le fits bitmap) set.printed
  have same : p.image = image.scale memory (font.ratio n) := (MaskedScreen.scale_of_scaleInto scaled).symm
  have wide := e.width
  have width : p.image.w.toNat = c.w := by
    rw [set.w, toNat_word (by omega)]
  obtain ⟨⟨left, right, top, bottom⟩, index⟩ := own (by
    rintro i j ⟨bitmap', v, made, column, row, -⟩
    obtain rfl := Except.ok.inj (bitmap.symm.trans made)
    rw [← same] at column row
    have point : (c.y + j) * e.w + (c.x + i) < e.w * (c.y + n) := cell_lt (by omega) (by omega)
    rw [Nat.mul_comm] at small
    exact Nat.lt_trans point small) call mem
  rw [cellX] at left right
  rw [cellY] at top bottom
  rw [cellW] at right
  obtain ⟨x, hx⟩ := Int.eq_ofNat_of_zero_le (show 0 ≤ call.x.toInt by omega)
  obtain ⟨y, hy⟩ := Int.eq_ofNat_of_zero_le (show 0 ≤ call.y.toInt by omega)
  have value : (call.index e).toInt = (y * e.w + x : Nat) := by
    rw [SetCall.index, ← has.w, index, hx, hy, has.w, toInt_word wide]
    push_cast
    rfl
  have positive : (call.index e).msb = false := by
    rw [BitVec.msb_eq_toInt, value]
    exact decide_eq_false (Int.not_lt.2 (Int.natCast_nonneg _))
  refine ⟨positive, x, y, ?_, by omega, by omega, by omega, by omega⟩
  rw [BitVec.toInt_eq_toNat_of_msb positive] at value
  exact Int.ofNat_inj.1 value

/-- **A text that is not too long** is drawn without a fault and without an access outside of the screen, and
nothing changes but the cells of its characters. -/
theorem text_drawn (memory : Nat → BitVec 32) (fits : font.Fits) (some : font.charHeight ≠ 0)
    (size : n * 100 + 99 < 2147483648) {screen : LScreen} (has : screen.Has e) {text : Str16}
    (scalable : ∀ char ∈ text, Prints char → Scalable memory font n char)
    (narrow : ∀ char ∈ text, Prints char → font.boxWidth n char ≤ e.w)
    (wide : text.length * (e.w + 2 * n) < 2147483648) (long : (text.length + 1) * n * e.w < 2147483648) :
    ∃ d, font.drawText memory screen (BitVec.ofNat 32 n) text = .ok d ∧ d.screen.Has e ∧
      ∀ x y : Nat, x < e.w → y < e.h → (∀ c ∈ font.cells e.w n text, ¬ Covers c.w n c.x c.y x y) →
        d.screen.value e.w y x = screen.value e.w y x := by
  have start : Drawing.At e ⟨0, 0⟩ ⟨screen, 0, 0, []⟩ := ⟨has.w, rfl, rfl⟩
  have lines : text.length * n ≤ text.length * (e.w + 2 * n) := Nat.mul_le_mul_left _ (by omega)
  have bounded : Typeset.Bounded e.w n 2147483648 (text.map (font.move n)) ⟨0, 0⟩ := by
    apply Typeset.bounded_of_reach (reach_le narrow)
    · rwa [List.length_map, Nat.zero_add]
    · rw [List.length_map]
      show 0 + text.length * n < 2147483648
      omega
  obtain ⟨d, l, run, printed, set⟩ := drawChars_cells fits some size scalable start bounded
  obtain rfl : d.printed = l := printed
  have drawn : font.drawText memory screen (BitVec.ofNat 32 n) text = .ok d := by
    rw [Glyphs.drawText, if_neg some, ratio_eq font (by omega)]
    exact run
  have inside : ∀ c ∈ font.cells e.w n text, c.x + c.w ≤ e.w := by
    intro c mem
    refine Typeset.cells_inside (fun char w box => ?_) mem
    obtain ⟨inText, prints, rfl⟩ := box_mem_moves box
    exact narrow char inText prints
  have own : ∀ p ∈ d.printed, ∀ call ∈ p.calls, (call.index e).msb = false ∧
      ∃ x y : Nat, (call.index e).toNat = y * e.w + x ∧
        ∃ c ∈ font.cells e.w n text, c.x + c.w ≤ e.w ∧ Covers c.w n c.x c.y x y := by
    intro p there call mem
    obtain ⟨c, cell, into⟩ := exists_of_forall₂_right set there
    have above := Typeset.cells_above cell
    rw [List.length_map] at above
    have above : c.y ≤ 0 + text.length * n := above
    have last : (c.y + n) * e.w ≤ (text.length + 1) * n * e.w := by
      apply Nat.mul_le_mul_right
      rw [Nat.succ_mul]
      omega
    obtain ⟨positive, x, y, index, covers⟩ :=
      own_index fits some size has into (inside c cell) (Nat.lt_of_le_of_lt last long) (by omega) mem
    exact ⟨positive, x, y, index, c, cell, inside c cell, covers⟩
  obtain ⟨has', frame⟩ := drawText_writes drawn has fun p there call mem => (own p there call mem).1
  refine ⟨d, drawn, has', fun x y left up none => frame _ fun call mem => ?_⟩
  obtain ⟨p, there, mem⟩ := List.mem_flatMap.1 mem
  obtain ⟨-, x', y', index, c, cell, right, covers⟩ := own p there call mem
  intro same
  rw [index] at same
  -- the call is for the point itself
  have left' : x' < e.w := by
    obtain ⟨-, below, -, -⟩ := covers
    omega
  obtain ⟨rfl, rfl⟩ := (cell_eq_iff left left').1 same
  exact none c cell covers

end Run

/-- **Any text in any font.** Whatever sheets a font has been loaded from, one of them with ink: a text whose bitmaps
can be scaled and are not wider than the screen, and that is not too long, is drawn without a fault; `SetBuffer` never
writes outside of the array; and no pixel is changed but in the cells of the characters. -/
theorem text_inside {memory : Nat → BitVec 32} {sheets : List (LScreen × Str16)} {font : Glyphs}
    (loaded : Glyphs.loadSheets memory sheets = .ok font) (ink : ∃ sheet ∈ sheets, HasInk sheet.1) {n : Nat}
    (size : n * 100 + 99 < 2147483648) {e : Extent} {screen : LScreen} (has : screen.Has e) {text : Str16}
    (scales : ∀ char ∈ text, Prints char → ∃ g : Extent, font.bitmapWidth char = BitVec.ofNat 32 g.w ∧
      font.bitmapHeight char = BitVec.ofNat 32 g.h ∧ g.Scales (n * 100 / font.charHeight.toNat))
    (narrow : ∀ char ∈ text, Prints char → font.boxWidth n char ≤ e.w)
    (wide : text.length * (e.w + 2 * n) < 2147483648) (long : (text.length + 1) * n * e.w < 2147483648) :
    ∃ d, font.drawText memory screen (BitVec.ofNat 32 n) text = .ok d ∧ d.screen.Has e ∧
      ∀ x y : Nat, x < e.w → y < e.h → (∀ c ∈ font.cells e.w n text, ¬ Covers c.w n c.x c.y x y) →
        d.screen.value e.w y x = screen.value e.w y x := by
  have whole := Glyphs.loadSheets_whole loaded
  apply text_drawn memory (Glyphs.loadSheets_fits loaded) ((Glyphs.charHeight_loadSheets loaded).2 ink) size has
  · intro char mem prints
    exact (scalable_iff memory whole char).2 (scales char mem prints)
  · exact narrow
  · exact wide
  · exact long

/-- A line of two characters and a tab. -/
theorem tabbed_line_inside :
    ∃ font d, tallFont = .ok font ∧
      font.drawText (fun _ => 0) (ofCells square fun _ => 0) (BitVec.ofNat 32 2) [66, 9, 66] = .ok d ∧
      d.screen.Has square := by
  obtain ⟨font, glyph, made, fits, charHeight, there, has, ratio, width⟩ := tallFont_loaded
  have only : ∀ char ∈ ([66, 9, 66] : Str16), Prints char → char = 66 := by
    intro char mem prints
    simp only [List.mem_cons, List.not_mem_nil, or_false] at mem
    rcases mem with rfl | rfl | rfl
    · rfl
    · exact absurd rfl prints.2.2.1
    · rfl
  have loaded : Glyphs.loadSheets (fun _ => 0) [(rightColumn square, [66])] = .ok font := by
    have array : ¬ ((rightColumn square).w * (rightColumn square).h).msb = true := by decide
    rw [Glyphs.loadSheets, List.foldlM_cons, Glyphs.loadRead, if_neg array]
    show (tallFont >>= _) = _
    rw [made]
    rfl
  have ink : HasInk (rightColumn square) := ⟨1, 0, by decide, by decide, by decide⟩
  have scales : ∀ char ∈ ([66, 9, 66] : Str16), Prints char → ∃ g : Extent,
      font.bitmapWidth char = BitVec.ofNat 32 g.w ∧ font.bitmapHeight char = BitVec.ofNat 32 g.h ∧
        g.Scales (2 * 100 / font.charHeight.toNat) := by
    intro char mem prints
    obtain rfl := only char mem prints
    refine ⟨⟨1, 2, by decide, by decide, by decide⟩, ?_, ?_, ?_⟩
    · rw [Glyphs.bitmapWidth, there]
      exact has.w
    · rw [Glyphs.bitmapHeight, there]
      exact has.h
    · rw [charHeight]
      exact ⟨by decide, by decide, by decide⟩
  have narrow : ∀ char ∈ ([66, 9, 66] : Str16), Prints char → font.boxWidth 2 char ≤ square.w := by
    intro char mem prints
    obtain rfl := only char mem prints
    rw [width]
    decide
  obtain ⟨d, drawn, inside, -⟩ := text_inside loaded ⟨_, List.mem_singleton_self _, ink⟩ (by decide)
    (has_ofCells square fun _ => 0) scales narrow (by decide) (by decide)
  exact ⟨font, d, made, drawn, inside⟩

end Lavoro.Screen
