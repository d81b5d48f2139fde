import Lavoro.Lib.Typeset
import Lavoro.Screen.Baseline

/-!
# The cells of a text

`DrawText` sets the characters of a text like boxes in lines that are `FontSize` high. As long as `currentX`
and `currentY` do not overflow, every character gets a cell of its own, and it is drawn there but for the
pixels whose index overflows in `SetBuffer`.
-/

namespace Lavoro.Screen
open Lib LScreen

/-! ## The layout -/

namespace Glyphs

/-- `ratio`, as long as it does not overflow. -/
def ratio (font : Glyphs) (n : Nat) : BitVec 32 := BitVec.ofNat 32 (n * 100 / font.charHeight.toNat)

/-- The width of the bitmap of a character. -/
def bitmapWidth (font : Glyphs) (char : UInt16) : BitVec 32 :=
  match font.getCharBitmap char with
  | some c => c.w
  | none => font.charHeight >>> 1

/-- The width of the scaled bitmap. -/
def boxWidth (font : Glyphs) (n : Nat) (char : UInt16) : Nat := (scaledSize (font.bitmapWidth char) (font.ratio n)).toNat

/-- What a character of the text does to the pen. -/
def move (font : Glyphs) (n : Nat) (char : UInt16) : Move UInt16 :=
  if char = 13 then .home
  else if char = 10 then .down
  else if char = 9 then .right (n / 2 * 4)
  else if char = 32 then .right (n / 2)
  else .box char (font.boxWidth n char)

/-- The cells of the characters of a text on a screen of width `W`. -/
def cells (font : Glyphs) (W n : Nat) (text : Str16) : List (Cell UInt16) :=
  Typeset.cells W n (text.map (font.move n)) ⟨0, 0⟩

end Glyphs

/-- The bitmap of the character can be scaled. -/
def Scalable (memory : Nat → BitVec 32) (font : Glyphs) (n : Nat) (char : UInt16) : Prop :=
  ∃ c e, font.bitmapOf memory char = .ok c ∧ c.toLScreen.Has e ∧ e.Scales (n * 100 / font.charHeight.toNat)

/-- The scaled bitmap has the pixel `(i, j)`, and in another colour than `FontEmptyColor`. -/
def DrawnAt (memory : Nat → BitVec 32) (font : Glyphs) (n : Nat) (char : UInt16) (i j : Nat) : Prop :=
  ∃ c v, font.bitmapOf memory char = .ok c ∧ i < (c.scale memory (font.ratio n)).w.toNat ∧
    j < (c.scale memory (font.ratio n)).h.toNat ∧ (c.scale memory (font.ratio n)).pixel i j = some v ∧
    v ≠ font.fontEmptyColor

/-- The point lies in the cell that the character has been given. -/
def Printed.Covers (n : Nat) (p : Printed) (x y : Int) : Prop :=
  p.currentX.toInt ≤ x ∧ x < p.currentX.toInt + p.image.w.toInt ∧ p.currentY.toInt ≤ y ∧ y < p.currentY.toInt + n

/-- Every printed character has a cell inside of the screen, no two of them overlap, and every `SetBuffer` call
is for a point of the own cell and computes the index of that point. -/
structure TextCells (screen : LScreen) (n : Nat) (text : Str16) (d : Drawing) : Prop where
  each : d.printed.length = (text.filter (Prints ·)).length
  inside : ∀ p ∈ d.printed, 0 ≤ p.currentX.toInt ∧ p.currentX.toInt + p.image.w.toInt ≤ screen.w.toInt
  apart : d.printed.Pairwise fun p q => ∀ x y, p.Covers n x y → ¬ q.Covers n x y
  own : ∀ p ∈ d.printed, ∀ call ∈ p.calls, p.Covers n call.x.toInt call.y.toInt ∧
    (call.y * screen.w + call.x).toInt = call.y.toInt * screen.w.toInt + call.x.toInt

/-! ## The run -/

theorem tab_eq (m : Nat) : BitVec.ofNat 32 m <<< 2 = BitVec.ofNat 32 (m * 4) := by
  apply BitVec.eq_of_toNat_eq
  rw [BitVec.toNat_shiftLeft, BitVec.toNat_ofNat, BitVec.toNat_ofNat, Nat.shiftLeft_eq]
  omega

section Copy

variable {font : Glyphs} {c : MaskedScreen} {g : Extent} {off : BitVec 32}

/-- **A bitmap is copied** without a fault. -/
theorem copyBitmap_ok (has : c.toLScreen.Has g) (small : off.toNat + g.h < 4294967296) (currentX currentY : BitVec 32)
    (screen : LScreen) : ∃ t, font.copyBitmap c off currentX currentY screen = .ok t := by
  apply (copyBitmap_fails font c off currentX currentY screen).ok
  rintro ⟨x, left, y, up, none⟩
  obtain ⟨i, column, rfl⟩ := mem_wordsFrom_zero.1 left
  obtain ⟨j, row, rfl⟩ := (mem_wordsFrom_add (has.toNat_h ▸ small)).1 up
  rw [has.toNat_w] at column
  rw [has.toNat_h] at row
  have read : c.getBuffer (BitVec.ofNat 32 i) (BitVec.ofNat 32 j) = some (c.value g.w j i) := has.sized.pixel_eq column row
  have back : off + BitVec.ofNat 32 j - off = BitVec.ofNat 32 j := by grind
  rw [back, read] at none
  cases none

end Copy

section Run

variable {memory : Nat → BitVec 32} {font : Glyphs} {n : Nat} {e : Extent}

/-- The drawing goes on at the pen. -/
structure Drawing.At (e : Extent) (p : Pen) (d : Drawing) : Prop where
  width : d.screen.w = BitVec.ofNat 32 e.w
  x : d.currentX = BitVec.ofNat 32 p.x
  y : d.currentY = BitVec.ofNat 32 p.y

/-- A character has been printed into its cell. -/
structure InCell (memory : Nat → BitVec 32) (font : Glyphs) (n : Nat) (c : Cell UInt16) (p : Printed) : Prop where
  printed : PrintedAs memory font (BitVec.ofNat 32 n) (font.ratio n) c.a p
  x : p.currentX = BitVec.ofNat 32 c.x
  y : p.currentY = BitVec.ofNat 32 c.y
  w : p.image.w = BitVec.ofNat 32 c.w

/-- Its place, as signed numbers. -/
theorem InCell.toInt {c : Cell UInt16} {p : Printed} (set : InCell memory font n c p) (inside : c.x + c.w ≤ e.w)
    (down : c.y < 2147483648) : p.currentX.toInt = c.x ∧ p.currentY.toInt = c.y ∧ p.image.w.toInt = c.w := by
  have wide := e.width
  rw [set.x, set.y, set.w, toInt_word (by omega), toInt_word down, toInt_word (by omega)]
  exact ⟨rfl, rfl, rfl⟩

/-- The test for a new line. -/
theorem wrap_at {p : Pen} {d : Drawing} (here : d.At e p) {w : Nat} (small : p.x + w < 2147483648) :
    d.wrap (BitVec.ofNat 32 n) (BitVec.ofNat 32 w) =
      (BitVec.ofNat 32 (Typeset.wrap e.w n w p).x, BitVec.ofNat 32 (Typeset.wrap e.w n w p).y) := by
  have test : d.screen.w.sle (d.currentX + BitVec.ofNat 32 w) = true ↔ e.w ≤ p.x + w := by
    rw [here.width, here.x, ← BitVec.ofNat_add, BitVec.sle_iff_toInt_le, toInt_word e.width, toInt_word small]
    exact Int.ofNat_le
  unfold Drawing.wrap Typeset.wrap
  by_cases reached : e.w ≤ p.x + w
  · rw [if_pos (test.2 reached), if_pos reached, here.y, ← BitVec.ofNat_add]
    rfl
  · rw [if_neg (mt test.1 reached), if_neg reached, here.x, here.y]

theorem bitmapWidth_eq {char : UInt16} {c : MaskedScreen} (made : font.bitmapOf memory char = .ok c) :
    font.bitmapWidth char = c.w := by
  rcases bitmapOf_cases made with there | ⟨missing, width, -⟩
  · rw [Glyphs.bitmapWidth, there]
  · rw [Glyphs.bitmapWidth, missing, width]

theorem bitmapOf_le {char : UInt16} {c : MaskedScreen} (fits : font.Fits) (made : font.bitmapOf memory char = .ok c) :
    c.h.toNat ≤ font.charHeight.toNat := by
  rcases bitmapOf_cases made with there | ⟨-, -, full⟩
  · exact fits char c there
  · exact full ▸ Nat.le_refl _

/-- **A character that is printed** gets the place at which its box is set. -/
theorem printChar_at (fits : font.Fits) (some : font.charHeight ≠ 0) (size : n * 100 + 99 < 2147483648) {p : Pen}
    {d : Drawing} {char : UInt16} (scalable : Scalable memory font n char) (here : d.At e p)
    (small : p.x + font.boxWidth n char < 2147483648) :
    ∃ d' q, font.printChar memory (BitVec.ofNat 32 n) (font.ratio n) d char = .ok d' ∧
      d'.At e (Typeset.next e.w n (.box char (font.boxWidth n char)) p) ∧ d'.printed = d.printed ++ [q] ∧
      InCell memory font n
        ⟨char, (Typeset.wrap e.w n (font.boxWidth n char) p).x, (Typeset.wrap e.w n (font.boxWidth n char) p).y,
          font.boxWidth n char⟩ q := by
  obtain ⟨c, g, bitmap, has, scales⟩ := scalable
  let image := c.scale memory (font.ratio n)
  have imageHas : image.toLScreen.Has (g.scaled _ scales) := by
    rw [show image.toLScreen = _ from c.scale_eq memory has scales]
    exact has_ofCells _ _
  have area : ¬ (scaledSize c.w (font.ratio n) * scaledSize c.h (font.ratio n)).msb = true := by
    rw [has.w, has.h, Glyphs.ratio, scaledSize_eq scales.wide, scaledSize_eq scales.high, area_word, msb_word scales.area]
    decide
  have scaled : c.scaleInto memory (font.ratio n) = .ok image := if_neg area
  have width : image.w = BitVec.ofNat 32 (font.boxWidth n char) := by
    rw [(c.scale_sizes memory (font.ratio n)).1, Glyphs.boxWidth, bitmapWidth_eq bitmap, BitVec.ofNat_toNat,
      BitVec.setWidth_eq]
  let place := d.wrap (BitVec.ofNat 32 n) image.w
  have placed : place = _ := (congrArg (d.wrap _) width).trans (wrap_at here small)
  have tall := (g.scaled _ scales).height
  have offset := offsetY_small (n := n) some (bitmapOf_le fits bitmap) (by omega)
  obtain ⟨t, copied⟩ := @copyBitmap_ok font _ _ _ imageHas
    (show (font.offsetY (BitVec.ofNat 32 n) c.h).toNat + _ < 4294967296 by omega) place.1 place.2 d.screen
  let q : Printed := ⟨c.h, image, place.1, place.2, t.2⟩
  refine ⟨⟨t.1, place.1 + image.w, place.2, d.printed ++ [q]⟩, q, ?_, ?_, rfl, ?_⟩
  · rw [printChar_eq bitmap area]
    show (font.copyBitmap image _ place.1 place.2 d.screen >>= _) = _
    rw [copied]
    rfl
  · refine ⟨(copyBitmap_width copied).trans here.width, ?_, ?_⟩
    · show place.1 + image.w = _
      rw [placed, width, ← BitVec.ofNat_add]
      rfl
    · show place.2 = _
      rw [placed]
      rfl
  · refine ⟨⟨⟨c, bitmap, rfl, scaled⟩, d.screen, t.1, copied⟩, ?_, ?_, width⟩
    · show place.1 = _
      rw [placed]
    · show place.2 = _
      rw [placed]

theorem move_of_prints {char : UInt16} (prints : Prints char) : font.move n char = .box char (font.boxWidth n char) := by
  obtain ⟨notCr, notLf, notTab, notSpace⟩ := prints
  rw [Glyphs.move, if_neg notCr, if_neg notLf, if_neg notTab, if_neg notSpace]

/-- **One turn** moves the pen, and sets what it prints. -/
theorem drawChar_at (fits : font.Fits) (some : font.charHeight ≠ 0) (size : n * 100 + 99 < 2147483648) {p : Pen}
    {d : Drawing} {char : UInt16} (scalable : Prints char → Scalable memory font n char) (here : d.At e p)
    (small : p.x + Typeset.reach (font.move n char) < 2147483648) :
    ∃ d' l, font.drawChar memory (BitVec.ofNat 32 n) (font.ratio n) d char = .ok d' ∧
      d'.At e (Typeset.next e.w n (font.move n char) p) ∧ d'.printed = d.printed ++ l ∧
      List.Forall₂ (InCell memory font n) (Typeset.set e.w n (font.move n char) p) l := by
  by_cases prints : Prints char
  · rw [move_of_prints prints] at small ⊢
    rw [drawChar_of_prints prints]
    obtain ⟨d', q, run, there, printed, cell⟩ := printChar_at fits some size (scalable prints) here small
    exact ⟨d', [q], run, there, printed, .cons cell .nil⟩
  have half : (BitVec.ofNat 32 n).sshiftRight 1 = BitVec.ofNat 32 (n / 2) := half_word (by omega)
  -- a control character moves the pen and prints nothing
  rcases control_cases prints with rfl | rfl | rfl | rfl
  · exact ⟨_, [], rfl, ⟨here.width, rfl, here.y⟩, (List.append_nil _).symm, .nil⟩
  · refine ⟨_, [], rfl, ⟨here.width, here.x, ?_⟩, (List.append_nil _).symm, .nil⟩
    show d.currentY + BitVec.ofNat 32 n = _
    rw [here.y, ← BitVec.ofNat_add]
    rfl
  · refine ⟨_, [], rfl, ⟨here.width, ?_, here.y⟩, (List.append_nil _).symm, .nil⟩
    show d.currentX + (BitVec.ofNat 32 n).sshiftRight 1 <<< 2 = _
    rw [here.x, half, tab_eq, ← BitVec.ofNat_add]
    rfl
  · refine ⟨_, [], rfl, ⟨here.width, ?_, here.y⟩, (List.append_nil _).symm, .nil⟩
    show d.currentX + (BitVec.ofNat 32 n).sshiftRight 1 = _
    rw [here.x, half, ← BitVec.ofNat_add]
    rfl

/-- **The run**: what is printed lies in the cells of the text. -/
theorem drawChars_cells (fits : font.Fits) (some : font.charHeight ≠ 0) (size : n * 100 + 99 < 2147483648) {text : Str16}
    (scalable : ∀ char ∈ text, Prints char → Scalable memory font n char) {p : Pen} {d : Drawing} (here : d.At e p)
    (bounded : Typeset.Bounded e.w n 2147483648 (text.map (font.move n)) p) :
    ∃ d' l, text.foldlM (font.drawChar memory (BitVec.ofNat 32 n) (font.ratio n)) d = .ok d' ∧
      d'.printed = d.printed ++ l ∧
      List.Forall₂ (InCell memory font n) (Typeset.cells e.w n (text.map (font.move n)) p) l := by
  induction text generalizing p d with
  | nil => exact ⟨d, [], rfl, (List.append_nil _).symm, .nil⟩
  | cons char text ih =>
    obtain ⟨⟨small, -⟩, rest⟩ := bounded
    obtain ⟨d₁, own, turn, moved, first, cell⟩ :=
      drawChar_at fits some size (scalable char List.mem_cons_self) here small
    obtain ⟨d₂, later, run, behind, others⟩ :=
      ih (fun c mem => scalable c (List.mem_cons_of_mem char mem)) moved rest
    refine ⟨d₂, own ++ later, ?_, ?_, List.rel_append cell others⟩
    · rw [List.foldlM_cons, turn]
      exact run
    · rw [behind, first, List.append_assoc]

/-- What a character does. -/
theorem move_eq_home_iff {char : UInt16} : font.move n char = .home ↔ char = 13 := by
  constructor
  · intro home
    by_cases prints : Prints char
    · rw [move_of_prints prints] at home
      cases home
    · rcases control_cases prints with rfl | rfl | rfl | rfl
      · rfl
      · cases home
      · cases home
      · cases home
  · exact fun cr => if_pos cr

theorem box_mem_moves {text : Str16} {char : UInt16} {w : Nat} (mem : .box char w ∈ text.map (font.move n)) :
    char ∈ text ∧ Prints char ∧ w = font.boxWidth n char := by
  obtain ⟨c, inText, box⟩ := List.mem_map.1 mem
  by_cases prints : Prints c
  · rw [move_of_prints prints] at box
    cases box
    exact ⟨inText, prints, rfl⟩
  · rcases control_cases prints with rfl | rfl | rfl | rfl
    · cases box
    · cases box
    · cases box
    · cases box

/-- A carriage return is followed by a line feed. -/
theorem moves_return {text : Str16} (lines : text.IsChain fun a b => a = 13 → b = 10) :
    Typeset.Returns (text.map (font.move n)) := by
  refine (List.isChain_map (font.move n)).2 (lines.imp fun a b feed home => ?_)
  obtain rfl := feed (move_eq_home_iff.1 home)
  rfl

/-- **A character in its cell** makes its calls there, and right where no index overflows. -/
theorem own_cell_iff (fits : font.Fits) (some : font.charHeight ≠ 0) (size : n * 100 + 99 < 2147483648) {screen : LScreen}
    (has : screen.Has e) {c : Cell UInt16} {p : Printed} (set : InCell memory font n c p) (inside : c.x + c.w ≤ e.w)
    (down : c.y < 2147483648) :
    (∀ call ∈ p.calls, p.Covers n call.x.toInt call.y.toInt ∧
        (call.y * screen.w + call.x).toInt = call.y.toInt * screen.w.toInt + call.x.toInt) ↔
      ∀ i j, DrawnAt memory font n c.a i j → (c.y + j) * e.w + (c.x + i) < 2147483648 := by
  have wide := e.width
  obtain ⟨image, bitmap, height, scaled⟩ := set.printed.bitmap
  have le : p.height.toNat ≤ font.charHeight.toNat := height ▸ bitmapOf_le fits bitmap
  have low := image_height_le size le set.printed
  have same : p.image = image.scale memory (font.ratio n) := (MaskedScreen.scale_of_scaleInto scaled).symm
  have calls := mem_printed_calls size some le set.printed
  have width : p.image.w.toNat = c.w := by
    rw [set.w, toNat_word (by omega)]
  obtain ⟨cellX, cellY, cellW⟩ := set.toInt inside down
  have screenW : screen.w.toInt = e.w := by
    rw [has.w, toInt_word wide]
  have point (i j : Nat) : p.currentX + BitVec.ofNat 32 i = BitVec.ofNat 32 (c.x + i) ∧
      p.currentY + BitVec.ofNat 32 j = BitVec.ofNat 32 (c.y + j) := by
    rw [set.x, set.y, ← BitVec.ofNat_add, ← BitVec.ofNat_add]
    exact ⟨rfl, rfl⟩
  have index (x y : Nat) : BitVec.ofNat 32 y * screen.w + BitVec.ofNat 32 x = BitVec.ofNat 32 (y * e.w + x) := by
    rw [has.w, ← BitVec.ofNat_mul, ← BitVec.ofNat_add]
  constructor
  · rintro own i j ⟨bitmap', v, made, left, up, read, drawn⟩
    obtain rfl := Except.ok.inj (bitmap.symm.trans made)
    rw [← same] at left up read
    obtain ⟨⟨-, -, above, -⟩, right⟩ := own _ ((calls _).2 ⟨i, j, v, left, up, read, drawn, rfl⟩)
    dsimp only at above right
    rw [(point i j).1, (point i j).2] at right
    rw [(point i j).2, cellY] at above
    -- the row is not above the cell
    have row : c.y + j < 2147483648 := small_of_nonneg (by omega) (by omega)
    rw [index, toInt_word row, toInt_word (show c.x + i < 2147483648 by omega), screenW] at right
    have most := BitVec.toInt_lt (x := BitVec.ofNat 32 ((c.y + j) * e.w + (c.x + i)))
    rw [right] at most
    exact_mod_cast most
  · intro fine call mem
    obtain ⟨i, j, v, left, up, read, drawn, rfl⟩ := (calls call).1 mem
    have small := fine i j ⟨image, v, bitmap, same ▸ left, same ▸ up, same ▸ read, drawn⟩
    rw [width] at left
    have row : c.y + j ≤ (c.y + j) * e.w := Nat.le_mul_of_pos_right _ (by omega)
    dsimp only
    rw [(point i j).1, (point i j).2, index, toInt_word (show c.x + i < 2147483648 by omega),
      toInt_word (show c.y + j < 2147483648 by omega), toInt_word small, screenW]
    refine ⟨⟨?_, ?_, ?_, ?_⟩, by push_cast; rfl⟩
    · rw [cellX]
      omega
    · rw [cellX, cellW]
      omega
    · rw [cellY]
      omega
    · rw [cellY]
      omega

/-- **When a text is drawn in cells of its own**: no index of a pixel that is drawn overflows. -/
theorem drawText_cells_iff (memory : Nat → BitVec 32) {font : Glyphs} (fits : font.Fits) (some : font.charHeight ≠ 0)
    (size : n * 100 + 99 < 2147483648) {screen : LScreen} (has : screen.Has e) {text : Str16}
    (lines : text.IsChain fun a b => a = 13 → b = 10)
    (scalable : ∀ char ∈ text, Prints char → Scalable memory font n char)
    (narrow : ∀ char ∈ text, Prints char → font.boxWidth n char ≤ e.w)
    (bounded : Typeset.Bounded e.w n 2147483648 (text.map (font.move n)) ⟨0, 0⟩) :
    (∃ d, font.drawText memory screen (BitVec.ofNat 32 n) text = .ok d ∧ TextCells screen n text d) ↔
      ∀ c ∈ font.cells e.w n text, ∀ i j, DrawnAt memory font n c.a i j → (c.y + j) * e.w + (c.x + i) < 2147483648 := by
  have wide := e.width
  have start : Drawing.At e ⟨0, 0⟩ ⟨screen, 0, 0, []⟩ := ⟨has.w, rfl, rfl⟩
  obtain ⟨d, l, run, printed, set⟩ := drawChars_cells fits some size scalable start bounded
  obtain rfl : d.printed = l := printed
  have drawn : font.drawText memory screen (BitVec.ofNat 32 n) text = .ok d := by
    rw [Glyphs.drawText, if_neg some, ratio_eq font (by omega)]
    exact run
  have inside : ∀ c ∈ font.cells e.w n text, c.x + c.w ≤ e.w := by
    intro c mem
    refine Typeset.cells_inside (fun char w box => ?_) mem
    obtain ⟨inText, prints, rfl⟩ := box_mem_moves box
    exact narrow char inText prints
  have down : ∀ c ∈ font.cells e.w n text, c.y < 2147483648 := fun c mem => (Typeset.cells_bounded bounded mem).2
  have own (c : Cell UInt16) (mem : c ∈ font.cells e.w n text) (p : Printed) (into : InCell memory font n c p) :=
    own_cell_iff fits some size has into (inside c mem) (down c mem)
  constructor
  · rintro ⟨d', drawn', cells⟩ c mem
    obtain rfl := Except.ok.inj (drawn.symm.trans drawn')
    obtain ⟨p, there, into⟩ := exists_of_forall₂_left set mem
    exact (own c mem p into).1 (cells.own p there)
  · intro fine
    refine ⟨d, drawn, ?_, fun p there => ?_, ?_, fun p there => ?_⟩
    · exact (drawText_printed drawn).length_eq.symm
    · obtain ⟨c, mem, into⟩ := exists_of_forall₂_right set there
      obtain ⟨x, -, w⟩ := into.toInt (inside c mem) (down c mem)
      have left := inside c mem
      rw [x, w, has.w, toInt_word wide]
      omega
    · apply pairwise_of_forall₂ set (Typeset.cells_apart (moves_return lines))
      intro c mem c' mem' p p' into into' apart x y covers covers'
      obtain ⟨px, py, pw⟩ := into.toInt (inside c mem) (down c mem)
      obtain ⟨px', py', pw'⟩ := into'.toInt (inside c' mem') (down c' mem')
      unfold Printed.Covers at covers covers'
      rw [px, py, pw] at covers
      rw [px', py', pw'] at covers'
      obtain ⟨x, rfl⟩ := Int.eq_ofNat_of_zero_le (show 0 ≤ x by omega)
      obtain ⟨y, rfl⟩ := Int.eq_ofNat_of_zero_le (show 0 ≤ y by omega)
      exact apart x y (by omega) (by omega) (by omega) (by omega) (by omega) (by omega) (by omega) (by omega)
    · obtain ⟨c, mem, into⟩ := exists_of_forall₂_right set there
      exact (own c mem p into).2 (fine c mem)

end Run

/-- A font whose only glyph is that of `B`, two pixels high. -/
def tallFont : Except FontFault Glyphs := Glyphs.new.loadSheet (fun _ => 0) (rightColumn square) [66]

theorem tallFont_loaded :
    ∃ font glyph, tallFont = .ok font ∧ font.Fits ∧ font.charHeight = 2 ∧ font.getCharBitmap 66 = some glyph ∧
      glyph.toLScreen.Has ⟨1, 2, by decide, by decide, by decide⟩ ∧ font.ratio 2 = 100 ∧ font.boxWidth 2 66 = 1 := by
  have run : (do
      let font ← tallFont.toOption
      let glyph ← font.getCharBitmap 66
      return (font.charHeight, glyph.w, glyph.h, glyph.pixels.size, glyph.pixels.outside)) =
        some (2, 1, 2, 2, false) := by decide +kernel
  obtain ⟨font, loaded, rest⟩ := Option.bind_eq_some_iff.1 run
  obtain ⟨glyph, there, values⟩ := Option.bind_eq_some_iff.1 rest
  have values := Option.some.inj values
  simp only [Prod.mk.injEq] at values
  obtain ⟨charHeight, w, h, size, outside⟩ := values
  have loaded := eq_ok_of_toOption loaded
  have ratio : font.ratio 2 = 100 := by
    rw [Glyphs.ratio, charHeight]
    rfl
  have width : font.boxWidth 2 66 = 1 := by
    rw [Glyphs.boxWidth, Glyphs.bitmapWidth, there, ratio]
    dsimp only
    rw [w]
    rfl
  exact ⟨font, glyph, loaded, Glyphs.new_fits.loadSheet loaded, charHeight, there, ⟨w, h, size, outside⟩, ratio, width⟩

/-- Two lines with a character each. -/
theorem two_lines :
    ∃ font d, tallFont = .ok font ∧
      font.drawText (fun _ => 0) (ofCells square fun _ => 0) (BitVec.ofNat 32 2) [66, 13, 10, 66] = .ok d ∧
      TextCells (ofCells square fun _ => 0) 2 [66, 13, 10, 66] d := by
  obtain ⟨font, glyph, loaded, fits, charHeight, there, has, ratio, width⟩ := tallFont_loaded
  have bitmap : font.bitmapOf (fun _ => 0) 66 = .ok glyph := by
    rw [Glyphs.bitmapOf, there]
  have lines : ([66, 13, 10, 66] : Str16).IsChain fun a b => a = 13 → b = 10 := by decide
  have only : ∀ char ∈ ([66, 13, 10, 66] : Str16), Prints char → char = 66 := by
    intro char mem prints
    simp only [List.mem_cons, List.not_mem_nil, or_false] at mem
    rcases mem with rfl | rfl | rfl | rfl
    · rfl
    · exact absurd rfl prints.1
    · exact absurd rfl prints.2.1
    · rfl
  have moves : ([66, 13, 10, 66] : Str16).map (font.move 2) = [.box 66 1, .home, .down, .box 66 1] := by
    have box : font.move 2 66 = .box 66 1 := congrArg (Move.box 66) width
    simp only [List.map_cons, List.map_nil, box]
    rfl
  have cells : ∀ c ∈ font.cells 2 2 [66, 13, 10, 66], c.a = 66 ∧ c.x = 0 ∧ c.y ≤ 2 := by
    rw [Glyphs.cells, moves]
    decide
  have scalable : ∀ char ∈ ([66, 13, 10, 66] : Str16), Prints char → Scalable (fun _ => 0) font 2 char := by
    intro char mem prints
    obtain rfl := only char mem prints
    refine ⟨glyph, _, bitmap, has, ?_⟩
    rw [charHeight]
    exact ⟨by decide, by decide, by decide⟩
  have narrow : ∀ char ∈ ([66, 13, 10, 66] : Str16), Prints char → font.boxWidth 2 char ≤ square.w := by
    intro char mem prints
    obtain rfl := only char mem prints
    rw [width]
    decide
  have bounded : Typeset.Bounded square.w 2 2147483648 (([66, 13, 10, 66] : Str16).map (font.move 2)) ⟨0, 0⟩ := by
    rw [moves]
    decide
  obtain ⟨d, drawn, set⟩ := (drawText_cells_iff (fun _ => 0) fits (charHeight ▸ by decide) (by decide)
    (has_ofCells square fun _ => 0) lines scalable narrow bounded).2 fun c mem i j shown => by
      obtain ⟨a, x, y⟩ := cells c mem
      obtain ⟨image, v, made, left, up, -⟩ := shown
      rw [a] at made
      obtain rfl := Except.ok.inj (bitmap.symm.trans made)
      rw [(glyph.scale_sizes _ _).1, has.w, ratio] at left
      rw [(glyph.scale_sizes _ _).2, has.h, ratio] at up
      have left : i < 1 := left
      have up : j < 2 := up
      show (c.y + j) * 2 + (c.x + i) < 2147483648
      omega
  exact ⟨font, d, loaded, drawn, set⟩

/-- One row of `2^30` pixels. -/
def longRow : Extent := ⟨1073741824, 1, by decide, line.height, by decide⟩

/-- On the third line, which is not on the screen, a character is drawn into the first row. -/
theorem third_line_wraps :
    ∃ font d, tallFont = .ok font ∧ font.charHeight = 2 ∧ font.boxWidth 2 66 ≤ longRow.w ∧
      font.drawText (fun _ => 0) (ofCells longRow fun _ => 1) 2 [10, 10, 66] = .ok d ∧
      d.printed.map (fun p => (p.currentX, p.currentY)) = [(0, 4)] ∧ d.screen.pixel 0 0 = some 0 ∧
      ¬ TextCells (ofCells longRow fun _ => 1) 2 [10, 10, 66] d := by
  obtain ⟨font, -, loaded, -, charHeight, -, -, -, width⟩ := tallFont_loaded
  have run : (do
      let font ← tallFont.toOption
      let d ← (font.drawText (fun _ => 0) (ofCells longRow fun _ => 1) 2 [10, 10, 66]).toOption
      return (d.printed.map fun p => (p.currentX, p.currentY, p.calls), decide (d.screen.pixel 0 0 = some 0))) =
        some ([(0, 4, [⟨0, 0, 0, 4⟩, ⟨0, 1, 0, 5⟩])], true) := by decide +kernel
  rw [loaded] at run
  obtain ⟨font', same, rest⟩ := Option.bind_eq_some_iff.1 run
  obtain rfl : font = font' := Option.some.inj same
  obtain ⟨d, drawn, values⟩ := Option.bind_eq_some_iff.1 rest
  obtain ⟨printed, pixel⟩ := Prod.mk.inj (Option.some.inj values)
  obtain ⟨p, others, list, own, none⟩ := List.map_eq_cons_iff.1 printed
  obtain rfl := List.map_eq_nil_iff.1 none
  simp only [Prod.mk.injEq] at own
  obtain ⟨currentX, currentY, calls⟩ := own
  refine ⟨font, d, loaded, charHeight, ?_, eq_ok_of_toOption drawn, ?_, of_decide_eq_true pixel, fun cells => ?_⟩
  · rw [width]
    decide
  · rw [list, List.map_cons, List.map_nil, currentX, currentY]
  · have own := cells.own p (list ▸ List.mem_cons_self) ⟨0, 0, 0, 4⟩ (calls ▸ List.mem_cons_self)
    exact absurd own.2 (by decide)

end Lavoro.Screen
