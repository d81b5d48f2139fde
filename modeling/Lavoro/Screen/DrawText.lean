import Lavoro.Screen.Sheets

/-!
# Drawing text (`LFont::DrawText`)

`DrawText` scales the glyph of every character so that a glyph of the height `CharHeight` comes to be
`FontSize` high, and copies what has another colour than `FontEmptyColor` to the screen. A character for
which there is no glyph gets a blank of its own. What is printed is recorded with the `SetBuffer` calls
that are made for it.
-/

namespace Lavoro.Screen
open Lib LScreen

/-- A call `SetBuffer(x, y, ..)` for the pixel `(column, row)` of the scaled bitmap. -/
structure SetCall where
  column : BitVec 32
  row : BitVec 32
  x : BitVec 32
  y : BitVec 32
  deriving Repr, DecidableEq

/-- A character that has been printed: the height of its bitmap and the bitmap scaled, `currentX` and
`currentY` when it is copied, and the calls. -/
structure Printed where
  height : BitVec 32
  image : MaskedScreen
  currentX : BitVec 32
  currentY : BitVec 32
  calls : List SetCall

/-- The screen, `currentX` and `currentY`, and what has been printed. -/
structure Drawing where
  screen : LScreen
  currentX : BitVec 32
  currentY : BitVec 32
  printed : List Printed

/-- `if ((currentX + c->W) >= Screen->W)`, which begins a new line. -/
def Drawing.wrap (d : Drawing) (fontSize w : BitVec 32) : BitVec 32 × BitVec 32 :=
  if d.screen.w.sle (d.currentX + w) then (0, d.currentY + fontSize) else (d.currentX, d.currentY)

/-- No control character and no space. -/
def Prints (char : UInt16) : Prop := char ≠ 13 ∧ char ≠ 10 ∧ char ≠ 9 ∧ char ≠ 32

instance : DecidablePred Prints := fun _ => inferInstanceAs (Decidable (_ ∧ _ ∧ _ ∧ _))

theorem control_cases {char : UInt16} (control : ¬ Prints char) : char = 13 ∨ char = 10 ∨ char = 9 ∨ char = 32 := by
  by_contra other
  simp only [not_or] at other
  exact control other

/-- `Scale(Ratio)`, whose screen needs an array. -/
def MaskedScreen.scaleInto (memory : Nat → BitVec 32) (s : MaskedScreen) (ratio : BitVec 32) : Except FontFault MaskedScreen :=
  if (scaledSize s.w ratio * scaledSize s.h ratio).msb then .error .negativeSize else .ok (s.scale memory ratio)

theorem MaskedScreen.scale_of_scaleInto {memory : Nat → BitVec 32} {s t : MaskedScreen} {ratio : BitVec 32}
    (scaled : s.scaleInto memory ratio = .ok t) : s.scale memory ratio = t := by
  unfold MaskedScreen.scaleInto at scaled
  split at scaled
  · cases scaled
  · exact Except.ok.inj scaled

namespace Glyphs

/-- `new LBitmap(0, 0, CharHeight >> 1, CharHeight)`, filled. -/
def blank (memory : Nat → BitVec 32) (font : Glyphs) : Except FontFault MaskedScreen := do
  let new ← newBitmap memory (font.charHeight >>> 1) font.charHeight
  return { toLScreen := new.fill font.fontEmptyColor, x := 0, y := 0, emptyColor := -1, hasMask := false }

/-- `c`, before it is scaled. -/
def bitmapOf (memory : Nat → BitVec 32) (font : Glyphs) (char : UInt16) : Except FontFault MaskedScreen :=
  match font.getCharBitmap char with
  | some c => .ok c
  | none => font.blank memory

/-- `OffsetY`, unsigned. -/
def offsetY (font : Glyphs) (fontSize height : BitVec 32) : BitVec 32 :=
  ((font.charHeight - height) * fontSize + font.charHeight - 1) / font.charHeight

/-- The body of the loops over the scaled bitmap, with the screen and the calls. -/
def copyPixel (font : Glyphs) (c : MaskedScreen) (offsetY currentX currentY x : BitVec 32)
    (s : LScreen × List SetCall) (y : BitVec 32) : Except FontFault (LScreen × List SetCall) := do
  let v ← readPixel c.toLScreen x (y - offsetY)
  if v ≠ font.fontEmptyColor then
    return (s.1.setBuffer (currentX + x) (currentY + y - offsetY) v,
      s.2 ++ [⟨x, y - offsetY, currentX + x, currentY + y - offsetY⟩])
  else return s

/-- The loops. -/
def copyBitmap (font : Glyphs) (c : MaskedScreen) (offsetY currentX currentY : BitVec 32) (screen : LScreen) :
    Except FontFault (LScreen × List SetCall) :=
  (wordsFrom 0 c.w).foldlM (fun s x =>
    (wordsFrom offsetY (c.h + offsetY)).foldlM (font.copyPixel c offsetY currentX currentY x) s) (screen, [])

/-- A character that is printed. -/
def printChar (memory : Nat → BitVec 32) (font : Glyphs) (fontSize ratio : BitVec 32) (d : Drawing) (char : UInt16) :
    Except FontFault Drawing := do
  let c ← font.bitmapOf memory char
  let image ← c.scaleInto memory ratio
  let place := d.wrap fontSize image.w
  let copied ← font.copyBitmap image (font.offsetY fontSize c.h) place.1 place.2 d.screen
  return {
    screen := copied.1
    currentX := place.1 + image.w
    currentY := place.2
    printed := d.printed ++ [⟨c.h, image, place.1, place.2, copied.2⟩] }

/-- One turn of the loop over the text. -/
def drawChar (memory : Nat → BitVec 32) (font : Glyphs) (fontSize ratio : BitVec 32) (d : Drawing) (char : UInt16) :
    Except FontFault Drawing :=
  let defCharWidth := fontSize.sshiftRight 1
  if char = 13 then .ok { d with currentX := 0 }
  else if char = 10 then .ok { d with currentY := d.currentY + fontSize }
  else if char = 9 then .ok { d with currentX := d.currentX + defCharWidth <<< 2 }
  else if char = 32 then .ok { d with currentX := d.currentX + defCharWidth }
  else font.printChar memory fontSize ratio d char

/-- `DrawText(Screen, FontSize, Text, TextLength)`. -/
def drawText (memory : Nat → BitVec 32) (font : Glyphs) (screen : LScreen) (fontSize : BitVec 32) (text : Str16) :
    Except FontFault Drawing :=
  if font.charHeight = 0 then .error .divideByZero
  else text.foldlM (font.drawChar memory fontSize (fontSize * 100 / font.charHeight)) ⟨screen, 0, 0, []⟩

end Glyphs

/-! ## The calls -/

section Calls

variable {font : Glyphs} {c : MaskedScreen} {off currentX currentY : BitVec 32}

theorem copyPixel_fails (font : Glyphs) (c : MaskedScreen) (off currentX currentY x y : BitVec 32) (s : LScreen × List SetCall) :
    FailsWhen (c.getBuffer x (y - off) = none) .outside (font.copyPixel c off currentX currentY x s y) := by
  refine (readPixel_fails c.toLScreen x (y - off)).bind fun v => ?_
  split
  · exact ⟨_, rfl⟩
  · exact ⟨_, rfl⟩

/-- **A scaled bitmap is copied**, unless it is read at a negative index. -/
theorem copyBitmap_fails (font : Glyphs) (c : MaskedScreen) (off currentX currentY : BitVec 32) (screen : LScreen) :
    FailsWhen (∃ x ∈ wordsFrom 0 c.w, ∃ y ∈ wordsFrom off (c.h + off), c.getBuffer x (y - off) = none) .outside
      (font.copyBitmap c off currentX currentY screen) := by
  apply FailsWhen.foldlM
  intro s x
  apply FailsWhen.foldlM
  exact fun s y => copyPixel_fails font c off currentX currentY x y s

/-- The screen keeps its width. -/
theorem copyBitmap_width {screen : LScreen} {t : LScreen × List SetCall}
    (copied : font.copyBitmap c off currentX currentY screen = .ok t) : t.1.w = screen.w := by
  refine Loop.foldlM_keeps (motive := fun s : LScreen × List SetCall => s.1.w = screen.w) ?_ copied rfl
  intro s x t column before
  refine Loop.foldlM_keeps (motive := fun s : LScreen × List SetCall => s.1.w = screen.w) ?_ column before
  intro s y t pixel before
  obtain ⟨v, -, done⟩ := Loop.bind_eq_ok pixel
  split at done
  · cases done
    exact (setBuffer_keeps s.1 _ _ _).1.trans before
  · cases done
    exact before

/-- The call for a pixel, if there is one. -/
def callFor (font : Glyphs) (c : MaskedScreen) (off currentX currentY x y : BitVec 32) : Option SetCall :=
  match c.getBuffer x (y - off) with
  | some v => if v ≠ font.fontEmptyColor then some ⟨x, y - off, currentX + x, currentY + y - off⟩ else none
  | none => none

/-- The calls for a column. -/
theorem copyColumn_calls {x : BitVec 32} {rows : List (BitVec 32)} {s t : LScreen × List SetCall}
    (copied : rows.foldlM (font.copyPixel c off currentX currentY x) s = .ok t) :
    t.2 = s.2 ++ rows.filterMap (callFor font c off currentX currentY x) := by
  induction rows generalizing s with
  | nil =>
    cases copied
    rw [List.filterMap_nil, List.append_nil]
  | cons y rows ih =>
    rw [List.foldlM_cons] at copied
    cases read : c.getBuffer x (y - off) with
    | none =>
      have fault : font.copyPixel c off currentX currentY x s y = .error .outside := by
        rw [Glyphs.copyPixel, readPixel, read]
        rfl
      rw [fault] at copied
      cases copied
    | some v =>
      have turn : font.copyPixel c off currentX currentY x s y =
          if v ≠ font.fontEmptyColor then
            .ok (s.1.setBuffer (currentX + x) (currentY + y - off) v,
              s.2 ++ [⟨x, y - off, currentX + x, currentY + y - off⟩])
          else .ok s := by
        rw [Glyphs.copyPixel, readPixel, read]
        rfl
      rw [turn] at copied
      by_cases drawn : v ≠ font.fontEmptyColor
      · rw [if_pos drawn] at copied
        have call : callFor font c off currentX currentY x y =
            some ⟨x, y - off, currentX + x, currentY + y - off⟩ := by
          rw [callFor, read]
          exact if_pos drawn
        rw [ih copied, List.filterMap_cons_some call, List.append_assoc]
        rfl
      · rw [if_neg drawn] at copied
        have call : callFor font c off currentX currentY x y = none := by
          rw [callFor, read]
          exact if_neg drawn
        rw [ih copied, List.filterMap_cons_none call]

/-- **The calls for a scaled bitmap.** -/
theorem copyBitmap_calls {screen : LScreen} {t : LScreen × List SetCall}
    (copied : font.copyBitmap c off currentX currentY screen = .ok t) :
    t.2 = (wordsFrom 0 c.w).flatMap fun x =>
      (wordsFrom off (c.h + off)).filterMap (callFor font c off currentX currentY x) := by
  have columns : ∀ (l : List (BitVec 32)) (s t : LScreen × List SetCall),
      l.foldlM (fun s x => (wordsFrom off (c.h + off)).foldlM (font.copyPixel c off currentX currentY x) s) s = .ok t →
        t.2 = s.2 ++ l.flatMap fun x => (wordsFrom off (c.h + off)).filterMap (callFor font c off currentX currentY x) := by
    intro l
    induction l with
    | nil =>
      intro s t done
      cases done
      rw [List.flatMap_nil, List.append_nil]
    | cons x l ih =>
      intro s t done
      rw [List.foldlM_cons] at done
      obtain ⟨u, column, rest⟩ := Loop.bind_eq_ok done
      rw [ih u t rest, copyColumn_calls column, List.flatMap_cons, List.append_assoc]
  exact columns _ _ _ copied

theorem mem_wordsFrom {a b x : BitVec 32} : x ∈ wordsFrom a b ↔ ∃ t < b.toNat - a.toNat, x = a + BitVec.ofNat 32 t := by
  simp only [wordsFrom, List.mem_map, List.mem_range, eq_comm]

/-- The columns. -/
theorem mem_wordsFrom_zero {b x : BitVec 32} : x ∈ wordsFrom 0 b ↔ ∃ i < b.toNat, x = BitVec.ofNat 32 i := by
  have point (i : BitVec 32) : 0 + i = i := BitVec.zero_add i
  have zero : (0 : BitVec 32).toNat = 0 := rfl
  simp only [mem_wordsFrom, point, zero, Nat.sub_zero]

/-- The rows. -/
theorem mem_wordsFrom_add {h y : BitVec 32} (small : off.toNat + h.toNat < 4294967296) :
    y ∈ wordsFrom off (h + off) ↔ ∃ j < h.toNat, y = off + BitVec.ofNat 32 j := by
  have count : (h + off).toNat - off.toNat = h.toNat := by
    rw [BitVec.toNat_add]
    omega
  rw [mem_wordsFrom, count]

/-- A call is for a pixel of the bitmap; its row does not depend on the offset. -/
theorem mem_calls {screen : LScreen} {t : LScreen × List SetCall}
    (copied : font.copyBitmap c off currentX currentY screen = .ok t) (small : off.toNat + c.h.toNat < 4294967296)
    (call : SetCall) :
    call ∈ t.2 ↔ ∃ i j v, i < c.w.toNat ∧ j < c.h.toNat ∧ c.pixel i j = some v ∧ v ≠ font.fontEmptyColor ∧
      call = ⟨BitVec.ofNat 32 i, BitVec.ofNat 32 j, currentX + BitVec.ofNat 32 i, currentY + BitVec.ofNat 32 j⟩ := by
  have row (y : BitVec 32) : off + y - off = y := by grind
  have below (y : BitVec 32) : currentY + (off + y) - off = currentY + y := by grind
  rw [copyBitmap_calls copied]
  simp only [List.mem_flatMap, List.mem_filterMap, mem_wordsFrom_zero, mem_wordsFrom_add small]
  constructor
  · rintro ⟨x, ⟨i, left, rfl⟩, y, ⟨j, up, rfl⟩, made⟩
    rw [callFor, row, below] at made
    split at made
    · rename_i v read
      split at made
      · rename_i drawn
        exact ⟨i, j, v, left, up, read, drawn, (Option.some.inj made).symm⟩
      · cases made
    · cases made
  · rintro ⟨i, j, v, left, up, read, drawn, rfl⟩
    refine ⟨_, ⟨i, left, rfl⟩, _, ⟨j, up, rfl⟩, ?_⟩
    have read' : c.getBuffer (BitVec.ofNat 32 i) (BitVec.ofNat 32 j) = some v := read
    rw [callFor, row, below, read']
    exact if_pos drawn

end Calls

/-! ## The characters printed -/

section Related

variable {α β : Type} {R : α → β → Prop} {l : List α} {l' : List β}

theorem exists_of_forall₂_left (h : List.Forall₂ R l l') {a : α} (mem : a ∈ l) : ∃ b ∈ l', R a b := by
  induction h with
  | nil => cases mem
  | cons here _ ih =>
    rcases List.mem_cons.1 mem with rfl | behind
    · exact ⟨_, List.mem_cons_self, here⟩
    · obtain ⟨b, own, related⟩ := ih behind
      exact ⟨b, List.mem_cons_of_mem _ own, related⟩

theorem exists_of_forall₂_right (h : List.Forall₂ R l l') {b : β} (mem : b ∈ l') : ∃ a ∈ l, R a b :=
  exists_of_forall₂_left (List.Forall₂.flip h) mem

/-- Pairs on the one side give pairs on the other. -/
theorem pairwise_of_forall₂ {S : α → α → Prop} {T : β → β → Prop} (h : List.Forall₂ R l l') (pairs : l.Pairwise S)
    (transfer : ∀ a ∈ l, ∀ a' ∈ l, ∀ b b', R a b → R a' b' → S a a' → T b b') : l'.Pairwise T := by
  induction h with
  | nil => exact .nil
  | @cons a b l l' here behind ih =>
    obtain ⟨first, rest⟩ := List.pairwise_cons.1 pairs
    refine List.pairwise_cons.2 ⟨fun b' mem => ?_, ih rest fun c left d right => ?_⟩
    · obtain ⟨a', own, related⟩ := exists_of_forall₂_right behind mem
      exact transfer a List.mem_cons_self a' (List.mem_cons_of_mem a own) b b' here related (first a' own)
    · exact transfer c (List.mem_cons_of_mem a left) d (List.mem_cons_of_mem a right)

end Related

section Run

variable {memory : Nat → BitVec 32} {font : Glyphs} {fontSize ratio : BitVec 32}

/-- The record is that of a character. -/
structure PrintedAs (memory : Nat → BitVec 32) (font : Glyphs) (fontSize ratio : BitVec 32) (char : UInt16) (p : Printed) :
    Prop where
  bitmap : ∃ c, font.bitmapOf memory char = .ok c ∧ p.height = c.h ∧ c.scaleInto memory ratio = .ok p.image
  copied : ∃ before after, font.copyBitmap p.image (font.offsetY fontSize p.height) p.currentX p.currentY before =
    .ok (after, p.calls)

/-- **A character** whose bitmap and scaled bitmap can be made. -/
theorem printChar_eq {char : UInt16} {c : MaskedScreen} (bitmap : font.bitmapOf memory char = .ok c)
    (array : ¬ (scaledSize c.w ratio * scaledSize c.h ratio).msb = true) (d : Drawing) :
    font.printChar memory fontSize ratio d char =
      font.copyBitmap (c.scale memory ratio) (font.offsetY fontSize c.h) (d.wrap fontSize (c.scale memory ratio).w).1
          (d.wrap fontSize (c.scale memory ratio).w).2 d.screen >>= fun copied => .ok {
        screen := copied.1
        currentX := (d.wrap fontSize (c.scale memory ratio).w).1 + (c.scale memory ratio).w
        currentY := (d.wrap fontSize (c.scale memory ratio).w).2
        printed := d.printed ++ [⟨c.h, c.scale memory ratio, (d.wrap fontSize (c.scale memory ratio).w).1,
          (d.wrap fontSize (c.scale memory ratio).w).2, copied.2⟩] } := by
  rw [Glyphs.printChar, bitmap]
  show (c.scaleInto memory ratio >>= _) = _
  rw [MaskedScreen.scaleInto, if_neg array]
  rfl

theorem printChar_printed {d d' : Drawing} {char : UInt16} (printed : font.printChar memory fontSize ratio d char = .ok d') :
    ∃ p, PrintedAs memory font fontSize ratio char p ∧ d'.printed = d.printed ++ [p] := by
  obtain ⟨c, bitmap, rest⟩ := Loop.bind_eq_ok printed
  obtain ⟨image, scaled, rest⟩ := Loop.bind_eq_ok rest
  obtain ⟨copied, calls, done⟩ := Loop.bind_eq_ok rest
  cases done
  let place := d.wrap fontSize image.w
  refine ⟨⟨c.h, image, place.1, place.2, copied.2⟩, ⟨⟨c, bitmap, rfl, scaled⟩, ?_⟩, rfl⟩
  exact ⟨d.screen, copied.1, calls⟩

/-- The others only move `currentX` and `currentY`. -/
theorem drawChar_of_control (font : Glyphs) (memory : Nat → BitVec 32) (fontSize ratio : BitVec 32) (d : Drawing)
    {char : UInt16} (control : ¬ Prints char) :
    ∃ x y, font.drawChar memory fontSize ratio d char = .ok { d with currentX := x, currentY := y } := by
  rcases control_cases control with rfl | rfl | rfl | rfl
  · exact ⟨_, _, rfl⟩
  · exact ⟨_, _, rfl⟩
  · exact ⟨_, _, rfl⟩
  · exact ⟨_, _, rfl⟩

theorem drawChar_of_prints {d : Drawing} {char : UInt16} (prints : Prints char) :
    font.drawChar memory fontSize ratio d char = font.printChar memory fontSize ratio d char := by
  obtain ⟨notCr, notLf, notTab, notSpace⟩ := prints
  rw [Glyphs.drawChar, if_neg notCr, if_neg notLf, if_neg notTab, if_neg notSpace]

/-- **What is printed** are the characters of the text that print. -/
theorem drawText_printed {screen : LScreen} {text : Str16} {d : Drawing}
    (drawn : font.drawText memory screen fontSize text = .ok d) :
    List.Forall₂ (PrintedAs memory font fontSize (fontSize * 100 / font.charHeight)) (text.filter (Prints ·)) d.printed := by
  have run : ∀ (text : Str16) (s d : Drawing),
      text.foldlM (font.drawChar memory fontSize (fontSize * 100 / font.charHeight)) s = .ok d →
        ∃ l, d.printed = s.printed ++ l ∧
          List.Forall₂ (PrintedAs memory font fontSize (fontSize * 100 / font.charHeight)) (text.filter (Prints ·)) l := by
    intro text
    induction text with
    | nil =>
      intro s d done
      cases done
      exact ⟨[], (List.append_nil _).symm, .nil⟩
    | cons char text ih =>
      intro s d done
      rw [List.foldlM_cons] at done
      obtain ⟨t, turn, rest⟩ := Loop.bind_eq_ok done
      obtain ⟨l, later, all⟩ := ih t d rest
      by_cases prints : Prints char
      · rw [drawChar_of_prints prints] at turn
        obtain ⟨p, own, appended⟩ := printChar_printed turn
        refine ⟨p :: l, ?_, ?_⟩
        · rw [later, appended, List.append_assoc]
          rfl
        · rw [List.filter_cons_of_pos (by simpa using prints)]
          exact .cons own all
      · obtain ⟨x, y, control⟩ := drawChar_of_control font memory fontSize (fontSize * 100 / font.charHeight) s prints
        obtain rfl := Except.ok.inj (control.symm.trans turn)
        refine ⟨l, later, ?_⟩
        rw [List.filter_cons_of_neg (by simpa using prints)]
        exact all
  unfold Glyphs.drawText at drawn
  split at drawn
  · cases drawn
  · obtain ⟨l, printed, all⟩ := run text _ d drawn
    rw [printed]
    exact all

end Run

end Lavoro.Screen
