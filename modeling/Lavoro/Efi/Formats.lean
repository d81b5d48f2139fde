import Lavoro.Efi.Print

/-!
# The format language of `UnicodeSPrint`

The comment in front of `_Print` says what an item may be made of: `%w.lF`, with flags. `Piece` is that language and `shown` its
meaning, piece by piece; `render_pieces` is that a format that is made of pieces prints what they mean. The units of a width are
read by a loop of their own, so no other digit may stand behind a width. `N`, `H` and `E`, which the comment has as items of
their own, set attributes that `UnicodeSPrint` has as 0; an item goes on behind them, and so they count as modifiers.
-/

namespace Lavoro
open Lib

/-- What may stand in front of the letter of an item. -/
inductive Modifier where
  | comma
  | left
  | zero
  | long
  | field
  | star
  | width (n : Nat)
  | attr (c : UInt16)

/-- The letter of an item; an `a` and an `s` and the letters of what is made into a string are all `text`. -/
inductive Letter where
  | percent
  | text (c : UInt16)
  | char
  | signed
  | unsigned
  | hex
  | fixedHex
  | pointer
  | unknown (c : UInt16)

/-- A unit that stands for itself, or an item. -/
inductive Piece where
  | plain (c : UInt16)
  | item (modifiers : List Modifier) (letter : Letter)

/-! ## How they are written -/

def Modifier.units : Modifier → Str16
  | .comma => [44]
  | .left => [45]
  | .zero => [48]
  | .long => [108]
  | .field => [46]
  | .star => [42]
  | .width n => decimal n
  | .attr c => [c]

def Letter.unit : Letter → UInt16
  | .percent => 37
  | .text c => c
  | .char => 99
  | .signed => 100
  | .unsigned => 117
  | .hex => 120
  | .fixedHex => 88
  | .pointer => 112
  | .unknown c => c

def Piece.units : Piece → Str16
  | .plain c => [c]
  | .item modifiers letter => 37 :: (modifiers.flatMap Modifier.units ++ [letter.unit])

def Modifier.isWidth : Modifier → Bool
  | .width _ => true
  | _ => false

def Modifier.isDigit : Modifier → Bool
  | .width _ | .zero => true
  | _ => false

/-- A width is positive, and the attributes are `n`, `h`, `e` and their capitals. -/
def Modifier.allowed : Modifier → Bool
  | .width n => decide (0 < n)
  | .attr c => [69, 72, 78, 101, 104, 110].contains c
  | _ => true

/-- The units that mean something inside an item, apart from the digits of a width. -/
def known : Str16 :=
  ['%', ',', '-', '*', '.', '0', 'l', 'a', 's', 'c', 'd', 'u', 'x', 'X', 'p', 'D', 'f', 'g', 'r', 't', 'E', 'H', 'N', 'e', 'h', 'n'].map
    fun c => UInt16.ofNat c.toNat

def Letter.allowed : Letter → Bool
  | .text c => [97, 115, 68, 102, 103, 114, 116].contains c
  | .unknown c => c != 0 && !known.contains c && !(decide (49 ≤ c.toNat) && decide (c.toNat ≤ 57))
  | _ => true

/-- No digit stands behind a width. -/
def separate : Bool → List Modifier → Bool
  | _, [] => true
  | behindWidth, m :: ms => !(behindWidth && m.isDigit) && separate m.isWidth ms

def Piece.allowed : Piece → Bool
  | .plain c => c != 37 && c != 0
  | .item modifiers letter => modifiers.all Modifier.allowed && separate false modifiers && letter.allowed

/-! ## What they mean -/

/-- What a modifier does to its item. -/
def Modifier.apply (it : PrintItem) (args : List PrintArg) : Modifier → Except PrintFault (PrintItem × List PrintArg)
  | .comma => .ok ({ it with comma := true }, args)
  | .left => .ok ({ it with padBefore := false }, args)
  | .zero => .ok ({ it with padZero := true }, args)
  | .long => .ok ({ it with long := true }, args)
  | .field => .ok ({ it with widthParse := true }, args)
  | .star => (takeWord args).map fun x => (it.setParsed x.1.toNat, x.2)
  | .width n => .ok (it.setParsed (n % 18446744073709551616), args)
  | .attr _ => .ok (it, args)

/-- The modifiers, from the left. -/
def applyAll : List Modifier → PrintItem → List PrintArg → Except PrintFault (PrintItem × List PrintArg)
  | [], it, args => .ok (it, args)
  | m :: ms, it, args => (m.apply it args).bind fun x => applyAll ms x.1 x.2

/-- The text of an item in its field. -/
def Letter.field (it : PrintItem) (args : List PrintArg) : Letter → Except PrintFault (Str16 × List PrintArg)
  | .percent => .ok (it.padded [37], args)
  | .text _ => (takeText args).map fun x => (it.padded x.1, x.2)
  | .char => (takeWord args).map fun x => (it.padded [UInt16.ofNat x.1.toNat], x.2)
  | .signed => (takeWord args).bind fun x => ofDigits it x.2 (valueToString it.comma (it.signed x.1))
  | .unsigned => (takeWord args).bind fun x => ofDigits it x.2 (valueToString it.comma (it.unsigned x.1))
  | .hex => (takeWord args).bind fun x => ofDigits it x.2 (valueToHex (it.unsigned x.1))
  | .fixedHex => (takeWord args).bind fun x =>
      ofDigits { it with width := if it.long then 16 else 8, padZero := true } x.2 (valueToHex (it.unsigned x.1))
  | .pointer => (takeWord args).bind fun x =>
      ofDigits { it with width := 0, padZero := true } x.2 ((valueToHex (it.unsigned x.1)).map ([48, 120] ++ ·))
  | .unknown _ => .ok (it.padded [63], args)
where
  ofDigits (it : PrintItem) (args : List PrintArg) : Option Str16 → Except PrintFault (Str16 × List PrintArg)
    | some digits => .ok (it.padded digits, args)
    | none => .error .digits

/-- What the pieces print, one after the other. -/
def shown : List Piece → List PrintArg → Except PrintFault Str16
  | [], _ => .ok []
  | .plain c :: ps, args => (shown ps args).map (shownUnit c ++ ·)
  | .item modifiers letter :: ps, args =>
    (applyAll modifiers .setup args).bind fun x =>
      (letter.field x.1 x.2).bind fun y => (shown ps y.2).map (y.1.flatMap shownUnit ++ ·)

/-! ## Widths -/

@[simp] theorem PrintItem.parsed_setParsed (it : PrintItem) (n : Nat) : (it.setParsed n).parsed = n := by
  unfold setParsed parsed
  split <;> simp_all

@[simp] theorem PrintItem.setParsed_setParsed (it : PrintItem) (m n : Nat) :
    (it.setParsed m).setParsed n = it.setParsed n := by
  unfold setParsed
  split <;> simp_all

theorem PrintItem.addDigit_setParsed (it : PrintItem) (n : Nat) (c : UInt16) :
    (it.setParsed n).addDigit c = it.setParsed ((n * 10 + (c.toNat - 48)) % 18446744073709551616) := by
  rw [addDigit, parsed_setParsed, setParsed_setParsed]

variable {it : PrintItem} {fmt : Str16} {args : List PrintArg}

/-- The digits of a width behind the first one. -/
theorem renderFrom_digits {cs : List Char} (digits : ∀ c ∈ cs, c.isDigit = true) (u : Nat) :
    renderFrom (some (it.setParsed (u % 18446744073709551616), true)) ((cs.map fun c => UInt16.ofNat c.toNat) ++ fmt) args =
      renderFrom (some (it.setParsed (Nat.ofDigitChars 10 cs u % 18446744073709551616), true)) fmt args := by
  induction cs generalizing u with
  | nil => rfl
  | cons c cs ih =>
    have here := digits c List.mem_cons_self
    have unit := toNat_unit here
    have bounds := isDigit_bounds here
    have others := ih (fun x mem => digits x (List.mem_cons_of_mem _ mem)) (10 * u + (c.toNat - 48))
    have digit : true = true ∧ 48 ≤ (UInt16.ofNat c.toNat).toNat ∧ (UInt16.ofNat c.toNat).toNat ≤ 57 := by
      rw [unit]
      exact ⟨rfl, bounds⟩
    have value : (u % 18446744073709551616 * 10 + (c.toNat - 48)) % 18446744073709551616 =
        (10 * u + (c.toNat - 48)) % 18446744073709551616 := by omega
    rw [List.map_cons, List.cons_append, renderFrom, if_pos digit, PrintItem.addDigit_setParsed, unit, value, others,
      Nat.ofDigitChars_cons]
    rfl

/-- A positive number does not begin with a 0. -/
theorem toDigits_head {n : Nat} (positive : 0 < n) :
    ∃ c cs, Nat.toDigits 10 n = c :: cs ∧ 49 ≤ c.toNat ∧ c.toNat ≤ 57 := by
  induction n using Nat.strongRecOn with
  | ind n ih =>
    by_cases single : n < 10
    · have value := Nat.toNat_digitChar_of_lt_ten single
      refine ⟨n.digitChar, [], Nat.toDigits_of_lt_base single, ?_, ?_⟩
      · omega
      · omega
    · have more : 10 ≤ n := Nat.le_of_not_lt single
      obtain ⟨c, cs, front, bounds⟩ := ih (n / 10) (by omega) (by omega)
      refine ⟨c, cs ++ [(n % 10).digitChar], ?_, bounds⟩
      rw [Nat.toDigits_of_base_le (by decide) more, front, List.cons_append]

/-- A width that is written out is read. -/
theorem renderFrom_width {n : Nat} (positive : 0 < n) :
    renderFrom (some (it, false)) (decimal n ++ fmt) args =
      renderFrom (some (it.setParsed (n % 18446744073709551616), true)) fmt args := by
  obtain ⟨c, cs, front, low, high⟩ := toDigits_head positive
  have digits := isDigit_toDigits n
  rw [front] at digits
  have unit := toNat_unit (digits c List.mem_cons_self)
  have first : 49 ≤ (UInt16.ofNat c.toNat).toNat ∧ (UInt16.ofNat c.toNat).toNat ≤ 57 := by
    rw [unit]
    exact ⟨low, high⟩
  have outside : ¬ (false = true ∧ 48 ≤ (UInt16.ofNat c.toNat).toNat ∧ (UInt16.ofNat c.toNat).toNat ≤ 57) := nofun
  have value := Nat.ofDigitChars_ten_toDigits (n := n)
  rw [front, Nat.ofDigitChars_cons] at value
  have whole : Nat.ofDigitChars 10 cs (0 * 10 + (c.toNat - 48)) = n := by
    rwa [Nat.zero_mul]
  rw [decimal, front, List.map_cons, List.cons_append, renderFrom, if_neg outside, if_pos first, PrintItem.addDigit_setParsed,
    unit, renderFrom_digits fun x mem => digits x (List.mem_cons_of_mem _ mem), whole]

/-! ## Items -/

/-- Behind a width a unit that is no digit is read as anywhere. -/
theorem renderFrom_behind {c : UInt16} (other : ¬ (48 ≤ c.toNat ∧ c.toNat ≤ 57)) (digits : Bool) :
    renderFrom (some (it, digits)) (c :: fmt) args = renderFrom (some (it, false)) (c :: fmt) args := by
  have outside : ∀ digits : Bool, ¬ (digits = true ∧ 48 ≤ c.toNat ∧ c.toNat ≤ 57) := fun _ h => other h.2
  rw [renderFrom, renderFrom, if_neg (outside digits), if_neg (outside false)]

/-- A modifier is read. -/
theorem renderFrom_modifier {m : Modifier} (allowed : m.allowed = true) {behindWidth : Bool}
    (apart : (behindWidth && m.isDigit) = false) :
    renderFrom (some (it, behindWidth)) (m.units ++ fmt) args =
      (m.apply it args).bind fun x => renderFrom (some (x.1, m.isWidth)) fmt x.2 := by
  cases m with
  | comma | left | long | field =>
    refine (renderFrom_behind ?_ behindWidth).trans rfl
    decide
  | zero =>
    obtain rfl : behindWidth = false := by simpa [Modifier.isDigit] using apart
    rfl
  | star =>
    refine (renderFrom_behind ?_ behindWidth).trans ?_
    · decide
    · cases args with
      | nil => rfl
      | cons arg args => cases arg <;> rfl
  | width n =>
    obtain rfl : behindWidth = false := by simpa [Modifier.isDigit] using apart
    exact renderFrom_width (of_decide_eq_true allowed)
  | attr c =>
    have one : c = 69 ∨ c = 72 ∨ c = 78 ∨ c = 101 ∨ c = 104 ∨ c = 110 := by simpa [Modifier.allowed] using allowed
    rcases one with rfl | rfl | rfl | rfl | rfl | rfl <;> exact (renderFrom_behind (by decide) behindWidth).trans rfl

/-- A unit that means nothing prints a question mark. -/
theorem itemTurn_unknown {c : UInt16} (unknown : c ∉ known) (it : PrintItem) (args : List PrintArg) :
    itemTurn c it args = .ok (.shown it [63], args) := by
  have other : ∀ ch ∈ ['%', ',', '-', '*', '.', '0', 'l', 'a', 's', 'c', 'd', 'u', 'x', 'X', 'p', 'D', 'f', 'g', 'r', 't', 'E', 'H', 'N',
      'e', 'h', 'n'], ch.toNat ≠ 0 → Char.ofNat c.toNat ≠ ch := by
    intro ch mem positive same
    have value : (Char.ofNat c.toNat).toNat = c.toNat ∨ (Char.ofNat c.toNat).toNat = 0 := by
      unfold Char.ofNat
      by_cases valid : c.toNat.isValidChar
      · rw [dif_pos valid]
        exact .inl rfl
      · rw [dif_neg valid]
        exact .inr rfl
    rw [same] at value
    rcases value with value | none
    · refine unknown (List.mem_map.2 ⟨ch, mem, ?_⟩)
      rw [value, UInt16.ofNat_toNat]
    · exact positive none
  unfold itemTurn
  split
  all_goals
    first
    | rfl
    | exact absurd (by assumption) (other _ (by decide) (by decide))

/-- A number in its field, behind which the format goes on. -/
theorem renderFrom_number {c : UInt16} (other : ¬ (48 ≤ c.toNat ∧ c.toNat ≤ 57)) {it' : PrintItem} {rest : List PrintArg}
    {made : Option Str16} (turn : itemTurn c it args = ItemTurn.ofNumber it' rest made) (behindWidth : Bool) :
    renderFrom (some (it, behindWidth)) (c :: fmt) args =
      (Letter.field.ofDigits it' rest made).bind fun y => (renderFrom none fmt y.2).map (y.1.flatMap shownUnit ++ ·) := by
  have digit : ¬ (behindWidth = true ∧ 48 ≤ c.toNat ∧ c.toNat ≤ 57) := fun h => other h.2
  have width : ¬ (49 ≤ c.toNat ∧ c.toNat ≤ 57) := by omega
  rw [renderFrom, if_neg digit, if_neg width, turn]
  cases made with
  | none => rfl
  | some digits => rfl

/-- The letter is read, and with it the item ends. -/
theorem renderFrom_letter {letter : Letter} (allowed : letter.allowed = true) (behindWidth : Bool) :
    renderFrom (some (it, behindWidth)) (letter.unit :: fmt) args =
      (letter.field it args).bind fun y => (renderFrom none fmt y.2).map (y.1.flatMap shownUnit ++ ·) := by
  cases letter with
  | percent => exact (renderFrom_behind (by decide) behindWidth).trans rfl
  | text c =>
    have one : c = 97 ∨ c = 115 ∨ c = 68 ∨ c = 102 ∨ c = 103 ∨ c = 114 ∨ c = 116 := by
      simpa [Letter.allowed] using allowed
    have read : renderFrom (some (it, behindWidth)) (c :: fmt) args =
        (takeText args).bind fun x => (renderFrom none fmt x.2).map ((it.padded x.1).flatMap shownUnit ++ ·) := by
      rcases one with rfl | rfl | rfl | rfl | rfl | rfl | rfl <;>
        refine (renderFrom_behind (by decide) behindWidth).trans ?_ <;>
        (rcases args with _ | ⟨_ | _, args⟩ <;> rfl)
    refine read.trans ?_
    rw [Letter.field]
    cases takeText args <;> rfl
  | char =>
    refine (renderFrom_behind (by decide) behindWidth).trans ?_
    rcases args with _ | ⟨_ | _, args⟩ <;> rfl
  | signed | unsigned | hex | fixedHex | pointer =>
    rcases args with _ | ⟨_ | _, args⟩
    · exact (renderFrom_behind (by decide) behindWidth).trans rfl
    · exact renderFrom_number (by decide) rfl behindWidth
    · exact (renderFrom_behind (by decide) behindWidth).trans rfl
  | unknown c =>
    obtain ⟨⟨-, none⟩, width⟩ : (c ≠ 0 ∧ c ∉ known) ∧ ¬ (49 ≤ c.toNat ∧ c.toNat ≤ 57) := by
      simpa only [Letter.allowed, Bool.and_eq_true, bne_iff_ne, Bool.not_eq_true', List.contains_eq_mem, decide_eq_false_iff_not,
        ← Bool.decide_and] using allowed
    have digit : ¬ (behindWidth = true ∧ 48 ≤ c.toNat ∧ c.toNat ≤ 57) := by
      rintro ⟨-, low, high⟩
      have zero : c = 48 := UInt16.toNat_inj.1 (show c.toNat = 48 by omega)
      exact none (by rw [zero]; decide)
    rw [Letter.unit, renderFrom, if_neg digit, if_neg width, itemTurn_unknown none]
    rfl

/-- An item is read: its modifiers from the left, and its letter. -/
theorem renderFrom_item {letter : Letter} (allowed : letter.allowed = true) {modifiers : List Modifier}
    (all : modifiers.all Modifier.allowed = true) {behindWidth : Bool} (apart : separate behindWidth modifiers = true) :
    renderFrom (some (it, behindWidth)) (modifiers.flatMap Modifier.units ++ letter.unit :: fmt) args =
      (applyAll modifiers it args).bind fun x => (letter.field x.1 x.2).bind fun y =>
        (renderFrom none fmt y.2).map (y.1.flatMap shownUnit ++ ·) := by
  induction modifiers generalizing it args behindWidth with
  | nil => exact renderFrom_letter allowed behindWidth
  | cons m ms ih =>
    obtain ⟨here, others⟩ : m.allowed = true ∧ ms.all Modifier.allowed = true := by simpa using all
    obtain ⟨now, later⟩ : (behindWidth && m.isDigit) = false ∧ separate m.isWidth ms = true := by
      simpa only [separate, Bool.and_eq_true, Bool.not_eq_true'] using apart
    rw [List.flatMap_cons, List.append_assoc, renderFrom_modifier here now, applyAll]
    cases m.apply it args with
    | error fault => rfl
    | ok x => exact ih others later

/-! ## Formats -/

/-- What pieces print is printed. -/
theorem renderFrom_pieces {ps : List Piece} (allowed : ∀ p ∈ ps, p.allowed = true) (args : List PrintArg) :
    renderFrom none (ps.flatMap Piece.units) args = shown ps args := by
  induction ps generalizing args with
  | nil => rfl
  | cons p ps ih =>
    obtain ⟨here, others⟩ := List.forall_mem_cons.1 allowed
    rw [List.flatMap_cons]
    cases p with
    | plain c =>
      obtain ⟨plain, -⟩ : c ≠ 37 ∧ c ≠ 0 := by simpa [Piece.allowed] using here
      rw [Piece.units, List.singleton_append, renderFrom, if_pos plain, ih others, shown]
    | item modifiers letter =>
      obtain ⟨⟨all, apart⟩, last⟩ :
          (modifiers.all Modifier.allowed = true ∧ separate false modifiers = true) ∧ letter.allowed = true := by
        simpa only [Piece.allowed, Bool.and_eq_true] using here
      have opened : ¬ (37 : UInt16) ≠ 37 := fun other => other rfl
      have rest : 37 :: (modifiers.flatMap Modifier.units ++ [letter.unit]) ++ ps.flatMap Piece.units =
          37 :: (modifiers.flatMap Modifier.units ++ letter.unit :: ps.flatMap Piece.units) := by simp
      rw [Piece.units, rest, renderFrom, if_neg opened, renderFrom_item last all apart, shown]
      simp only [ih others]

theorem decimal_clean (n : Nat) : 0 ∉ decimal n ∧ 10 ∉ decimal n := by
  have large : ∀ c ∈ decimal n, 48 ≤ c.toNat := by
    intro c mem
    obtain ⟨d, mem', rfl⟩ := List.mem_map.1 mem
    have isDigit := isDigit_toDigits n d mem'
    rw [toNat_unit isDigit]
    exact (isDigit_bounds isDigit).1
  exact ⟨fun mem => absurd (large 0 mem) (by decide), fun mem => absurd (large 10 mem) (by decide)⟩

theorem Modifier.clean {m : Modifier} (allowed : m.allowed = true) : 0 ∉ m.units := by
  cases m with
  | comma | left | zero | long | field | star => decide
  | width n => exact (decimal_clean n).1
  | attr c =>
    rintro mem
    obtain rfl := List.mem_singleton.1 mem
    cases allowed

theorem Letter.clean {letter : Letter} (allowed : letter.allowed = true) : letter.unit ≠ 0 := by
  cases letter with
  | text c =>
    rintro rfl
    cases allowed
  | percent | char | signed | unsigned | hex | fixedHex | pointer => decide
  | unknown c =>
    rintro rfl
    cases allowed

/-- A format has no NUL. -/
theorem Piece.clean {p : Piece} (allowed : p.allowed = true) : 0 ∉ p.units := by
  cases p with
  | plain c =>
    obtain ⟨-, some'⟩ : c ≠ 37 ∧ c ≠ 0 := by simpa [Piece.allowed] using allowed
    exact fun mem => some' (List.mem_singleton.1 mem).symm
  | item modifiers letter =>
    obtain ⟨⟨all, -⟩, last⟩ :
        (modifiers.all Modifier.allowed = true ∧ separate false modifiers = true) ∧ letter.allowed = true := by
      simpa only [Piece.allowed, Bool.and_eq_true] using allowed
    intro mem
    rcases List.mem_cons.1 mem with nul | mem
    · cases nul
    rcases List.mem_append.1 mem with front | back
    · obtain ⟨m, among, unit⟩ := List.mem_flatMap.1 front
      exact Modifier.clean (List.all_eq_true.1 all m among) unit
    · exact Letter.clean last (List.mem_singleton.1 back).symm

/-- A format that is made of pieces prints what they mean, one after the other. -/
theorem render_pieces {ps : List Piece} (allowed : ∀ p ∈ ps, p.allowed = true) (args : List PrintArg) :
    render (ps.flatMap Piece.units) args = shown ps args := by
  have clean : 0 ∉ ps.flatMap Piece.units := by
    intro mem
    obtain ⟨p, among, unit⟩ := List.mem_flatMap.1 mem
    exact Piece.clean (allowed p among) unit
  rw [render, CString.text_of_clean clean, renderFrom_pieces allowed]

/-! ## Every format -/

/-- A format is made of pieces, or ends inside of an item behind them. -/
def FormatText (fmt : Str16) : Prop :=
  ∃ ps : List Piece, (∀ p ∈ ps, p.allowed = true) ∧ (fmt = ps.flatMap Piece.units ∨
    ∃ modifiers : List Modifier, modifiers.all Modifier.allowed = true ∧ separate false modifiers = true ∧
      fmt = ps.flatMap Piece.units ++ 37 :: modifiers.flatMap Modifier.units)

/-- The same from inside of an item on. -/
def ItemText (behindWidth : Bool) (fmt : Str16) : Prop :=
  ∃ modifiers : List Modifier, modifiers.all Modifier.allowed = true ∧ separate behindWidth modifiers = true ∧
    (fmt = modifiers.flatMap Modifier.units ∨ ∃ letter rest, Letter.allowed letter = true ∧ FormatText rest ∧
      fmt = modifiers.flatMap Modifier.units ++ letter.unit :: rest)

theorem FormatText.plain {c : UInt16} (h : FormatText fmt) (plain : c ≠ 37) (some' : c ≠ 0) : FormatText (c :: fmt) := by
  obtain ⟨ps, allowed, written⟩ := h
  have first : (Piece.plain c).allowed = true := by simp [Piece.allowed, plain, some']
  refine ⟨.plain c :: ps, List.forall_mem_cons.2 ⟨first, allowed⟩, ?_⟩
  rcases written with rfl | ⟨modifiers, all, apart, rfl⟩
  · exact .inl rfl
  · exact .inr ⟨modifiers, all, apart, rfl⟩

theorem ItemText.item (h : ItemText false fmt) : FormatText (37 :: fmt) := by
  obtain ⟨modifiers, all, apart, rfl | ⟨letter, rest, last, ⟨ps, allowed, written⟩, rfl⟩⟩ := h
  · exact ⟨[], nofun, .inr ⟨modifiers, all, apart, rfl⟩⟩
  · have first : (Piece.item modifiers letter).allowed = true := by simp [Piece.allowed, all, apart, last]
    refine ⟨.item modifiers letter :: ps, List.forall_mem_cons.2 ⟨first, allowed⟩, ?_⟩
    rcases written with rfl | ⟨ms, all', apart', rfl⟩
    · exact .inl (by simp [Piece.units])
    · exact .inr ⟨ms, all', apart', by simp [Piece.units]⟩

theorem unfinished_item {modifiers : List Modifier} (all : modifiers.all Modifier.allowed = true) {behindWidth : Bool}
    (apart : separate behindWidth modifiers = true) (text : Str16) :
    renderFrom (some (it, behindWidth)) (modifiers.flatMap Modifier.units) args ≠ .ok text := by
  induction modifiers generalizing it args behindWidth with
  | nil =>
    intro made
    cases made
  | cons m ms ih =>
    obtain ⟨here, others⟩ : m.allowed = true ∧ ms.all Modifier.allowed = true := by simpa using all
    obtain ⟨now, later⟩ : (behindWidth && m.isDigit) = false ∧ separate m.isWidth ms = true := by
      simpa only [separate, Bool.and_eq_true, Bool.not_eq_true'] using apart
    rw [List.flatMap_cons, renderFrom_modifier here now]
    cases m.apply it args with
    | error fault =>
      intro made
      cases made
    | ok x => exact ih others later

theorem map_ne_ok {α : Type} {rest : Except PrintFault Str16} (none : ∀ text, rest ≠ .ok text) (f : Str16 → α) (a : α) :
    rest.map f ≠ .ok a := by
  cases rest with
  | error fault =>
    intro made
    cases made
  | ok back => exact absurd rfl (none back)

/-- Whatever stands in front of it. -/
theorem unfinished {ps : List Piece} (allowed : ∀ p ∈ ps, p.allowed = true) {modifiers : List Modifier}
    (all : modifiers.all Modifier.allowed = true) (apart : separate false modifiers = true) (args : List PrintArg) (text : Str16) :
    renderFrom none (ps.flatMap Piece.units ++ 37 :: modifiers.flatMap Modifier.units) args ≠ .ok text := by
  have opened : ¬ (37 : UInt16) ≠ 37 := fun other => other rfl
  induction ps generalizing args text with
  | nil =>
    rw [List.flatMap_nil, List.nil_append, renderFrom, if_neg opened]
    exact unfinished_item all apart text
  | cons p ps ih =>
    obtain ⟨here, others⟩ := List.forall_mem_cons.1 allowed
    rw [List.flatMap_cons]
    cases p with
    | plain c =>
      obtain ⟨plain, -⟩ : c ≠ 37 ∧ c ≠ 0 := by simpa [Piece.allowed] using here
      rw [Piece.units, List.singleton_append, List.cons_append, renderFrom, if_pos plain]
      exact map_ne_ok (ih others args) _ text
    | item modifiers' letter =>
      obtain ⟨⟨all', apart'⟩, last⟩ :
          (modifiers'.all Modifier.allowed = true ∧ separate false modifiers' = true) ∧ letter.allowed = true := by
        simpa only [Piece.allowed, Bool.and_eq_true] using here
      simp only [Piece.units, List.cons_append, List.append_assoc]
      rw [renderFrom, if_neg opened, renderFrom_item last all' apart']
      cases applyAll modifiers' .setup args with
      | error fault =>
        intro made
        cases made
      | ok x =>
        show ((letter.field x.1 x.2).bind _) ≠ _
        cases letter.field x.1 x.2 with
        | error fault =>
          intro made
          cases made
        | ok y => exact map_ne_ok (ih others y.2) _ text

end Lavoro
