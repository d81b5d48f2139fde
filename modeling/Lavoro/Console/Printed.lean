import Lavoro.Efi.Formats
import Lavoro.Console.Config
import Lavoro.Console.Target

/-!
# The strings that `UnicodeSPrint` makes

The program has three of them made: the name of a disk, the address of a socket that listens, and the date. None of them is ever
truncated. The number of a disk is read back by `Atoi`, and an address by `connect`.
-/

namespace Lavoro.Console
open Lib

/-- `UnicodeSPrint(Name, 32, L"%d", ExplorerCount)`. -/
def diskName (name : Nat → UInt16) (explorerCount : BitVec 32) : Except PrintFault SPrint :=
  unicodeSPrint name 32 (units ['%', 'd']) [.word (explorerCount.signExtend 64)]

/-- `IP4_ADDR_TO_STRING(IpAddr, IpAddrString)`. -/
def ip4AddrToString (addr : List UInt8) (ipAddrString : Nat → UInt16) : Except PrintFault SPrint :=
  unicodeSPrint ipAddrString (16 * 2) (units ['%', 'd', '.', '%', 'd', '.', '%', 'd', '.', '%', 'd'])
    (addr.map fun octet => .word (BitVec.ofNat 64 octet.toNat))

/-- What is read of an `EFI_TIME`. -/
structure EfiTime where
  year : UInt16
  month : UInt8
  day : UInt8
  hour : UInt8
  minute : UInt8

def szMonths : List Str16 :=
  [units ['J', 'a', 'n'], units ['F', 'e', 'b'], units ['M', 'a', 'r'], units ['A', 'p', 'r'], units ['M', 'a', 'y'],
    units ['J', 'u', 'n'], units ['J', 'u', 'l'], units ['A', 'u', 'g'], units ['S', 'e', 'p'], units ['O', 'c', 't'],
    units ['N', 'o', 'v'], units ['D', 'e', 'c']]

/-- `szMonths[CurrentTime.Month - 1]`; none outside of the array. -/
def EfiTime.monthName (t : EfiTime) : Option Str16 := if t.month = 0 then none else szMonths[t.month.toNat - 1]?

/-- `UnicodeSPrint(szCurrentTime, MAX_PATH, L"%02d:%02d\r\n%ls %d, %d", ...)`. -/
def currentTime (szCurrentTime : Nat → UInt16) (t : EfiTime) : Option (Except PrintFault SPrint) :=
  t.monthName.map fun name =>
    unicodeSPrint szCurrentTime maxPath
      (units ['%', '0', '2', 'd', ':', '%', '0', '2', 'd', '\r', '\n', '%', 'l', 's', ' ', '%', 'd', ',', ' ', '%', 'd'])
      [.word (BitVec.ofNat 64 t.hour.toNat), .word (BitVec.ofNat 64 t.minute.toNat), .text (some name),
        .word (BitVec.ofNat 64 t.day.toNat), .word (BitVec.ofNat 64 t.year.toNat)]

/-! ## Items with numbers -/

/-- An item without a field is its text behind what fills its width. -/
theorem padded_whole {it : PrintItem} {text : Str16} (clean : 0 ∉ text) (whole : it.fieldWidth = 18446744073709551615)
    (short : text.length ≤ 18446744073709551615) :
    it.padded text = List.replicate (it.width - text.length) (if it.padZero then 48 else 32) ++ text := by
  have len : min text.length 18446744073709551615 = text.length := Nat.min_eq_left short
  have fill : text.length - max it.width text.length = 0 := by omega
  have width : max it.width text.length - text.length = it.width - text.length := by omega
  simp [PrintItem.padded, CString.text_of_clean clean, whole, len, fill, width]

/-- Without a width it is its text. -/
theorem padded_bare {it : PrintItem} {text : Str16} (clean : 0 ∉ text) (whole : it.fieldWidth = 18446744073709551615)
    (none : it.width = 0) (short : text.length ≤ 18446744073709551615) : it.padded text = text := by
  rw [padded_whole clean whole short, none, Nat.zero_sub]
  rfl

/-- A text without a line feed is printed as it is. -/
theorem flatMap_shownUnit {text : Str16} (plain : 10 ∉ text) : text.flatMap shownUnit = text := by
  induction text with
  | nil => rfl
  | cons c text ih =>
    obtain ⟨here, others⟩ : c ≠ 10 ∧ 10 ∉ text := by
      rw [List.mem_cons, not_or] at plain
      exact ⟨fun feed => plain.1 feed.symm, plain.2⟩
    rw [List.flatMap_cons, ih others, shownUnit, if_neg here, List.singleton_append]

theorem length_decimal_int {n : Nat} (lt : n < 2147483648) : (decimal n).length ≤ 10 :=
  length_decimal_le (by decide) (Nat.lt_trans lt (by decide))

/-- The number behind zeros, if its width is more. -/
def zeroed (width n : Nat) : Str16 := List.replicate (width - (decimal n).length) 48 ++ decimal n

theorem zeroed_shown (width n : Nat) : (zeroed width n).flatMap shownUnit = zeroed width n := by
  apply flatMap_shownUnit
  intro mem
  rcases List.mem_append.1 mem with zero | digit
  · cases List.eq_of_mem_replicate zero
  · exact (decimal_clean n).2 digit

theorem toInt_small {n : Nat} (lt : n < 2147483648) :
    (((BitVec.ofNat 64 n).setWidth 32).signExtend 64).toInt = n := by
  rw [BitVec.toInt_signExtend_of_le (by decide), BitVec.toInt_eq_toNat_cond, BitVec.toNat_setWidth, BitVec.toNat_ofNat]
  have value : n % 2 ^ 64 % 2 ^ 32 = n := by omega
  rw [value, if_pos (by omega)]

theorem numeral_nat (n : Nat) : numeral n = decimal n := by
  rw [numeral, if_neg (by omega)]
  rfl

/-- `%d`, with a width or without, of a number that is not negative. -/
theorem signed_field {it : PrintItem} (int : it.long = false) (plain : it.comma = false) (zero : it.padZero = true ∨ it.width = 0)
    (whole : it.fieldWidth = 18446744073709551615) {n : Nat} (lt : n < 2147483648) (args : List PrintArg) :
    Letter.field it (.word (BitVec.ofNat 64 n) :: args) .signed = .ok (zeroed it.width n, args) := by
  have value : (it.signed (BitVec.ofNat 64 n)).toInt = n := by
    rw [PrintItem.signed, int]
    exact toInt_small lt
  have text := (valueToString_numeral (it.signed (BitVec.ofNat 64 n))).1
  rw [value, numeral_nat] at text
  have short := length_decimal_int lt
  have padded := padded_whole (decimal_clean n).1 whole (by omega)
  have filled : it.padded (decimal n) = zeroed it.width n := by
    rw [padded, zeroed]
    rcases zero with zero | none
    · rw [if_pos zero]
    · rw [none, Nat.zero_sub]
      rfl
  rw [← plain] at text
  show Letter.field.ofDigits it args (valueToString it.comma (it.signed (BitVec.ofNat 64 n))) = _
  rw [text, Letter.field.ofDigits, filled]

/-! ## Formats -/

section Shown

variable {ps : List Piece} {args : List PrintArg} {text : Str16}

theorem shown_plain (rest : shown ps args = .ok text) (c : UInt16) :
    shown (.plain c :: ps) args = .ok (shownUnit c ++ text) := by
  rw [shown, rest]
  rfl

theorem shown_signed (modifiers : List Modifier) (it : PrintItem) (applied : ∀ args, applyAll modifiers .setup args = .ok (it, args))
    (int : it.long = false) (plain : it.comma = false) (zero : it.padZero = true ∨ it.width = 0)
    (whole : it.fieldWidth = 18446744073709551615) (rest : shown ps args = .ok text) {n : Nat} (lt : n < 2147483648) :
    shown (.item modifiers .signed :: ps) (.word (BitVec.ofNat 64 n) :: args) = .ok (zeroed it.width n ++ text) := by
  have field := signed_field int plain zero whole lt args
  rw [shown, applied, Except.bind, field, Except.bind, rest, zeroed_shown]
  rfl

/-- `%d`. -/
theorem shown_decimal (rest : shown ps args = .ok text) {n : Nat} (lt : n < 2147483648) :
    shown (.item [] .signed :: ps) (.word (BitVec.ofNat 64 n) :: args) = .ok (decimal n ++ text) := by
  have whole := shown_signed [] .setup (fun _ => rfl) rfl rfl (.inr rfl) rfl rest lt
  have bare : zeroed PrintItem.setup.width n = decimal n := by
    rw [zeroed, show PrintItem.setup.width = 0 from rfl, Nat.zero_sub]
    rfl
  rwa [bare] at whole

/-- `%02d`. -/
theorem shown_twoDigits (rest : shown ps args = .ok text) {n : Nat} (lt : n < 2147483648) :
    shown (.item [.zero, .width 2] .signed :: ps) (.word (BitVec.ofNat 64 n) :: args) = .ok (zeroed 2 n ++ text) :=
  shown_signed _ { PrintItem.setup with padZero := true, width := 2 } (fun _ => rfl) rfl rfl (.inl rfl) rfl rest lt

/-- `%ls`. -/
theorem shown_string (rest : shown ps args = .ok text) {name : Str16} (clean : 0 ∉ name) (plain : 10 ∉ name)
    (short : name.length ≤ 18446744073709551615) :
    shown (.item [.long] (.text 115) :: ps) (.text (some name) :: args) = .ok (name ++ text) := by
  have padded : ({ PrintItem.setup with long := true } : PrintItem).padded name = name := padded_bare clean rfl rfl short
  show (shown ps args).map
    ((({ PrintItem.setup with long := true } : PrintItem).padded name).flatMap shownUnit ++ ·) = _
  rw [padded, flatMap_shownUnit plain, rest]
  rfl

/-- A text that is short enough is in the string as a whole. -/
theorem unicodeSPrint_pieces {fmt : Str16} (allowed : ∀ p ∈ ps, p.allowed = true) (spelled : fmt = ps.flatMap Piece.units)
    (printed : shown ps args = .ok text) {size : Nat} (positive : maxLength size ≠ 0) (fits : text.length ≤ maxLength size)
    (str : Nat → UInt16) : unicodeSPrint str size fmt args = .ok ⟨putText text str, text.length⟩ := by
  rw [unicodeSPrint_render str positive, spelled, render_pieces allowed, printed, Except.map, List.take_of_length_le fits]

end Shown

/-- What an array holds into which a text has been put. -/
theorem array_putText {text : Str16} {size : Nat} (fits : text.length < size) (str : Nat → UInt16) :
    ∃ rest, (List.range size).map (putText text str) = text ++ 0 :: rest := by
  obtain ⟨more, rfl⟩ := Nat.exists_eq_add_of_le fits
  refine ⟨((List.range more).map (text.length.succ + ·)).map (putText text str), ?_⟩
  rw [List.range_add, List.map_append]
  have front : (List.range text.length.succ).map (putText text str) = text ++ [0] := by
    rw [List.range_succ, List.map_append, List.map_singleton, putText_nul]
    congr 1
    apply List.ext_getElem
    · rw [List.length_map, List.length_range]
    · intro i lt lt'
      rw [List.getElem_map, List.getElem_range, putText_front lt', List.getD_eq_getElem?_getD, List.getElem?_eq_getElem lt']
      rfl
  rw [front, List.append_assoc]
  rfl

/-! ## The name of a disk -/

theorem diskName_pieces : ∀ p ∈ [Piece.item [] .signed], p.allowed = true := by decide

/-- The name of a disk is its number. -/
theorem diskName_eq {n : Nat} (lt : n < 2147483648) (name : Nat → UInt16) :
    diskName name (BitVec.ofNat 32 n) = .ok ⟨putText (decimal n) name, (decimal n).length⟩ := by
  have word : (BitVec.ofNat 32 n).signExtend 64 = BitVec.ofNat 64 n := by
    apply BitVec.eq_of_toInt_eq
    rw [BitVec.toInt_signExtend_of_le (by decide), BitVec.toInt_eq_toNat_cond, BitVec.toInt_eq_toNat_cond, BitVec.toNat_ofNat,
      BitVec.toNat_ofNat, Nat.mod_eq_of_lt (by omega), Nat.mod_eq_of_lt (by omega), if_pos (by omega), if_pos (by omega)]
  have printed : shown [.item [] .signed] [.word (BitVec.ofNat 64 n)] = .ok (decimal n ++ []) := shown_decimal rfl lt
  rw [List.append_nil] at printed
  have short := length_decimal_int lt
  have fits : (decimal n).length ≤ maxLength 32 := Nat.le_trans short (by decide)
  rw [diskName, word]
  exact unicodeSPrint_pieces diskName_pieces rfl printed (by decide) fits name

/-- **The number of a disk is read back** from the array it has been put into. The NUL comes within the 32 bytes that the
call allows, and behind it nothing of the array changes. -/
theorem diskName_read {n : Nat} (lt : n < 2147483648) (name : Nat → UInt16) :
    ∃ spc, diskName name (BitVec.ofNat 32 n) = .ok spc ∧ spc.len < 16 ∧ (∀ i, spc.len < i → spc.str i = name i) ∧
      CString.text 0 ((List.range 32).map spc.str) = decimal n ∧ atoi ((List.range 32).map spc.str) = n := by
  have short := length_decimal_int lt
  have fits : (decimal n).length < 16 := by omega
  obtain ⟨rest, array⟩ := array_putText (Nat.lt_trans fits (show 16 < 32 by decide)) name
  refine ⟨_, diskName_eq lt name, fits, fun i behind => putText_behind behind, ?_, ?_⟩
  · rw [array]
    exact CString.text_terminated (decimal_clean n).1 rest
  · rw [array, atoi_append, atoi_decimal]

/-- The largest number that a disk can have. -/
theorem last_disk_read :
    ∃ spc, diskName (fun _ => 0) (BitVec.ofNat 32 2147483647) = .ok spc ∧ spc.len < 16 ∧
      (∀ i, spc.len < i → spc.str i = 0) ∧ CString.text 0 ((List.range 32).map spc.str) = decimal 2147483647 ∧
      atoi ((List.range 32).map spc.str) = 2147483647 :=
  diskName_read (by decide) fun _ => 0

/-! ## The address of a socket -/

/-- An address as it is printed. -/
def dotted (a b c d : UInt8) : Str16 :=
  decimal a.toNat ++ 46 :: (decimal b.toNat ++ 46 :: (decimal c.toNat ++ 46 :: decimal d.toNat))

/-- `%d.%d.%d.%d`. -/
def dottedFormat : List Piece :=
  [.item [] .signed, .plain 46, .item [] .signed, .plain 46, .item [] .signed, .plain 46, .item [] .signed]

theorem dottedFormat_allowed : ∀ p ∈ dottedFormat, p.allowed = true := by decide

theorem length_octet (a : UInt8) : (decimal a.toNat).length ≤ 3 :=
  length_decimal_le (by decide) (Nat.lt_trans a.toNat_lt (by decide))

theorem length_dotted (a b c d : UInt8) : (dotted a b c d).length ≤ 15 := by
  have first := length_octet a
  have second := length_octet b
  have third := length_octet c
  have fourth := length_octet d
  simp only [dotted, List.length_append, List.length_cons]
  omega

theorem dotted_clean (a b c d : UInt8) : 0 ∉ dotted a b c d := by
  simp [dotted, (decimal_clean _).1]

/-- The four numbers of an address with dots between them, as a whole. -/
theorem ip4AddrToString_eq (a b c d : UInt8) (ipAddrString : Nat → UInt16) :
    ip4AddrToString [a, b, c, d] ipAddrString =
      .ok ⟨putText (dotted a b c d) ipAddrString, (dotted a b c d).length⟩ := by
  have small : ∀ octet : UInt8, octet.toNat < 2147483648 := fun octet => Nat.lt_trans octet.toNat_lt (by decide)
  have last : shown [.item [] .signed] [.word (BitVec.ofNat 64 d.toNat)] = .ok (decimal d.toNat ++ []) :=
    shown_decimal rfl (small d)
  rw [List.append_nil] at last
  have third := shown_decimal (shown_plain last 46) (small c)
  have second := shown_decimal (shown_plain third 46) (small b)
  have printed : shown dottedFormat _ = .ok (dotted a b c d) := shown_decimal (shown_plain second 46) (small a)
  have fits : (dotted a b c d).length ≤ maxLength (16 * 2) := length_dotted a b c d
  exact unicodeSPrint_pieces dottedFormat_allowed rfl printed (by decide) fits ipAddrString

variable {Node : Type}

/-- **The address that a listening socket prints**, typed with a port behind it, is the one that `connect` connects to. -/
theorem address_connects (st : ConsoleState Node) (a b c d : UInt8) (p : UInt16) (left : Str16) (ipAddrString : Nat → UInt16) :
    ∃ spc, ip4AddrToString [a, b, c, d] ipAddrString = .ok spc ∧ spc.len < 16 ∧
      (∀ i, 16 ≤ i → spc.str i = ipAddrString i) ∧
      (st.holding (connectLine (CString.text 0 ((List.range 16).map spc.str) ++ 58 :: decimal p.toNat) left)).connects =
        [([a, b, c, d], p)] := by
  have short := length_dotted a b c d
  have fits : (dotted a b c d).length < 16 := Nat.lt_succ_of_le short
  obtain ⟨rest, array⟩ := array_putText fits ipAddrString
  refine ⟨_, ip4AddrToString_eq a b c d ipAddrString, fits, fun i le => putText_behind (by omega), ?_⟩
  have typed : CString.text 0 ((List.range 16).map (putText (dotted a b c d) ipAddrString)) ++ 58 :: decimal p.toNat =
      written a b c d 46 46 46 58 p := by
    rw [array, CString.text_terminated (dotted_clean a b c d) rest]
    simp [dotted, written]
  rw [typed]
  exact connects_written st a b c d p left (by decide)

/-! ## The date -/

/-- The date as it is printed; the line feed gets a second carriage return. -/
def EfiTime.text (t : EfiTime) (monthName : Str16) : Str16 :=
  zeroed 2 t.hour.toNat ++ 58 :: (zeroed 2 t.minute.toNat ++ 13 :: 13 :: 10 :: (monthName ++ 32 ::
    (decimal t.day.toNat ++ 44 :: 32 :: decimal t.year.toNat)))

/-- `%02d:%02d\r\n%ls %d, %d`. -/
def dateFormat : List Piece :=
  [.item [.zero, .width 2] .signed, .plain 58, .item [.zero, .width 2] .signed, .plain 13, .plain 10, .item [.long] (.text 115),
    .plain 32, .item [] .signed, .plain 44, .plain 32, .item [] .signed]

theorem dateFormat_allowed : ∀ p ∈ dateFormat, p.allowed = true := by decide

theorem szMonths_names : szMonths.all (fun name => name.length == 3 && !name.contains 0 && !name.contains 10) = true := by decide

theorem length_zeroed (a : UInt8) : (zeroed 2 a.toNat).length ≤ 3 := by
  have octet := length_octet a
  rw [zeroed, List.length_append, List.length_replicate]
  have some' := length_decimal_pos a.toNat
  omega

/-- In every month the date is printed as a whole. -/
theorem currentTime_eq (t : EfiTime) (first : 1 ≤ t.month.toNat) (last : t.month.toNat ≤ 12) (szCurrentTime : Nat → UInt16) :
    ∃ name ∈ szMonths, t.monthName = some name ∧
      currentTime szCurrentTime t = some (.ok ⟨putText (t.text name) szCurrentTime, (t.text name).length⟩) := by
  have inside : t.month.toNat - 1 < szMonths.length := by
    show _ < 12
    omega
  have month : t.monthName = some szMonths[t.month.toNat - 1] := by
    have positive : t.month ≠ 0 := by
      intro none
      rw [none] at first
      exact absurd first (by decide)
    rw [EfiTime.monthName, if_neg positive, List.getElem?_eq_getElem inside]
  have mem := List.getElem_mem inside
  generalize szMonths[t.month.toNat - 1] = name at month mem
  refine ⟨name, mem, month, ?_⟩
  obtain ⟨⟨three, clean⟩, plain⟩ : (name.length = 3 ∧ 0 ∉ name) ∧ 10 ∉ name := by
    simpa using List.all_eq_true.1 szMonths_names name mem
  have octet : ∀ a : UInt8, a.toNat < 2147483648 := fun a => Nat.lt_trans a.toNat_lt (by decide)
  have year : shown [.item [] .signed] [.word (BitVec.ofNat 64 t.year.toNat)] = .ok (decimal t.year.toNat ++ []) :=
    shown_decimal rfl (Nat.lt_trans t.year.toNat_lt (by decide))
  rw [List.append_nil] at year
  have day := shown_decimal (shown_plain (shown_plain year 32) 44) (octet t.day)
  have named := shown_string (shown_plain day 32) clean plain (by omega)
  have minute := shown_twoDigits (shown_plain (shown_plain named 10) 13) (octet t.minute)
  have printed : shown dateFormat _ = .ok (t.text name) := shown_twoDigits (shown_plain minute 58) (octet t.hour)
  have fits : (t.text name).length ≤ maxLength maxPath := by
    have hours := length_zeroed t.hour
    have minutes := length_zeroed t.minute
    have days := length_octet t.day
    have years : (decimal t.year.toNat).length ≤ 5 := length_decimal_le (by decide) (Nat.lt_trans t.year.toNat_lt (by decide))
    have room : maxLength maxPath = 127 := by decide
    simp only [EfiTime.text, List.length_append, List.length_cons, three, room]
    omega
  rw [currentTime, month]
  exact congrArg some (unicodeSPrint_pieces dateFormat_allowed rfl printed (by decide) fits szCurrentTime)

end Lavoro.Console
