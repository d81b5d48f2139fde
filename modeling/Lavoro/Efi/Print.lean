import Lavoro.Efi.Numerals
import Lavoro.Lib.CString
import Lavoro.Lib.Spool

/-!
# Formatted strings (`print.c`)

`_Print` goes through a format and puts what is to be printed into a buffer of 200 units, which is handed on whenever it is full;
`UnicodeSPrint` has it handed on to a string that is truncated to its size. `render` says what is printed, without a
buffer. Where a format ends inside an item `_Print` goes on behind its NUL. The output attributes are those of
`UnicodeSPrint`, which are all 0; `Print` has others, and there `N`, `H` and `E` end an item.
-/

namespace Lavoro
open Lib

/-- The item that is read beyond the end of the format, an argument that is missing or of another kind, and the digits of a
number behind the end of their array. -/
inductive PrintFault where
  | overread
  | argument
  | digits
  deriving DecidableEq, Repr

/-- An argument: a number, or a string or `NULL`. Where `_Print` has a value of some other kind made into a string, the argument is
that string. -/
inductive PrintArg where
  | word (v : BitVec 64)
  | text (units : Option Str16)

/-- `PRINT_ITEM`; `widthParse` is whether `WidthParse` points to `FieldWidth`, `padZero` whether `Pad` is `0`. -/
structure PrintItem where
  width : Nat
  fieldWidth : Nat
  widthParse : Bool
  padZero : Bool
  padBefore : Bool
  comma : Bool
  long : Bool
  deriving DecidableEq, Repr

/-- "setup for new item". -/
def PrintItem.setup : PrintItem where
  width := 0
  fieldWidth := 18446744073709551615
  widthParse := false
  padZero := false
  padBefore := true
  comma := false
  long := false

/-- `*Item.WidthParse`. -/
def PrintItem.parsed (it : PrintItem) : Nat := if it.widthParse then it.fieldWidth else it.width

/-- `*Item.WidthParse = n`. -/
def PrintItem.setParsed (it : PrintItem) (n : Nat) : PrintItem :=
  if it.widthParse then { it with fieldWidth := n } else { it with width := n }

/-- `*Item.WidthParse = *Item.WidthParse * 10 + c - '0'`. -/
def PrintItem.addDigit (it : PrintItem) (c : UInt16) : PrintItem :=
  it.setParsed ((it.parsed * 10 + (c.toNat - 48)) % 18446744073709551616)

/-- `va_arg` of a number. -/
def takeWord : List PrintArg → Except PrintFault (BitVec 64 × List PrintArg)
  | .word v :: args => .ok (v, args)
  | _ => .error .argument

/-- `va_arg` of a string; `(null)` for `NULL`. -/
def takeText : List PrintArg → Except PrintFault (Str16 × List PrintArg)
  | .text units :: args => .ok (units.getD [40, 110, 117, 108, 108, 41], args)
  | _ => .error .argument

/-- The argument of `%d`. -/
def PrintItem.signed (it : PrintItem) (v : BitVec 64) : BitVec 64 := if it.long then v else (v.setWidth 32).signExtend 64

/-- The argument of `%u` and `%x`. -/
def PrintItem.unsigned (it : PrintItem) (v : BitVec 64) : BitVec 64 := if it.long then v else (v.setWidth 32).setWidth 64

/-- What a unit inside an item leads to: more of the item, after a flush or not, or its text. -/
inductive ItemTurn where
  | again (it : PrintItem)
  | flush (it : PrintItem)
  | shown (it : PrintItem) (text : Str16)

/-- The text of a number, unless there is no room for its digits. -/
def ItemTurn.ofNumber (it : PrintItem) (args : List PrintArg) : Option Str16 → Except PrintFault (ItemTurn × List PrintArg)
  | some text => .ok (.shown it text, args)
  | none => .error .digits

/-- The `switch` of `_Print` and what follows it. As the attributes are 0, `if (Attr)` never holds. -/
def itemTurn (c : UInt16) (it : PrintItem) (args : List PrintArg) : Except PrintFault (ItemTurn × List PrintArg) :=
  match Char.ofNat c.toNat with
  | '%' => .ok (.shown it [37], args)
  | ',' => .ok (.again { it with comma := true }, args)
  | '-' => .ok (.again { it with padBefore := false }, args)
  | '*' => (takeWord args).map fun x => (.again (it.setParsed x.1.toNat), x.2)
  | '.' => .ok (.again { it with widthParse := true }, args)
  | '0' => .ok (.again { it with padZero := true }, args)
  | 'l' => .ok (.again { it with long := true }, args)
  | 'a' | 's' => (takeText args).map fun x => (.shown it x.1, x.2)
  | 'c' => (takeWord args).map fun x => (.shown it [UInt16.ofNat x.1.toNat], x.2)
  | 'd' => (takeWord args).bind fun x => ItemTurn.ofNumber it x.2 (valueToString it.comma (it.signed x.1))
  | 'u' => (takeWord args).bind fun x => ItemTurn.ofNumber it x.2 (valueToString it.comma (it.unsigned x.1))
  | 'x' => (takeWord args).bind fun x => ItemTurn.ofNumber it x.2 (valueToHex (it.unsigned x.1))
  | 'X' => (takeWord args).bind fun x =>
      ItemTurn.ofNumber { it with width := if it.long then 16 else 8, padZero := true } x.2 (valueToHex (it.unsigned x.1))
  | 'p' => (takeWord args).bind fun x =>
      ItemTurn.ofNumber { it with width := 0, padZero := true } x.2 ((valueToHex (it.unsigned x.1)).map ([48, 120] ++ ·))
  | 'D' | 'f' | 'g' | 'r' | 't' => (takeText args).map fun x => (.shown it x.1, x.2)
  | 'E' | 'H' | 'N' => .ok (.again it, args)
  | 'e' | 'h' | 'n' => .ok (.flush it, args)
  | _ => .ok (.shown it [63], args)

/-- What `PITEM` puts: the text, up to its NUL and the width of its field, with what it is padded with. -/
def PrintItem.padded (it : PrintItem) (text : Str16) : Str16 :=
  let units := CString.text 0 text
  let len := min units.length it.fieldWidth
  let fieldWidth := if it.fieldWidth = 18446744073709551615 then len else it.fieldWidth
  let width := max it.width len
  (if it.padBefore then List.replicate (fieldWidth - width) 32 else []) ++
    List.replicate (width - len) (if it.padZero then 48 else 32) ++ units.take len ++
    (if it.padBefore then [] else List.replicate (fieldWidth - width) 32)

/-- `Buffer[PRINT_STRING_LEN]`, handed on when `Pos` has come to `End`. -/
abbrev PrintBuffer := Spool UInt16 199

theorem printBuffer_room : ([] : Str16).length < 199 := by decide

def PrintBuffer.start : PrintBuffer where
  chunks := []
  pending := []
  small := Spool.small_nil
  room := printBuffer_room

/-- `PPUTC`. -/
def pputc (s : PrintBuffer) (c : UInt16) : PrintBuffer := (if c = 10 then s.put 13 else s).put c

/-- `PITEM`. -/
def pitem (s : PrintBuffer) (it : PrintItem) (text : Str16) : PrintBuffer := (it.padded text).foldl pputc s

/-- `_Print` from somewhere in its format on: outside of an item, or inside of one, perhaps among the digits of a width. -/
def printFrom : Option (PrintItem × Bool) → Str16 → List PrintArg → PrintBuffer → Except PrintFault PrintBuffer
  | none, [], _, s => .ok s.flush
  | some _, [], _, _ => .error .overread
  | none, c :: fmt, args, s =>
    if c ≠ 37 then printFrom none fmt args (pputc s c) else printFrom (some (.setup, false)) fmt args s
  | some (it, digits), c :: fmt, args, s =>
    if digits ∧ 48 ≤ c.toNat ∧ c.toNat ≤ 57 then printFrom (some (it.addDigit c, true)) fmt args s
    else if 49 ≤ c.toNat ∧ c.toNat ≤ 57 then printFrom (some ((it.setParsed 0).addDigit c, true)) fmt args s
    else
      match itemTurn c it args with
      | .error fault => .error fault
      | .ok (.again it, args) => printFrom (some (it, false)) fmt args s
      | .ok (.flush it, args) => printFrom (some (it, false)) fmt args s.flush
      | .ok (.shown it text, args) => printFrom none fmt args (pitem s it text)

/-- A string and how much of it there is. -/
structure SPrint where
  str : Nat → UInt16
  len : Nat

/-- `_SPrint(Context, Buffer)`. -/
def sPrint (maxlen : Nat) (spc : SPrint) (buffer : Str16) : SPrint :=
  let len := if spc.len + buffer.length > maxlen then maxlen - spc.len else buffer.length
  let copied : Nat → UInt16 := fun i => if spc.len ≤ i ∧ i < spc.len + len then buffer.getD (i - spc.len) 0 else spc.str i
  let spc : SPrint := ⟨copied, spc.len + len⟩
  if spc.len < maxlen then { spc with str := fun i => if i = spc.len then 0 else spc.str i }
  else if maxlen ≠ 0 then { spc with str := fun i => if i = maxlen then 0 else spc.str i }
  else spc

/-- `StrSize / sizeof(CHAR16) - 1`. -/
def maxLength (strSize : Nat) : Nat := if strSize / 2 = 0 then 18446744073709551615 else strSize / 2 - 1

/-- `UnicodeSPrint(Str, StrSize, fmt, ...)`: the string and the length returned. -/
def unicodeSPrint (str : Nat → UInt16) (strSize : Nat) (fmt : Str16) (args : List PrintArg) : Except PrintFault SPrint :=
  (printFrom none (CString.text 0 fmt) args .start).map fun s =>
    (s.chunks.map (CString.text 0)).foldl (sPrint (maxLength strSize)) ⟨str, 0⟩

/-! ## What is printed -/

/-- A line feed is preceded by a carriage return. -/
def shownUnit (c : UInt16) : Str16 := if c = 10 then [13, 10] else [c]

/-- What is printed from somewhere in a format on. -/
def renderFrom : Option (PrintItem × Bool) → Str16 → List PrintArg → Except PrintFault Str16
  | none, [], _ => .ok []
  | some _, [], _ => .error .overread
  | none, c :: fmt, args =>
    if c ≠ 37 then (renderFrom none fmt args).map (shownUnit c ++ ·) else renderFrom (some (.setup, false)) fmt args
  | some (it, digits), c :: fmt, args =>
    if digits ∧ 48 ≤ c.toNat ∧ c.toNat ≤ 57 then renderFrom (some (it.addDigit c, true)) fmt args
    else if 49 ≤ c.toNat ∧ c.toNat ≤ 57 then renderFrom (some ((it.setParsed 0).addDigit c, true)) fmt args
    else
      match itemTurn c it args with
      | .error fault => .error fault
      | .ok (.again it, args) | .ok (.flush it, args) => renderFrom (some (it, false)) fmt args
      | .ok (.shown it text, args) => (renderFrom none fmt args).map ((it.padded text).flatMap shownUnit ++ ·)

/-- What a format prints. -/
def render (fmt : Str16) (args : List PrintArg) : Except PrintFault Str16 := renderFrom none (CString.text 0 fmt) args

/-! ## The buffer makes no difference -/

@[simp] theorem text_pputc (s : PrintBuffer) (c : UInt16) : (pputc s c).text = s.text ++ shownUnit c := by
  by_cases feed : c = 10
  · simp [pputc, shownUnit, feed]
  · simp [pputc, shownUnit, feed]

@[simp] theorem text_pitem (s : PrintBuffer) (it : PrintItem) (text : Str16) :
    (pitem s it text).text = s.text ++ (it.padded text).flatMap shownUnit := by
  unfold pitem
  induction it.padded text generalizing s with
  | nil => exact (List.append_nil _).symm
  | cons c units ih => rw [List.foldl_cons, ih, text_pputc, List.flatMap_cons, List.append_assoc]

/-- What `_Print` hands on is what is to be printed behind what has been there. -/
inductive Spooled (s : PrintBuffer) : Except PrintFault Str16 → Except PrintFault PrintBuffer → Prop where
  | fault (fault : PrintFault) : Spooled s (.error fault) (.error fault)
  | text {text s'} (all : s'.text = s.text ++ text) (flushed : s'.pending = []) (handed : s'.chunks ≠ []) :
      Spooled s (.ok text) (.ok s')

theorem Spooled.behind {s s' : PrintBuffer} {front : Str16} {rendered : Except PrintFault Str16}
    {printed : Except PrintFault PrintBuffer} (h : Spooled s' rendered printed) (put : s'.text = s.text ++ front) :
    Spooled s (rendered.map (front ++ ·)) printed := by
  cases h with
  | fault fault => exact .fault fault
  | text all flushed handed =>
    refine .text ?_ flushed handed
    rw [all, put, List.append_assoc]

theorem Spooled.of_text {s s' : PrintBuffer} {rendered : Except PrintFault Str16} {printed : Except PrintFault PrintBuffer}
    (h : Spooled s' rendered printed) (same : s'.text = s.text) : Spooled s rendered printed := by
  cases h with
  | fault fault => exact .fault fault
  | text all flushed handed => exact .text (by rw [all, same]) flushed handed

/-- **`_Print` prints what is to be printed**, through its buffer. -/
theorem printFrom_prints (mode : Option (PrintItem × Bool)) (fmt : Str16) (args : List PrintArg) (s : PrintBuffer) :
    Spooled s (renderFrom mode fmt args) (printFrom mode fmt args s) := by
  induction fmt generalizing mode args s with
  | nil =>
    cases mode with
    | none =>
      refine .text ?_ rfl (List.append_ne_nil_of_right_ne_nil _ (List.cons_ne_nil _ _))
      rw [Spool.text_flush, List.append_nil]
    | some item => exact .fault .overread
  | cons c fmt ih =>
    cases mode with
    | none =>
      rw [renderFrom, printFrom]
      by_cases plain : c ≠ 37
      · rw [if_pos plain, if_pos plain]
        exact (ih ..).behind (text_pputc s c)
      · rw [if_neg plain, if_neg plain]
        exact ih ..
    | some item =>
      obtain ⟨it, digits⟩ := item
      rw [renderFrom, printFrom]
      by_cases more : digits ∧ 48 ≤ c.toNat ∧ c.toNat ≤ 57
      · rw [if_pos more, if_pos more]
        exact ih ..
      rw [if_neg more, if_neg more]
      by_cases first : 49 ≤ c.toNat ∧ c.toNat ≤ 57
      · rw [if_pos first, if_pos first]
        exact ih ..
      rw [if_neg first, if_neg first]
      cases itemTurn c it args with
      | error fault => exact .fault fault
      | ok turned =>
        obtain ⟨turn, args⟩ := turned
        cases turn with
        | again it => exact ih ..
        | flush it => exact (ih ..).of_text (Spool.text_flush s)
        | shown it text => exact (ih ..).behind (text_pitem s it text)

/-! ## No NUL is printed -/

theorem padded_clean (it : PrintItem) (text : Str16) : 0 ∉ it.padded text := by
  have blanks : ∀ n, (0 : UInt16) ∉ List.replicate n 32 := by
    intro n mem
    cases List.eq_of_mem_replicate mem
  intro mem
  simp only [PrintItem.padded, List.mem_append] at mem
  rcases mem with ((front | pad) | unit) | back
  · split at front
    · exact blanks _ front
    · cases front
  · split at pad
    · cases List.eq_of_mem_replicate pad
    · exact blanks _ pad
  · exact CString.nul_not_mem_text text (List.mem_of_mem_take unit)
  · split at back
    · cases back
    · exact blanks _ back

theorem shownUnit_clean {c : UInt16} (some' : c ≠ 0) : 0 ∉ shownUnit c := by
  unfold shownUnit
  split
  · decide
  · exact fun mem => some' (List.mem_singleton.1 mem).symm

theorem clean_map {front text : Str16} {rest : Except PrintFault Str16} (made : rest.map (front ++ ·) = .ok text)
    (first : 0 ∉ front) (later : ∀ back, rest = .ok back → 0 ∉ back) : 0 ∉ text := by
  cases rest with
  | error fault => cases made
  | ok back =>
    cases made
    intro mem
    rcases List.mem_append.1 mem with early | late
    · exact first early
    · exact later back rfl late

/-- What is printed has no NUL inside. -/
theorem renderFrom_clean {mode : Option (PrintItem × Bool)} {fmt : Str16} (clean : 0 ∉ fmt) {args : List PrintArg}
    {text : Str16} (rendered : renderFrom mode fmt args = .ok text) : 0 ∉ text := by
  induction fmt generalizing mode args text with
  | nil =>
    cases mode with
    | none =>
      cases rendered
      exact List.not_mem_nil
    | some item => cases rendered
  | cons c fmt ih =>
    have others : 0 ∉ fmt := fun mem => clean (List.mem_cons_of_mem c mem)
    cases mode with
    | none =>
      rw [renderFrom] at rendered
      split at rendered
      · have here : c ≠ 0 := by
          rintro rfl
          exact clean List.mem_cons_self
        exact clean_map rendered (shownUnit_clean here) fun back rest => ih others rest
      · exact ih others rendered
    | some item =>
      rw [renderFrom] at rendered
      split at rendered
      · exact ih others rendered
      split at rendered
      · exact ih others rendered
      split at rendered
      · cases rendered
      · exact ih others rendered
      · exact ih others rendered
      · refine clean_map rendered ?_ fun back rest => ih others rest
        intro mem
        obtain ⟨unit, put, shown⟩ := List.mem_flatMap.1 mem
        refine shownUnit_clean ?_ shown
        rintro rfl
        exact padded_clean _ _ put

/-! ## The string -/

/-- The text and a NUL at the start of a string. -/
def putText (text : Str16) (str : Nat → UInt16) : Nat → UInt16 := fun i => (text ++ [0]).getD i (str i)

/-- The string has the text at its start, and behind it, except where the NUL comes, what there has been. -/
structure SPrint.Begun (str : Nat → UInt16) (text : Str16) (spc : SPrint) : Prop where
  len : spc.len = text.length
  front : ∀ i, i < text.length → spc.str i = text.getD i 0
  behind : ∀ i, text.length < i → spc.str i = str i

variable {str : Nat → UInt16} {text : Str16} {spc : SPrint} {maxlen i : Nat}

theorem putText_front (lt : i < text.length) : putText text str i = text.getD i 0 := by
  rw [putText, List.getD_eq_getElem?_getD, List.getD_eq_getElem?_getD, List.getElem?_append_left lt, List.getElem?_eq_getElem lt]
  rfl

theorem putText_nul : putText text str text.length = 0 := by
  rw [putText, List.getD_eq_getElem?_getD, List.getElem?_append_right (Nat.le_refl _), Nat.sub_self]
  rfl

theorem putText_behind (lt : text.length < i) : putText text str i = str i := by
  have none : (text ++ [0])[i]? = none := by
    rw [List.getElem?_eq_none_iff, List.length_append]
    exact lt
  rw [putText, List.getD_eq_getElem?_getD, none, Option.getD_none]

theorem begun_putText (str : Nat → UInt16) (text : Str16) : SPrint.Begun str text ⟨putText text str, text.length⟩ where
  len := rfl
  front _ lt := putText_front lt
  behind _ lt := putText_behind lt

/-- The text so far, the beginning of a buffer that has been copied behind it, and a NUL. -/
theorem SPrint.Begun.copied (h : spc.Begun str text) {chunk buffer : Str16} (start : chunk <+: buffer) (i : Nat) :
    (if i = text.length + chunk.length then 0
      else if spc.len ≤ i ∧ i < spc.len + chunk.length then buffer.getD (i - spc.len) 0 else spc.str i) =
      putText (text ++ chunk) str i := by
  have total : (text ++ chunk).length = text.length + chunk.length := List.length_append
  obtain ⟨rest, rfl⟩ := start
  rw [h.len, ← total]
  by_cases nul : i = (text ++ chunk).length
  · rw [if_pos nul, nul, putText_nul]
  rw [if_neg nul]
  by_cases inside : i < (text ++ chunk).length
  · rw [putText_front inside]
    by_cases before : i < text.length
    · rw [if_neg (by omega), h.front i before]
      simp only [List.getD_eq_getElem?_getD, List.getElem?_append_left before]
    · have copied : i - text.length < chunk.length := by omega
      rw [if_pos (by omega)]
      simp only [List.getD_eq_getElem?_getD, List.getElem?_append_left copied, List.getElem?_append_right (Nat.le_of_not_lt before)]
  · rw [putText_behind (by omega), if_neg (by omega), h.behind i (by omega)]

/-- **`_SPrint`** appends what there is room for, and a NUL. -/
theorem SPrint.Begun.append (h : spc.Begun str text) (le : text.length ≤ maxlen) (positive : maxlen ≠ 0) (buffer : Str16) :
    sPrint maxlen spc buffer = ⟨putText (accept maxlen text buffer) str, (accept maxlen text buffer).length⟩ := by
  have count : (if spc.len + buffer.length > maxlen then maxlen - spc.len else buffer.length) =
      (buffer.take (maxlen - text.length)).length := by
    rw [h.len, List.length_take]
    split <;> omega
  have total : (accept maxlen text buffer).length = text.length + (buffer.take (maxlen - text.length)).length :=
    List.length_append
  have most := length_accept le buffer
  have copied := h.copied (List.take_prefix (maxlen - text.length) buffer)
  simp only [sPrint, count]
  -- The NUL comes behind the text, also where there is no room for more.
  by_cases room : spc.len + (buffer.take (maxlen - text.length)).length < maxlen
  · rw [if_pos room, SPrint.mk.injEq]
    refine ⟨funext fun i => ?_, by rw [h.len, total]⟩
    refine Eq.trans ?_ (copied i)
    rw [h.len]
  · have full : text.length + (buffer.take (maxlen - text.length)).length = maxlen := by
      rw [h.len] at room
      omega
    rw [if_neg room, if_pos positive, SPrint.mk.injEq]
    refine ⟨funext fun i => ?_, by rw [h.len, total]⟩
    refine Eq.trans ?_ (copied i)
    rw [full]

/-- All chunks, one after the other. -/
theorem SPrint.Begun.appends (h : spc.Begun str text) (le : text.length ≤ maxlen) (positive : maxlen ≠ 0)
    {buffers : List Str16} (some' : buffers ≠ []) : buffers.foldl (sPrint maxlen) spc =
      ⟨putText (buffers.foldl (accept maxlen) text) str, (buffers.foldl (accept maxlen) text).length⟩ := by
  induction buffers generalizing text spc with
  | nil => exact absurd rfl some'
  | cons buffer buffers ih =>
    rw [List.foldl_cons, List.foldl_cons, h.append le positive buffer]
    cases buffers with
    | nil => rfl
    | cons next rest => exact ih (begun_putText ..) (length_accept le buffer) (List.cons_ne_nil next rest)

/-- **`UnicodeSPrint`** leaves what its format prints at the start of the string, as much of it as the size of the string
allows, with a NUL behind it, and nothing else; the buffer of 200 units makes no difference. -/
theorem unicodeSPrint_render (str : Nat → UInt16) {strSize : Nat} (positive : maxLength strSize ≠ 0) (fmt : Str16)
    (args : List PrintArg) : unicodeSPrint str strSize fmt args =
      (render fmt args).map fun text =>
        ⟨putText (text.take (maxLength strSize)) str, (text.take (maxLength strSize)).length⟩ := by
  have prints := printFrom_prints none (CString.text 0 fmt) args .start
  have clean : ∀ {text}, renderFrom none (CString.text 0 fmt) args = .ok text → 0 ∉ text :=
    fun rendered => renderFrom_clean (CString.nul_not_mem_text fmt) rendered
  unfold unicodeSPrint render
  generalize renderFrom none (CString.text 0 fmt) args = rendered,
    printFrom none (CString.text 0 fmt) args .start = printed at prints clean ⊢
  cases prints with
  | fault fault => rfl
  | @text text s all flushed handed =>
    have whole : s.chunks.flatten = text := by
      have same : s.chunks.flatten ++ s.pending = [] ++ text := all
      rwa [flushed, List.append_nil, List.nil_append] at same
    have chunks : s.chunks.map (CString.text 0) = s.chunks := by
      refine (List.map_congr_left fun chunk mem => ?_).trans (List.map_id _)
      refine CString.text_of_clean fun nul => clean rfl ?_
      rw [← whole]
      exact List.mem_flatten_of_mem mem nul
    have begun : SPrint.Begun str [] ⟨str, 0⟩ := ⟨rfl, fun i lt => absurd lt (Nat.not_lt_zero i), fun i lt => rfl⟩
    apply congrArg Except.ok
    change (s.chunks.map (CString.text 0)).foldl _ _ = _
    rw [chunks, begun.appends (Nat.zero_le _) positive handed, foldl_accept (Nat.zero_le _), List.nil_append, whole]

/-- A string without room for anything is not touched. -/
theorem sPrint_roomless (str : Nat → UInt16) (buffers : List Str16) : buffers.foldl (sPrint 0) ⟨str, 0⟩ = ⟨str, 0⟩ := by
  induction buffers with
  | nil => rfl
  | cons buffer buffers ih =>
    have same : sPrint 0 ⟨str, 0⟩ buffer = ⟨str, 0⟩ := by
      have count : (if 0 + buffer.length > 0 then 0 - 0 else buffer.length) = 0 := by
        split <;> omega
      simp only [sPrint, count]
      rw [if_neg (Nat.lt_irrefl 0), if_neg (not_not_intro rfl), SPrint.mk.injEq]
      exact ⟨funext fun i => if_neg (by omega), rfl⟩
    rw [List.foldl_cons, same, ih]

/-- As much of a text as there is room for, and a NUL; nothing where there is no room for anything. -/
def truncated (maxlen : Nat) (str : Nat → UInt16) (text : Str16) : SPrint :=
  if maxlen = 0 then ⟨str, 0⟩ else ⟨putText (text.take maxlen) str, (text.take maxlen).length⟩

theorem truncated_nul (room : maxlen ≠ 0) : (truncated maxlen str text).str (truncated maxlen str text).len = 0 := by
  rw [truncated, if_neg room]
  exact putText_nul

theorem truncated_behind (lt : maxlen < i) : (truncated maxlen str text).str i = str i := by
  unfold truncated
  split
  · rfl
  · apply putText_behind
    rw [List.length_take]
    omega

/-- What is printed, truncated. -/
theorem unicodeSPrint_eq (str : Nat → UInt16) (strSize : Nat) (fmt : Str16) (args : List PrintArg) :
    unicodeSPrint str strSize fmt args = (render fmt args).map (truncated (maxLength strSize) str) := by
  by_cases roomless : maxLength strSize = 0
  · have prints := printFrom_prints none (CString.text 0 fmt) args .start
    unfold unicodeSPrint render
    rw [roomless]
    generalize renderFrom none (CString.text 0 fmt) args = rendered, printFrom none (CString.text 0 fmt) args .start = printed
      at prints ⊢
    cases prints with
    | fault fault => rfl
    | text all flushed handed => exact congrArg Except.ok (sPrint_roomless str _)
  · rw [unicodeSPrint_render str roomless]
    congr 1
    funext text
    rw [truncated, if_neg roomless]

/-- **What `UnicodeSPrint` does to memory.** A string with a size of two or three bytes it leaves as it is, without a NUL;
otherwise it puts there what is printed, truncated, and a NUL. Behind the size of a string it writes nothing. -/
theorem unicodeSPrint_truncates (str : Nat → UInt16) (strSize : Nat) (fmt : Str16) (args : List PrintArg) :
    unicodeSPrint str strSize fmt args = (render fmt args).map (truncated (maxLength strSize) str) ∧
    ∀ spc, unicodeSPrint str strSize fmt args = .ok spc →
      (2 ≤ strSize → ∀ i, strSize / 2 ≤ i → spc.str i = str i) ∧ (maxLength strSize ≠ 0 → spc.str spc.len = 0) := by
  have whole := unicodeSPrint_eq str strSize fmt args
  refine ⟨whole, fun spc made => ?_⟩
  rw [whole] at made
  cases rendered : render fmt args with
  | error fault =>
    rw [rendered] at made
    cases made
  | ok text =>
    rw [rendered] at made
    obtain rfl := Except.ok.inj made
    refine ⟨fun two i behind => truncated_behind ?_, truncated_nul⟩
    have size : maxLength strSize = strSize / 2 - 1 := if_neg (by omega)
    omega

end Lavoro
