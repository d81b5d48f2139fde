import Lavoro.Console.Print
import Lavoro.Console.Printed

/-!
# What the terminal is given of a stream

`Print` hands what `_Print` makes of its format to `OutputString`, string by string. Here the printer of `cat` and
`TCPAcceptConnection` keeps these strings too. Put together they are what is printed, with one more carriage return in front of every
line feed, wherever the pages of `szBuffer` and the buffer of `_Print` break.
-/

namespace Lavoro.Console
open Lib Reader

/-- `Print(fmt, ...)` of a format without attributes: the strings that `OutputString` gets. -/
def print (fmt : Str16) (args : List PrintArg) : Except PrintFault (List Str16) :=
  (printFrom none (CString.text 0 fmt) args .start).map Spool.chunks

/-- A printer, and the strings that `OutputString` has got. -/
structure Screened where
  printer : Printer
  strings : Except PrintFault (List Str16)

namespace Screened

def start (szBuffer : CString.Field (0 : UInt16) maxBufferSize) : Screened := ⟨.start szBuffer, .ok []⟩

def put (u : UInt16) (o : Screened) : Screened := { o with printer := o.printer.put u }

/-- `szBuffer[szBufferSize] = 0; Print(L"%s", szBuffer); szBufferSize = 0; ZeroMem(..)`. -/
def emit (o : Screened) : Screened where
  printer := o.printer.emit
  strings := o.strings.bind fun before =>
    (print (units ['%', 's']) [.text (some (o.printer.szBuffer.store o.printer.szBufferSize [0]).units)]).map (before ++ ·)

def flushed (o : Screened) : Screened := if o.printer.szBufferSize = maxBufferSize - 1 then o.emit else o

def finish (o : Screened) : Screened := if o.printer.szBufferSize ≠ 0 then o.emit else o

end Screened

variable {σ : Type}

/-- One turn of `while (!Reader.AtEnd())`. -/
def screenedTurn (readBuffer : ReadBuffer σ) (x : Screened × LReader × σ) :
    Turn (Screened × LReader × σ) (Screened × LReader × σ) :=
  if atEnd x.2.1 then .leave x
  else
    let c := current readBuffer (next readBuffer x.2).2
    if c.1 ≠ readerEof then
      let d := current readBuffer c.2
      .again ((x.1.put (toUnit d.1)).flushed, d.2)
    else .leave (x.1, c.2)

/-! ## One page -/

theorem padded_text (it : PrintItem) (text : Str16) : it.padded text = it.padded (CString.text 0 text) := by
  have same : CString.text 0 (CString.text 0 text) = CString.text 0 text :=
    CString.text_of_clean (CString.nul_not_mem_text text)
  unfold PrintItem.padded
  rw [same]

theorem pageFormat_allowed : ∀ p ∈ [Piece.item [] (.text 115)], p.allowed = true := by decide

/-- The strings that are handed on for a page are the string on it, in pieces that the buffer has room for. -/
theorem print_page {page : Str16} (short : page.length ≤ 18446744073709551615) :
    ∃ strings, print (units ['%', 's']) [.text (some page)] = .ok strings ∧
      strings.flatten = (CString.text 0 page).flatMap shownUnit ∧ ∀ s ∈ strings, s.length ≤ 199 ∧ 0 ∉ s := by
  have clean : 0 ∉ CString.text 0 page := CString.nul_not_mem_text page
  have short' : (CString.text 0 page).length ≤ 18446744073709551615 :=
    Nat.le_trans (List.takeWhile_prefix _).length_le short
  have field : PrintItem.setup.padded page = CString.text 0 page :=
    (padded_text _ page).trans (padded_bare clean rfl rfl short')
  have meant : shown [Piece.item [] (.text 115)] [.text (some page)] =
      .ok ((PrintItem.setup.padded page).flatMap shownUnit ++ []) := rfl
  have rendered := (render_pieces pageFormat_allowed [.text (some page)]).trans meant
  rw [List.append_nil, field] at rendered
  have noNul : 0 ∉ (CString.text 0 page).flatMap shownUnit :=
    renderFrom_clean (CString.nul_not_mem_text _) rendered
  have prints := printFrom_prints none (CString.text 0 (units ['%', 's'])) [.text (some page)] .start
  unfold print
  rw [show renderFrom none (CString.text 0 (units ['%', 's'])) [.text (some page)] = _ from rendered] at prints
  generalize printFrom none (CString.text 0 (units ['%', 's'])) [.text (some page)] .start = printed at prints ⊢
  cases prints with
  | @text text s all flushed handed =>
    have whole : s.chunks.flatten = (CString.text 0 page).flatMap shownUnit := by
      have same : s.chunks.flatten ++ s.pending = [] ++ (CString.text 0 page).flatMap shownUnit := all
      rwa [flushed, List.append_nil, List.nil_append] at same
    refine ⟨s.chunks, rfl, whole, fun chunk mem => ⟨s.small chunk mem, fun nul => noNul ?_⟩⟩
    rw [← whole]
    exact List.mem_flatten_of_mem mem nul

/-! ## The loop -/

namespace Screened

/-- The strings are what has been printed. -/
def Tells (o : Screened) : Prop :=
  ∃ strings, o.strings = .ok strings ∧ strings.flatten = o.printer.printed.flatMap shownUnit ∧
    ∀ s ∈ strings, s.length ≤ 199 ∧ 0 ∉ s

variable {o : Screened}

theorem tells_emit (h : o.Tells) : o.emit.Tells := by
  obtain ⟨before, strings, same, small⟩ := h
  have length : (o.printer.szBuffer.store o.printer.szBufferSize [0]).units.length ≤ 18446744073709551615 := by
    rw [(o.printer.szBuffer.store o.printer.szBufferSize [0]).length_units]
    decide
  obtain ⟨now, made, page, small'⟩ := print_page length
  refine ⟨before ++ now, ?_, ?_, fun s mem => ?_⟩
  · rw [emit, strings, Except.bind, made]
    rfl
  · rw [List.flatten_append, same, page, ← List.flatMap_append]
    rfl
  · rcases List.mem_append.1 mem with early | late
    · exact small s early
    · exact small' s late

theorem tells_flushed (h : o.Tells) : o.flushed.Tells := by
  unfold flushed
  split
  · exact tells_emit h
  · exact h

theorem tells_finish (h : o.Tells) : o.finish.Tells := by
  unfold finish
  split
  · exact tells_emit h
  · exact h

theorem tells_turn (readBuffer : ReadBuffer σ) (x : Screened × LReader × σ) (h : x.1.Tells) :
    (screenedTurn readBuffer x).state.1.Tells := by
  unfold screenedTurn
  split
  · exact h
  · dsimp only
    split
    · exact tells_flushed h
    · exact h

@[simp] theorem printer_flushed (o : Screened) : o.flushed.printer = o.printer.flushed := by
  unfold flushed Printer.flushed
  split <;> rfl

@[simp] theorem printer_finish (o : Screened) : o.finish.printer = o.printer.finish := by
  unfold finish Printer.finish
  split <;> rfl

/-- What is printed is printed by the same turns. -/
theorem turn_printer (readBuffer : ReadBuffer σ) (x : Screened × LReader × σ) :
    printTurn readBuffer (x.1.printer, x.2) = (screenedTurn readBuffer x).map fun y => (y.1.printer, y.2) := by
  unfold printTurn screenedTurn
  by_cases ended : atEnd x.2.1 = true
  · rw [if_pos ended, if_pos ended]
    rfl
  rw [if_neg ended, if_neg ended]
  dsimp only
  by_cases last : (current readBuffer (next readBuffer x.2).2).1 ≠ readerEof
  · rw [if_pos last, if_pos last, Turn.map, printer_flushed]
    rfl
  · rw [if_neg last, if_neg last]
    rfl

end Screened

/-- The loop ends, and put together the strings that `OutputString` has got are `out`; each is short and has no NUL inside. -/
def Displays (readBuffer : ReadBuffer σ) (szBuffer : CString.Field (0 : UInt16) maxBufferSize) (p : LReader × σ) (out : Str16) : Prop :=
  ∃ o q strings, Loop.Leaves (screenedTurn readBuffer) (.start szBuffer, p) (o, q) ∧ o.finish.strings = .ok strings ∧
    strings.flatten = out ∧ (∀ s ∈ strings, s.length ≤ 199 ∧ 0 ∉ s) ∧ o.finish.printer.szBuffer.overflow = false

/-- What is printed is shown, with a carriage return in front of every line feed. -/
theorem displays_printed {readBuffer : ReadBuffer σ} {szBuffer : CString.Field (0 : UInt16) maxBufferSize} {p : LReader × σ}
    {out : Str16} (h : Prints readBuffer (.start szBuffer, p) out) : Displays readBuffer szBuffer p (out.flatMap shownUnit) := by
  obtain ⟨o, q, ⟨turns, run⟩, rfl, inside⟩ := h
  have mapped := Loop.after_map (fun y : Screened × LReader × σ => (y.1.printer, y.2)) (Screened.turn_printer readBuffer) turns
    (.start szBuffer, p)
  have left := (Loop.after_eq_leave_iff.2 run).symm.trans mapped
  have begun : (Screened.start szBuffer).Tells := ⟨[], rfl, rfl, nofun⟩
  have told := Loop.after_keeps (fun x => Screened.tells_turn readBuffer x) turns (s := (Screened.start szBuffer, p)) begun
  cases stopped : Loop.after (screenedTurn readBuffer) turns (.start szBuffer, p) with
  | again y => rw [stopped] at left; cases left
  | leave y =>
    rw [stopped] at left told
    cases left
    obtain ⟨strings, made, same, small⟩ := Screened.tells_finish told
    refine ⟨y.1, y.2, strings, ⟨turns, Loop.after_eq_leave_iff.1 stopped⟩, made, ?_, small, ?_⟩
    · rw [same, Screened.printer_finish]
      rfl
    · rwa [Screened.printer_finish]

/-- **What a user sees of a file or a connection** is every byte of it in its order, with one more carriage return in front of
every line feed. -/
theorem stream_shown (szBuffer : CString.Field (0 : UInt16) maxBufferSize) (b : Buffer readerBufferSize)
    (inside : szBuffer.overflow = false) :
    (∀ tape : Tape, 0 ∉ contentOf tape.chunks →
      Displays (fileReadBuffer readTape) szBuffer (construct b, tape) ((unitsOf (contentOf tape.chunks)).flatMap shownUnit)) ∧
    ∀ f : Net.Feed, 0 ∉ f.stream → f.ending ≠ .fin →
      Displays Net.readBuffer szBuffer (construct b, f.connection) ((unitsOf f.stream).flatMap shownUnit) := by
  refine ⟨fun tape clean => displays_printed ?_, fun f clean ending => displays_printed ?_⟩
  · have serves := tape_serves tape.chunks tape rfl
    rw [← handed_reported b] at clean ⊢
    exact printsAll_handed serves inside clean
  · have printed := (printsAll_iff (b := b) (Net.feed_serves f) inside f.stream).2
    rw [handed_feed] at printed
    exact printed ((leftOver_nothing_iff clean).2 fun fin => absurd fin ending)

/-- A file of a letter and a line feed. -/
theorem line_shown :
    Displays (fileReadBuffer readTape) freshLine (construct fun _ => 0, .ending [⟨[104, 10], by decide, by decide⟩])
      [104, 13, 10] :=
  (stream_shown freshLine (fun _ => 0) rfl).1 (.ending [⟨[104, 10], by decide, by decide⟩]) (by decide)

end Lavoro.Console
