import Lavoro.Efi.Base
import Lavoro.Lib.CString
import Lavoro.Lib.Loop
import Lavoro.Lib.Terminal

/-!
# Typing a line (`Input`, gnu-efi's `lib/console.c`)

`IInput` reads key strokes up to Enter, or up to an error, and keeps the line in the caller's
array, which it terminates after every key. Whatever is typed, the array holds the line that is
left of it, the terminal shows that line behind the prompt, and nothing is written outside the
array (`input_edits`). Exactly the lines of shown characters that fit into the array can be entered
(`entered_iff`). The row of the terminal is taken to be wide enough for the prompt and the line.
-/

namespace Lavoro.Efi
open Lib

/-- What `ReadKeyStroke` answers: an error, or the unit of a key. -/
inductive Stroke where
  | failed
  | key (unicodeChar : UInt16)
  deriving Repr, DecidableEq

/-- The state of `IInput`: `output` has been handed to `OutputString`, and `strokes` are to come. -/
structure Editing (size : Nat) where
  inStr : CString.Field (0 : UInt16) size
  len : Nat
  output : Str16
  strokes : List Stroke

/-- `L'\b'`. -/
def backspace : UInt16 := 8

/-- `L' '`. -/
def blank : UInt16 := 32

/-- A key that ends the line. -/
def EndsLine (u : UInt16) : Prop := u = 10 ∨ u = 13

instance (u : UInt16) : Decidable (EndsLine u) := inferInstanceAs (Decidable (_ ∨ _))

variable {size : Nat}

namespace Editing

/-- `InStr[Len] = u; InStr[Len+1] = 0; OutputString(&InStr[Len]); Len += 1`. -/
def typed (u : UInt16) (x : Editing size) : Editing size :=
  let inStr := (x.inStr.store x.len [u]).store (x.len + 1) [0]
  { x with inStr, len := x.len + 1, output := x.output ++ CString.text 0 (inStr.units.drop x.len) }

/-- `OutputString(L"\b \b"); Len -= 1`. -/
def erased (x : Editing size) : Editing size :=
  { x with len := x.len - 1, output := x.output ++ [backspace, blank, backspace] }

end Editing

/-- One turn of the loop of `IInput`; it waits while no key is pressed. -/
def inputTurn (x : Editing size) : Turn (Editing size) (Editing size) :=
  match x.strokes with
  | [] => .again x
  | .failed :: strokes => .leave { x with strokes }
  | .key u :: strokes =>
    let x := { x with strokes }
    if EndsLine u then .leave x
    else if u = backspace then .again (if x.len ≠ 0 then x.erased else x)
    else if blank ≤ u then .again (if x.len < size - 1 then x.typed u else x)
    else .again x

/-- The state in which the loop is entered. -/
def inputStart (prompt : Str16) (inStr : CString.Field (0 : UInt16) size) (strokes : List Stroke) : Editing size :=
  ⟨inStr, 0, prompt, strokes⟩

/-- `InStr[Len] = 0` behind the loop. -/
def inputEnd (x : Editing size) : Editing size := { x with inStr := x.inStr.store x.len [0] }

/-- What is left of the keys. -/
def lineOf (size : Nat) (keys : Str16) : Str16 := keys.foldl (edit backspace (blank ≤ ·) (size - 1)) []

/-- How the loop is entered: the row of the terminal, which shows `front`, the prompt, what the array
holds, and whether nothing will be taken off the line. -/
structure Entry where
  row : Row UInt16
  front : Str16
  prompt : Str16
  units : Str16
  plain : Prop

/-- `line` is in the array, and on the terminal behind what it has shown before. -/
structure Edits (e : Entry) (line : Str16) (x : Editing size) : Prop where
  len : x.len = line.length
  units : x.inStr.units.take line.length = line
  inside : x.inStr.overflow = false
  clean : Typeable (blank ≤ ·) (size - 1) line
  behind : e.plain → x.inStr.units.drop (x.len + 1) = e.units.drop (x.len + 1)
  echo : ∃ echo, x.output = e.prompt ++ echo ∧ (e.row.emitAll backspace echo).Shows blank (e.front ++ line)

section Turns

variable {e : Entry} {line : Str16} {x : Editing size} {u : UInt16} {strokes : List Stroke}

theorem ne_zero_of_shown (shown : blank ≤ u) : u ≠ 0 := by
  rintro rfl
  exact absurd shown (by decide)

/-- **A character is added.** -/
theorem edits_typed (h : Edits e line x) (shown : blank ≤ u) (other : u ≠ backspace)
    (room : x.len < size - 1) : Edits e (line ++ [u]) (x.typed u) := by
  obtain ⟨echo, output, shows⟩ := h.echo
  have len := h.len
  have inside : x.len + [u].length ≤ size := by
    rw [List.length_singleton]
    omega
  have inside' : x.len + 1 + [(0 : UInt16)].length ≤ size := by
    rw [List.length_singleton]
    omega
  have first : (x.inStr.store x.len [u]).units.take (x.len + 1) = line ++ [u] := by
    rw [CString.Field.store_units inside, len, h.units]
    have length : (line ++ [u]).length = line.length + 1 := List.length_append
    rw [← length, List.take_left]
  have all : (x.typed u).inStr.units =
      line ++ [u] ++ [0] ++ (x.inStr.store x.len [u]).units.drop (x.len + 1 + 1) := by
    show ((x.inStr.store x.len [u]).store (x.len + 1) [0]).units = _
    rw [CString.Field.store_units inside', first]
    rfl
  have shown' : CString.text 0 ((x.typed u).inStr.units.drop x.len) = [u] := by
    rw [all, len, List.append_assoc, List.append_assoc, List.drop_left]
    exact CString.text_terminated (by simpa using (ne_zero_of_shown shown).symm) _
  have short : line.length < size - 1 := len ▸ room
  refine ⟨?_, ?_, ?_, ?_, fun plain => ?_, echo ++ [u], ?_, ?_⟩
  · show x.len + 1 = _
    rw [len, List.length_append, List.length_singleton]
  · rw [all, List.append_assoc, List.take_left]
  · exact (CString.Field.store_overflow _ _ _).2
      ⟨(CString.Field.store_overflow _ _ _).2 ⟨h.inside, inside⟩, inside'⟩
  · have added := h.clean.edit backspace u
    rwa [edit, if_neg other, if_pos ⟨shown, short⟩] at added
  · have length : (line ++ [u] ++ [0]).length = x.len + 1 + 1 := by
      rw [List.length_append, List.length_append, List.length_singleton, List.length_singleton, len]
    show (x.typed u).inStr.units.drop (x.len + 1 + 1) = _
    rw [all, ← length, List.drop_left, length, CString.Field.store_units inside, len, h.units]
    have before : (line ++ [u]).length + 1 = line.length + 1 + 1 := by
      rw [List.length_append, List.length_singleton]
    rw [← before, ← List.drop_drop, List.drop_left, List.length_singleton, ← len, h.behind plain, List.drop_drop]
    rfl
  · show x.output ++ CString.text 0 ((x.typed u).inStr.units.drop x.len) = _
    rw [shown', output, List.append_assoc]
  · rw [Row.emitAll_append, ← List.append_assoc]
    exact shows.emit other

/-- **The last character is taken off.** -/
theorem edits_erased (h : Edits e line x) (some : x.len ≠ 0) (taken : ¬ e.plain) :
    Edits e line.dropLast x.erased := by
  obtain ⟨echo, output, shows⟩ := h.echo
  have len := h.len
  rcases List.eq_nil_or_concat line with rfl | ⟨init, c, rfl⟩
  · exact absurd len some
  rw [List.concat_eq_append] at h len shows ⊢
  rw [List.length_append, List.length_singleton] at len
  rw [List.dropLast_concat]
  refine ⟨?_, ?_, h.inside, ?_, fun plain => absurd plain taken, echo ++ [backspace, blank, backspace], ?_, ?_⟩
  · show x.len - 1 = _
    rw [len, Nat.add_sub_cancel]
  · have units := congrArg (List.take init.length) h.units
    rwa [List.take_take, List.length_append, List.length_singleton, Nat.min_eq_left (Nat.le_succ _),
      List.take_left] at units
  · have shorter := h.clean.edit backspace backspace
    rwa [edit, if_pos rfl, List.dropLast_concat] at shorter
  · show x.output ++ _ = _
    rw [output, List.append_assoc]
  · rw [Row.emitAll_append]
    rw [← List.append_assoc] at shows
    exact shows.erase (by decide)

/-- **A key edits the line.** -/
theorem inputTurn_key (h : Edits e line x) (next : x.strokes = .key u :: strokes)
    (more : ¬ EndsLine u) (plain : e.plain → u ≠ backspace) :
    ∃ x', inputTurn x = .again x' ∧ x'.strokes = strokes ∧
      Edits e (edit backspace (blank ≤ ·) (size - 1) line u) x' := by
  have same : Edits e line { x with strokes } := ⟨h.len, h.units, h.inside, h.clean, h.behind, h.echo⟩
  have len := h.len
  unfold inputTurn edit
  rw [next]
  simp only [if_neg more]
  by_cases back : u = backspace
  · simp only [if_pos back]
    by_cases some : x.len ≠ 0
    · rw [if_pos some]
      exact ⟨_, rfl, rfl, edits_erased same some fun is => plain is back⟩
    · rw [if_neg some]
      have none : line = [] := by
        apply List.length_eq_zero_iff.1
        omega
      subst none
      exact ⟨_, rfl, rfl, same⟩
  · simp only [if_neg back]
    by_cases shown : blank ≤ u
    · simp only [shown, if_true, true_and, ← len]
      by_cases room : x.len < size - 1
      · rw [if_pos room, if_pos room]
        exact ⟨_, rfl, rfl, edits_typed same shown back room⟩
      · rw [if_neg room, if_neg room]
        exact ⟨_, rfl, rfl, same⟩
    · simp only [shown, false_and, if_false]
      exact ⟨_, rfl, rfl, same⟩

/-- A stroke that ends the line. -/
def Stroke.Ends : Stroke → Prop
  | .failed => True
  | .key u => EndsLine u

instance (last : Stroke) : Decidable last.Ends :=
  match last with
  | .failed => inferInstanceAs (Decidable True)
  | .key u => inferInstanceAs (Decidable (EndsLine u))

theorem inputTurn_last {last : Stroke} (ends : last.Ends) (next : x.strokes = last :: strokes) :
    inputTurn x = .leave { x with strokes } := by
  unfold inputTurn
  rw [next]
  cases last with
  | failed => rfl
  | key u => exact if_pos ends

/-- **The loop edits the line**, key by key, up to the stroke that ends it. -/
theorem inputTurn_leaves {keys : Str16} (notEnd : ∀ u ∈ keys, ¬ EndsLine u) {last : Stroke} (ends : last.Ends)
    {more : List Stroke} (plain : e.plain → backspace ∉ keys) (h : Edits e line x) (next : x.strokes = keys.map .key ++ last :: more) :
    ∃ r, Loop.Leaves inputTurn x r ∧ r.strokes = more ∧
      Edits e (keys.foldl (edit backspace (blank ≤ ·) (size - 1)) line) r := by
  induction keys generalizing x line with
  | nil =>
    have turn := inputTurn_last ends next
    exact ⟨_, (Loop.leaves_leave turn).2 rfl, rfl, h.len, h.units, h.inside, h.clean, h.behind, h.echo⟩
  | cons u keys ih =>
    obtain ⟨first, others⟩ := List.forall_mem_cons.1 notEnd
    have other : e.plain → u ≠ backspace := fun is => Ne.symm (List.ne_of_not_mem_cons (plain is))
    obtain ⟨x', turn, next', h'⟩ := inputTurn_key h next first other
    obtain ⟨r, leaves, rest⟩ := ih others (fun is => List.not_mem_of_not_mem_cons (plain is)) h' next'
    exact ⟨r, (Loop.leaves_again turn).2 leaves, rest⟩

theorem edits_start {inStr : CString.Field (0 : UInt16) size} (inside : inStr.overflow = false)
    (shows : e.row.Shows blank e.front) (same : e.units = inStr.units) (strokes : List Stroke) :
    Edits e [] (inputStart e.prompt inStr strokes) :=
  ⟨rfl, rfl, inside, .nil, fun _ => by rw [same]; rfl, [], (List.append_nil _).symm, by rwa [List.append_nil]⟩

/-- The array behind the loop. -/
theorem inputEnd_units (h : Edits e line x) (some : 0 < size) :
    (inputEnd x).inStr.units = line ++ 0 :: x.inStr.units.drop (line.length + 1) ∧
      (inputEnd x).inStr.overflow = false := by
  have room := h.clean.room
  have len := h.len
  have inside : x.len + [(0 : UInt16)].length ≤ size := by
    rw [List.length_singleton]
    omega
  constructor
  · rw [inputEnd, CString.Field.store_units inside, len, h.units, List.append_assoc]
    rfl
  · exact (CString.Field.store_overflow _ _ _).2 ⟨h.inside, inside⟩

theorem inputEnd_str (h : Edits e line x) (some : 0 < size) : (inputEnd x).inStr.str = line := by
  have set : (0 : UInt16) ∉ line := fun nul => ne_zero_of_shown (h.clean.shown 0 nul) rfl
  rw [CString.Field.str, (inputEnd_units h some).1]
  exact CString.text_terminated set _

/-- Keys, and a stroke that ends the line, leave the loop with what is left of them. -/
theorem input_leaves {inStr : CString.Field (0 : UInt16) size} (inside : inStr.overflow = false)
    (shows : e.row.Shows blank e.front) (same : e.units = inStr.units) {keys : Str16}
    (notEnd : ∀ u ∈ keys, ¬ EndsLine u) {last : Stroke} (ends : last.Ends) (more : List Stroke)
    (plain : e.plain → backspace ∉ keys) :
    ∃ r, Loop.Leaves inputTurn (inputStart e.prompt inStr (keys.map .key ++ last :: more)) r ∧ r.strokes = more ∧
      Edits e (lineOf size keys) r :=
  inputTurn_leaves notEnd ends plain (edits_start inside shows same _) rfl

end Turns

/-- **`Input` edits a line.** After any keys and the stroke that ends the line, be it Enter or an error, the
array holds what is left of the keys, with a NUL behind it; nothing has been written outside the array; the
strokes to come are untouched; and the terminal shows the line where the prompt has left the cursor, on a row that
never wraps round. If nothing was taken off, the array is as it was behind that NUL. -/
theorem input_edits {inStr : CString.Field (0 : UInt16) size} (some : 0 < size) (inside : inStr.overflow = false)
    {keys : Str16} (notEnd : ∀ u ∈ keys, ¬ EndsLine u) {last : Stroke} (ends : last.Ends) (more : List Stroke)
    (prompt : Str16) {row : Row UInt16} {front : Str16} (shows : row.Shows blank front) :
    ∃ r rest echo, Loop.Leaves inputTurn (inputStart prompt inStr (keys.map .key ++ last :: more)) r ∧
      (inputEnd r).inStr.units = lineOf size keys ++ 0 :: rest ∧ (inputEnd r).inStr.overflow = false ∧
      (inputEnd r).inStr.str = lineOf size keys ∧ (inputEnd r).strokes = more ∧
      (inputEnd r).output = prompt ++ echo ∧
      (row.emitAll backspace echo).Shows blank (front ++ lineOf size keys) ∧
      (backspace ∉ keys → rest = inStr.units.drop ((lineOf size keys).length + 1)) := by
  let e : Entry := ⟨row, front, prompt, inStr.units, backspace ∉ keys⟩
  obtain ⟨r, leaves, left, edits⟩ := input_leaves (e := e) inside shows rfl notEnd ends more fun plain => plain
  obtain ⟨units, inside'⟩ := inputEnd_units edits some
  obtain ⟨echo, output, shown⟩ := edits.echo
  refine ⟨r, _, echo, leaves, units, inside', inputEnd_str edits some, left, output, shown, fun plain => ?_⟩
  have behind := edits.behind plain
  rwa [edits.len] at behind

/-- An array that has been in use. -/
def untidy : CString.Field (0 : UInt16) 256 := ⟨List.replicate 256 7, List.length_replicate, false⟩

/-- `rm`, with a slip. -/
theorem slip_corrected :
    ∃ r, Loop.Leaves inputTurn (inputStart [36] untidy [.key 114, .key 110, .key 8, .key 109, .key 13]) r ∧
      (inputEnd r).inStr.str = [114, 109] := by
  have notEnd : ∀ u ∈ ([114, 110, 8, 109] : Str16), ¬ EndsLine u := by
    simp only [List.forall_mem_cons]
    exact ⟨by decide, by decide, by decide, by decide, fun _ => nofun⟩
  have ends : (Stroke.key 13).Ends := by decide
  have shows : (Row.mk [36] [] : Row UInt16).Shows blank [36] := ⟨rfl, fun _ => nofun⟩
  have fine : untidy.overflow = false := rfl
  obtain ⟨r, -, -, leaves, -, -, str, -⟩ := input_edits (by decide) fine notEnd ends [] [36] shows
  exact ⟨r, leaves, str⟩

/-- The strokes up to the first that ends the line. -/
theorem strokes_split {strokes : List Stroke} (some : ∃ last ∈ strokes, last.Ends) :
    ∃ (keys : Str16) (last : Stroke) (more : List Stroke),
      strokes = keys.map .key ++ last :: more ∧ (∀ u ∈ keys, ¬ EndsLine u) ∧ last.Ends := by
  induction strokes with
  | nil =>
    obtain ⟨_, mem, -⟩ := some
    cases mem
  | cons s strokes ih =>
    by_cases ends : s.Ends
    · exact ⟨[], s, strokes, rfl, fun _ => nofun, ends⟩
    have later : ∃ last ∈ strokes, last.Ends := by
      obtain ⟨last, mem, is⟩ := some
      rcases List.mem_cons.1 mem with rfl | mem
      · exact absurd is ends
      · exact ⟨last, mem, is⟩
    obtain ⟨keys, last, more, rfl, notEnd, is⟩ := ih later
    cases s with
    | failed => exact absurd trivial ends
    | key u => exact ⟨u :: keys, last, more, rfl, List.forall_mem_cons.2 ⟨ends, notEnd⟩, is⟩

/-- Without such a stroke the loop waits for ever. -/
theorem inputTurn_spins {x : Editing size} (none : ∀ stroke ∈ x.strokes, ¬ stroke.Ends) : Loop.Spins inputTurn x := by
  apply Loop.spins_of_inv fun x => ∀ stroke ∈ x.strokes, ¬ stroke.Ends
  · intro x none
    cases strokes : x.strokes with
    | nil =>
      refine ⟨x, ?_, none⟩
      rw [inputTurn, strokes]
    | cons s rest =>
      rw [strokes] at none
      obtain ⟨first, others⟩ := List.forall_mem_cons.1 none
      cases s with
      | failed => exact absurd trivial first
      | key u =>
        have more : ¬ EndsLine u := first
        unfold inputTurn
        rw [strokes]
        simp only [if_neg more]
        split
        · refine ⟨_, rfl, ?_⟩
          split <;> exact others
        · split
          · refine ⟨_, rfl, ?_⟩
            split <;> exact others
          · exact ⟨_, rfl, others⟩
  · exact none

/-- **The lines that can be entered** are those of characters that are shown and fit into the array: no
strokes make `Input` return another line, and each of them can be typed. -/
theorem entered_iff {inStr : CString.Field (0 : UInt16) size} (some : 0 < size) (inside : inStr.overflow = false)
    (prompt line : Str16) :
    (∃ strokes r, Loop.Leaves inputTurn (inputStart prompt inStr strokes) r ∧ (inputEnd r).inStr.str = line) ↔
      Typeable (blank ≤ ·) (size - 1) line := by
  let e : Entry := ⟨⟨[], []⟩, [], prompt, inStr.units, False⟩
  have shows : e.row.Shows blank e.front := ⟨rfl, fun _ => nofun⟩
  constructor
  · rintro ⟨strokes, r, leaves, rfl⟩
    have returns : ∃ last ∈ strokes, last.Ends := by
      by_contra none
      apply Loop.spins_iff.1 (inputTurn_spins ?_) r leaves
      exact fun stroke mem ends => none ⟨stroke, mem, ends⟩
    obtain ⟨keys, last, more, rfl, notEnd, ends⟩ := strokes_split returns
    obtain ⟨r', leaves', -, edits⟩ := input_leaves inside shows rfl notEnd ends more False.elim
    rw [leaves.unique leaves', inputEnd_str edits some]
    exact edits.clean
  · intro h
    have shown : ∀ u ∈ line, u ≠ backspace ∧ ¬ EndsLine u := by
      intro u mem
      have large := h.shown u mem
      refine ⟨?_, ?_⟩
      · rintro rfl
        exact absurd large (by decide)
      · rintro (rfl | rfl)
        · exact absurd large (by decide)
        · exact absurd large (by decide)
    have enter : (Stroke.key 13).Ends := by decide
    obtain ⟨r, leaves, -, edits⟩ :=
      input_leaves inside shows rfl (fun u mem => (shown u mem).2) enter [] False.elim
    refine ⟨_, r, leaves, (inputEnd_str edits some).trans ?_⟩
    exact foldl_edit (fun u mem => (shown u mem).1) [] h

/-- 256 characters are too many for such an array. -/
theorem long_line_refused :
    ¬ ∃ strokes r, Loop.Leaves inputTurn (inputStart [36] untidy strokes) r ∧
      (inputEnd r).inStr.str = List.replicate 256 97 := by
  intro entered
  have fits := (entered_iff (by decide) rfl [36] _).1 entered
  exact absurd (List.length_replicate ▸ fits.room) (by decide)

end Lavoro.Efi
