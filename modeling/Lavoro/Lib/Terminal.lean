/-!
# A line that is edited at its end

What is typed is added to the end of a line of at most `room` elements, and `back` takes the last
one off (`edit`). The row of a terminal (`Row`) has a cursor; `back` moves it to the left, and
anything else is shown at the cursor and moves it to the right, on a row that is as wide as it has to be. An element is
taken off the row by `back`, `blank`, `back`.
-/

namespace Lavoro.Lib

variable {α : Type} [DecidableEq α] {back blank u c : α} {room : Nat}

section Edit

variable {shown : α → Prop} [DecidablePred shown] {line : List α}

/-- What an element that is typed makes of the line; only those that are `shown` are added. -/
def edit (back : α) (shown : α → Prop) [DecidablePred shown] (room : Nat) (line : List α) (u : α) : List α :=
  if u = back then line.dropLast
  else if shown u ∧ line.length < room then line ++ [u]
  else line

/-- A line that can be typed. -/
structure Typeable (shown : α → Prop) (room : Nat) (line : List α) : Prop where
  shown : ∀ u ∈ line, shown u
  room : line.length ≤ room

omit [DecidableEq α] [DecidablePred shown] in
theorem Typeable.nil : Typeable shown room [] := ⟨fun _ => nofun, Nat.zero_le _⟩

theorem Typeable.edit (h : Typeable shown room line) (back u : α) : Typeable shown room (edit back shown room line u) := by
  unfold Lib.edit
  split
  · refine ⟨fun c mem => h.shown c (List.dropLast_subset line mem), ?_⟩
    rw [List.length_dropLast]
    exact Nat.le_trans (Nat.sub_le _ _) h.room
  · split
    · rename_i more
      refine ⟨fun c mem => ?_, ?_⟩
      · rcases List.mem_append.1 mem with old | new
        · exact h.shown c old
        · rw [List.mem_singleton.1 new]
          exact more.1
      · rw [List.length_append]
        exact more.2
    · exact h

/-- **Such a line is what comes of typing it.** -/
theorem foldl_edit (notBack : ∀ u ∈ line, u ≠ back) (before : List α) (h : Typeable shown room (before ++ line)) :
    line.foldl (edit back shown room) before = before ++ line := by
  induction line generalizing before with
  | nil => exact (List.append_nil before).symm
  | cons u line ih =>
    obtain ⟨first, others⟩ := List.forall_mem_cons.1 notBack
    have mem : u ∈ before ++ u :: line := List.mem_append_right _ List.mem_cons_self
    have short := h.room
    rw [List.length_append, List.length_cons] at short
    have added : edit back shown room before u = before ++ [u] := by
      rw [edit, if_neg first, if_pos ⟨h.shown u mem, by omega⟩]
    rw [List.foldl_cons, added, ih others (before ++ [u]) (by rwa [List.append_assoc])]
    exact List.append_assoc _ _ _

end Edit

/-- The row of a terminal, before the cursor and from it on. It has no end: what is shown never comes to another row. -/
structure Row (α : Type) where
  before : List α
  behind : List α
  deriving Repr, DecidableEq

namespace Row

variable {r : Row α} {text : List α}

/-- An element is shown on the row. -/
def emit (back : α) (r : Row α) (u : α) : Row α :=
  if u = back then
    match r.before.getLast? with
    | none => r
    | some c => ⟨r.before.dropLast, c :: r.behind⟩
  else ⟨r.before ++ [u], r.behind.tail⟩

def emitAll (back : α) (r : Row α) (units : List α) : Row α := units.foldl (emit back) r

theorem emitAll_append (r : Row α) (units more : List α) :
    r.emitAll back (units ++ more) = (r.emitAll back units).emitAll back more :=
  List.foldl_append

/-- `text` is in front of the cursor, and nothing behind it. -/
structure Shows (blank : α) (text : List α) (r : Row α) : Prop where
  before : r.before = text
  behind : ∀ c ∈ r.behind, c = blank

theorem Shows.emit (h : r.Shows blank text) (other : u ≠ back) : (r.emit back u).Shows blank (text ++ [u]) := by
  rw [Row.emit, if_neg other]
  exact ⟨congrArg (· ++ [u]) h.before, fun c mem => h.behind c (List.mem_of_mem_tail mem)⟩

/-- `back` on an element. -/
theorem emit_back (h : r.before = text ++ [c]) : r.emit back back = ⟨text, c :: r.behind⟩ := by
  rw [Row.emit, if_pos rfl, h, List.getLast?_concat, List.dropLast_concat]

/-- **The last element is taken off the row.** -/
theorem Shows.erase (h : r.Shows blank (text ++ [c])) (other : blank ≠ back) :
    (r.emitAll back [back, blank, back]).Shows blank text := by
  have first : r.emit back back = ⟨text, c :: r.behind⟩ := emit_back h.before
  have second : (r.emit back back).emit back blank = ⟨text ++ [blank], r.behind⟩ := by
    rw [first, Row.emit, if_neg other]
    rfl
  have third : ((r.emit back back).emit back blank).emit back back = ⟨text, blank :: r.behind⟩ := by
    rw [second]
    exact emit_back rfl
  show (((r.emit back back).emit back blank).emit back back).Shows blank text
  rw [third]
  exact ⟨rfl, List.forall_mem_cons.2 ⟨rfl, h.behind⟩⟩

end Row

end Lavoro.Lib
