/-!
# Reading a source through a buffer

A source hands out its elements a chunk at a time (`fetch`); an empty chunk is its
end. A `Cursor` is what a client of the buffer sees: nothing fetched yet, the end,
or an element with the rest of its chunk behind it. `advance` steps over one element
and fetches when the chunk is used up. `Rep Holds` relates a cursor over a source to
the sequence still to be delivered, whatever the chunks are; `advance_rep` says that
one step delivers one element of it.
-/

namespace Lavoro.Lib

variable {σ α : Type}

/-- Where the client of a buffered source stands. -/
inductive Cursor (α : Type) where
  | fresh
  | ended
  | here (a : α) (more : List α)
  deriving Repr, DecidableEq

namespace Cursor

/-- The cursor on a chunk just fetched. -/
def refill : List α → Cursor α
  | [] => .ended
  | a :: more => .here a more

/-- Step over one element; `fetch` is called when none is left in the chunk. -/
def advance (fetch : σ → List α × σ) : Cursor α × σ → Cursor α × σ
  | (.ended, s) => (.ended, s)
  | (.here _ (b :: more), s) => (.here b more, s)
  | (.here _ [], s) => (refill (fetch s).1, (fetch s).2)
  | (.fresh, s) => (refill (fetch s).1, (fetch s).2)

def head? : Cursor α → Option α
  | .here a _ => some a
  | _ => none

theorem refill_ne_fresh (xs : List α) : refill xs ≠ .fresh := by
  cases xs <;> exact nofun

theorem advance_ne_fresh (fetch : σ → List α × σ) (p : Cursor α × σ) :
    (advance fetch p).1 ≠ .fresh := by
  match p with
  | (.ended, _) => exact nofun
  | (.here _ (_ :: _), _) => exact nofun
  | (.here _ [], _) => exact refill_ne_fresh _
  | (.fresh, _) => exact refill_ne_fresh _

/-- `Holds s l`: the source `s` still has `l` to hand out, which `fetch` delivers from
the front, an empty chunk only when there is nothing left. -/
structure Supplies (fetch : σ → List α × σ) (Holds : σ → List α → Prop) : Prop where
  chunk : ∀ s l, Holds s l → (fetch s).1 ≠ [] → ∃ l', l = (fetch s).1 ++ l' ∧ Holds (fetch s).2 l'
  last : ∀ s l, Holds s l → (fetch s).1 = [] → l = []

/-- The cursor and its source together still have `l` to deliver. -/
def Rep (Holds : σ → List α → Prop) : Cursor α × σ → List α → Prop
  | (.fresh, s), l => Holds s l
  | (.ended, _), l => l = []
  | (.here a more, s), l => ∃ l', l = a :: more ++ l' ∧ Holds s l'

variable {fetch : σ → List α × σ} {Holds : σ → List α → Prop} {p : Cursor α × σ} {l : List α}

theorem refill_rep (supply : Supplies fetch Holds) {s : σ} (h : Holds s l) :
    Rep Holds (refill (fetch s).1, (fetch s).2) l := by
  cases hf : (fetch s).1 with
  | nil => exact supply.last s _ h hf
  | cons a more =>
    obtain ⟨l', eq, rest⟩ := supply.chunk s _ h (by simp [hf])
    rw [hf] at eq
    exact ⟨l', eq, rest⟩

/-- The first step only fetches. -/
theorem advance_fresh (supply : Supplies fetch Holds) {s : σ} (h : Holds s l) :
    Rep Holds (advance fetch (.fresh, s)) l :=
  refill_rep supply h

/-- **One step delivers one element.** -/
theorem advance_rep (supply : Supplies fetch Holds) (started : p.1 ≠ .fresh) (h : Rep Holds p l) :
    Rep Holds (advance fetch p) l.tail := by
  match p with
  | (.fresh, _) => exact absurd rfl started
  | (.ended, _) =>
    obtain rfl : l = [] := h
    rfl
  | (.here a (b :: more), s) =>
    obtain ⟨l', rfl, rest⟩ := h
    exact ⟨l', rfl, rest⟩
  | (.here a [], s) =>
    obtain ⟨l', rfl, rest⟩ := h
    exact refill_rep supply rest

/-- A started cursor shows the first element still to be delivered. -/
theorem head?_of_rep (started : p.1 ≠ .fresh) (h : Rep Holds p l) : p.1.head? = l.head? := by
  match p with
  | (.fresh, _) => exact absurd rfl started
  | (.ended, _) =>
    obtain rfl : l = [] := h
    rfl
  | (.here a more, s) =>
    obtain ⟨l', rfl, _⟩ := h
    rfl

/-- A started cursor is at the end exactly when everything is delivered. -/
theorem ended_iff_of_rep (started : p.1 ≠ .fresh) (h : Rep Holds p l) : p.1 = .ended ↔ l = [] := by
  match p with
  | (.fresh, _) => exact absurd rfl started
  | (.ended, _) =>
    obtain rfl : l = [] := h
    exact iff_of_true rfl rfl
  | (.here a more, s) =>
    obtain ⟨l', rfl, _⟩ := h
    exact iff_of_false nofun (by simp)

end Cursor

end Lavoro.Lib
