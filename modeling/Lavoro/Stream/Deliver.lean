import Lavoro.Lib.Loop
import Lavoro.Stream.View

/-!
# What a reader still delivers

`Delivers Holds p l`: the reader and source `p` have been started and will deliver
exactly `l`. The results below are the client's view of a buffered non-text reader:
`Next()` drops the first byte of `l`, `Current()` shows it, `Read` takes a slice off
the front, `AtEnd()` tests for nothing left, and none of them depends on the chunks.
-/

namespace Lavoro.Reader
open Lib

variable {σ : Type} {readBuffer : ReadBuffer σ} {fetch : σ → List UInt8 × σ}
variable {Holds : σ → List UInt8 → Prop} {p : LReader × σ} {l : List UInt8}

structure Delivers (Holds : σ → List UInt8 → Prop) (p : LReader × σ) (l : List UInt8) : Prop where
  plain : Plain p.1
  started : view p.1 ≠ .fresh
  rep : Cursor.Rep Holds (view p.1, p.2) l

/-- A source may change under the reader as long as it still holds what lies behind the
bytes in the buffer. -/
theorem Delivers.source {r : LReader} {s : σ} (s' : σ) (h : Delivers Holds (r, s) l)
    (same : ∀ l', l'.length < l.length → Holds s l' → Holds s' l') : Delivers Holds (r, s') l := by
  refine ⟨h.plain, h.started, ?_⟩
  have rep : Cursor.Rep Holds (view r, s) l := h.rep
  show Cursor.Rep Holds (view r, s') l
  cases hv : view r with
  | fresh => exact absurd hv h.started
  | ended =>
    rw [hv] at rep
    exact rep
  | here a more =>
    rw [hv] at rep
    obtain ⟨l', rfl, holds⟩ := rep
    refine ⟨l', rfl, same l' ?_ holds⟩
    simp only [List.length_append, List.length_cons]
    omega

/-- The first `Next()` positions a reader on the first byte. -/
theorem delivers_fresh (refills : Refills readBuffer fetch) (supply : Cursor.Supplies fetch Holds)
    {r : LReader} {s : σ} (plain : Plain r) (fresh : view r = .fresh) (h : Holds s l) :
    Delivers Holds (next readBuffer (r, s)).2 l := by
  have step := next_view (s := s) refills plain
  rw [fresh] at step
  refine ⟨next_plain refills plain, fun fresh => ?_, ?_⟩
  · exact Cursor.advance_ne_fresh fetch (.fresh, s) (by rw [← step]; exact fresh)
  · rw [step]
    exact Cursor.advance_fresh supply h

theorem delivers_construct (refills : Refills readBuffer fetch) (supply : Cursor.Supplies fetch Holds)
    (buffer : Buffer readerBufferSize) {s : σ} (h : Holds s l) :
    Delivers Holds (next readBuffer (construct buffer, s)).2 l :=
  delivers_fresh refills supply (plain_construct buffer) (view_construct buffer) h

/-- **`Next()` drops one byte.** -/
theorem next_delivers (refills : Refills readBuffer fetch) (supply : Cursor.Supplies fetch Holds)
    (h : Delivers Holds p l) : Delivers Holds (next readBuffer p).2 l.tail := by
  have step := next_view (s := p.2) refills h.plain
  refine ⟨next_plain refills h.plain, fun fresh => ?_, ?_⟩
  · exact Cursor.advance_ne_fresh fetch (view p.1, p.2) (by rw [← step]; exact fresh)
  · rw [step]
    exact Cursor.advance_rep supply h.started h.rep

/-- **`Current()` shows the first byte** and changes nothing. -/
theorem current_delivers (readBuffer : ReadBuffer σ) (h : Delivers Holds p l) :
    current readBuffer p =
      (match l.head? with
        | some b => (b.toNat : Int)
        | none => readerEof, p) := by
  rw [← Cursor.head?_of_rep h.started h.rep]
  exact current_view h.plain h.started

theorem current_delivers_cons (readBuffer : ReadBuffer σ) {b : UInt8}
    (h : Delivers Holds p (b :: l)) :
    current readBuffer p = ((b.toNat : Int), p) :=
  current_delivers readBuffer h

/-- **`AtEnd()` tests for nothing left.** -/
theorem atEnd_delivers (h : Delivers Holds p l) : atEnd p.1 = true ↔ l = [] := by
  rw [atEnd_iff_view]
  exact Cursor.ended_iff_of_rep h.started h.rep

theorem atEnd_delivers_cons {b : UInt8} (h : Delivers Holds p (b :: l)) : atEnd p.1 = false := by
  cases more : atEnd p.1 with
  | true => exact absurd ((atEnd_delivers h).1 more) (by simp)
  | false => rfl

/-- The first `Current()` positions the reader as well. -/
theorem current_fresh (refills : Refills readBuffer fetch) (supply : Cursor.Supplies fetch Holds)
    {r : LReader} {s : σ} {b : UInt8} (plain : Plain r) (more : atEnd r = false)
    (used : r.current = r.size) (h : Holds s (b :: l)) :
    ∃ p, current readBuffer (r, s) = ((b.toNat : Int), p) ∧ Delivers Holds p (b :: l) := by
  obtain ⟨seen, plain'⟩ := refill_spec (s := s) refills plain more used (fun p => (readerEof, p)) rfl
  have refilled : (current readBuffer (r, s)).2 = (nextStep readBuffer currentFilled (r, s)).2 :=
    current_used plain more used
  rw [← show currentFilled = currentStep fun p : LReader × σ => (readerEof, p) from rfl, ← refilled]
    at seen plain'
  have rep : Cursor.Rep Holds (Cursor.refill (fetch s).1, (fetch s).2) (b :: l) :=
    Cursor.refill_rep supply h
  rw [← seen] at rep
  have started : view (current readBuffer (r, s)).2.1 ≠ .fresh := by
    intro fresh
    exact Cursor.refill_ne_fresh _ ((congrArg Prod.fst seen).symm.trans fresh)
  have delivers : Delivers Holds (current readBuffer (r, s)).2 (b :: l) := ⟨plain', started, rep⟩
  have shown := current_delivers_cons readBuffer delivers
  refine ⟨_, Prod.ext ?_ rfl, delivers⟩
  have value : (current readBuffer (r, s)).1 =
      (((current readBuffer (r, s)).2.1.buffer.get (current readBuffer (r, s)).2.1.current).toNat : Int) := by
    simp [current, currentStep, plain.notText more, more, used]
  have going : atEnd (current readBuffer (r, s)).2.1 = false := atEnd_delivers_cons delivers
  have unused : (current readBuffer (r, s)).2.1.current ≠ (current readBuffer (r, s)).2.1.size :=
    fun same => started (view_fresh going same)
  have here := currentStep_filled (s := (current readBuffer (r, s)).2.2) (nextStep readBuffer currentFilled)
    plain' going unused
  rw [value]
  exact (congrArg Prod.fst here).symm.trans (congrArg Prod.fst shown)

/-- **`Read` takes a slice off the front**, short only at the end. -/
theorem read_delivers (refills : Refills readBuffer fetch) (supply : Cursor.Supplies fetch Holds)
    (n : Nat) : ∀ {p : LReader × σ} {l : List UInt8}, Delivers Holds p l →
      (read readBuffer n p).1 = l.take n ∧ Delivers Holds (read readBuffer n p).2 (l.drop n) := by
  induction n with
  | zero =>
    intro p l h
    exact ⟨rfl, h⟩
  | succ n ih =>
    intro p l h
    cases l with
    | nil =>
      have ended := (atEnd_delivers h).2 rfl
      simp only [read, ended, if_true]
      exact ⟨rfl, h⟩
    | cons b l =>
      have more := atEnd_delivers_cons h
      have shown := current_delivers_cons readBuffer h
      obtain ⟨bytes, rest⟩ := ih (next_delivers refills supply h)
      simp only [read, more, shown, Bool.false_eq_true, if_false, toByte_ofNat]
      exact ⟨congrArg (b :: ·) bytes, rest⟩

/-- One turn of `while (!AtEnd()) { use(Current()); Next(); }`, collecting what is used. -/
def useTurn (readBuffer : ReadBuffer σ) (st : List UInt8 × LReader × σ) :
    Turn (List UInt8 × LReader × σ) (List UInt8 × LReader × σ) :=
  if atEnd st.2.1 then .leave st
  else
    let c := current readBuffer st.2
    .again (st.1 ++ [toByte c.1], (next readBuffer c.2).2)

/-- One turn uses one byte. -/
theorem useTurn_again (refills : Refills readBuffer fetch) (supply : Cursor.Supplies fetch Holds)
    (taken : List UInt8) {b : UInt8} (h : Delivers Holds p (b :: l)) :
    ∃ q, useTurn readBuffer (taken, p) = .again (taken ++ [b], q) ∧ Delivers Holds q l := by
  refine ⟨_, ?_, next_delivers refills supply h⟩
  simp [useTurn, atEnd_delivers_cons h, current_delivers_cons readBuffer h]

/-- **The reading loop ends and uses exactly what the reader delivers.** -/
theorem useTurn_leaves (refills : Refills readBuffer fetch) (supply : Cursor.Supplies fetch Holds)
    (h : Delivers Holds p l) :
    ∃ q, Loop.Leaves (useTurn readBuffer) ([], p) (l, q) ∧ Delivers Holds q [] := by
  let Inv (taken left : List UInt8) (st : List UInt8 × LReader × σ) : Prop :=
    st.1 = taken ∧ Delivers Holds st.2 left
  have again : ∀ taken b left st, Inv taken (b :: left) st →
      ∃ st', useTurn readBuffer st = .again st' ∧ Inv (taken ++ [b]) left st' := by
    rintro _ b left ⟨taken, p⟩ ⟨rfl, more⟩
    obtain ⟨q, turn, moved⟩ := useTurn_again refills supply taken more
    exact ⟨_, turn, rfl, moved⟩
  have leave : ∀ taken st, Inv taken [] st →
      ∃ r, Loop.Leaves (useTurn readBuffer) st r ∧ Inv taken [] r := by
    rintro _ ⟨taken, p⟩ ⟨rfl, ended⟩
    have stop : useTurn readBuffer (taken, p) = .leave (taken, p) := by
      simp [useTurn, (atEnd_delivers ended).2 rfl]
    exact ⟨(taken, p), (Loop.leaves_leave stop).2 rfl, rfl, ended⟩
  obtain ⟨⟨used, q⟩, leaves, rfl, done⟩ :=
    Loop.leaves_of_consuming Inv (fun taken => Inv taken []) again leave l [] ([], p) ⟨rfl, h⟩
  exact ⟨q, leaves, done⟩

end Lavoro.Reader
