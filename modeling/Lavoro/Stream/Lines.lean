import Mathlib.Data.List.TakeWhile
import Lavoro.Stream.Requests

/-!
# Lines of a stream

`fileLines` are the lines of a content: what stands in front of each line feed and behind the last
one, less a carriage return at its end. `ReadLine` takes the next of them off what a reader has left,
also where nothing has been read of it yet.
-/

namespace Lavoro
open Lib

/-! ## Lines -/

/-- A content between its line feeds. -/
def linesOf : List UInt8 → List (List UInt8)
  | [] => []
  | b :: l =>
    if b = 10 then [] :: linesOf l
    else
      match linesOf l with
      | [] => [[b]]
      | line :: more => (b :: line) :: more

/-- The first line, and what is behind its line feed. -/
def firstLine (l : List UInt8) : List UInt8 := l.takeWhile (· ≠ 10)

def restOf (l : List UInt8) : List UInt8 := (l.dropWhile (· ≠ 10)).tail

/-- The units of a line, without a carriage return at its end. -/
def lineText (line : List UInt8) : Str16 :=
  if (line.map UInt8.toUInt16).getLast? = some 13 then (line.map UInt8.toUInt16).dropLast
  else line.map UInt8.toUInt16

/-- The lines of a file. -/
def fileLines (content : List UInt8) : List Str16 := (linesOf content).map lineText

theorem linesOf_cons {l : List UInt8} (some' : l ≠ []) :
    linesOf l = firstLine l :: linesOf (restOf l) := by
  induction l with
  | nil => exact absurd rfl some'
  | cons b l ih =>
    by_cases feed : b = 10
    · simp [linesOf, firstLine, restOf, feed]
    · cases l with
      | nil => simp [linesOf, firstLine, restOf, feed]
      | cons a l =>
        have first : firstLine (b :: a :: l) = b :: firstLine (a :: l) := by
          simp [firstLine, feed]
        have behind : restOf (b :: a :: l) = restOf (a :: l) := by
          simp [restOf, feed]
        rw [linesOf, if_neg feed, ih (List.cons_ne_nil a l), first, behind]

/-- What is behind a line is shorter. -/
theorem length_restOf_lt {l : List UInt8} (some' : l ≠ []) : (restOf l).length < l.length := by
  have long := List.length_pos_iff.2 some'
  have kept := List.length_dropWhile_le (· ≠ 10) l
  rw [restOf, List.length_tail]
  omega

theorem restOf_feed (l : List UInt8) : restOf (10 :: l) = l := by
  simp [restOf]

theorem restOf_byte {b : UInt8} (other : b ≠ 10) (l : List UInt8) : restOf (b :: l) = restOf l := by
  simp [restOf, other]

theorem firstLine_byte {b : UInt8} (other : b ≠ 10) (l : List UInt8) :
    firstLine (b :: l) = b :: firstLine l := by
  simp [firstLine, other]

/-! ## `ReadLine` -/

namespace Reader

variable {σ : Type} {readBuffer : ReadBuffer σ} {fetch : σ → List UInt8 × σ}
variable {Holds : σ → List UInt8 → Prop} {p : LReader × σ} {l : List UInt8}

/-- A reader with `l` left, of which perhaps nothing has been read; then it is not empty. -/
inductive Ready (Holds : σ → List UInt8 → Prop) (p : LReader × σ) (l : List UInt8) : Prop where
  | started (delivers : Delivers Holds p l)
  | fresh (plain : Plain p.1) (fresh : view p.1 = .fresh) (holds : Holds p.2 l) (some' : l ≠ [])

/-- The reader is at its end exactly where nothing is left. -/
theorem Ready.atEnd (h : Ready Holds p l) : atEnd p.1 = true ↔ l = [] := by
  cases h with
  | started delivers => exact atEnd_delivers delivers
  | fresh plain fresh holds some' => exact iff_of_false (by simp [(fresh_used plain fresh).1]) some'

/-- `Current()` on a reader that has something left. -/
theorem Ready.current {b : UInt8} (refills : Refills readBuffer fetch) (supply : Cursor.Supplies fetch Holds)
    (h : Ready Holds p (b :: l)) :
    ∃ q, current readBuffer p = ((b.toNat : Int), q) ∧ current readBuffer q = ((b.toNat : Int), q) ∧
      Delivers Holds q (b :: l) := by
  cases h with
  | started delivers =>
    have shown := current_delivers_cons readBuffer delivers
    exact ⟨p, shown, shown, delivers⟩
  | fresh plain fresh holds some' =>
    obtain ⟨more, used⟩ := fresh_used plain fresh
    obtain ⟨q, first, delivers⟩ := current_fresh refills supply plain more used holds
    exact ⟨q, first, current_delivers_cons readBuffer delivers, delivers⟩

/-- The loop of `ReadLine`, from behind `stored` units on. -/
theorem readLine_loop (refills : Refills readBuffer fetch) (supply : Cursor.Supplies fetch Holds)
    (stored : Str16) (h : Ready Holds p l) :
    ∃ turns q, Loop.after (readLineTurn readBuffer) turns (stored, p) =
        .leave (stored ++ (firstLine l).map UInt8.toUInt16, q) ∧ Delivers Holds q (restOf l) := by
  induction l generalizing stored p with
  | nil =>
    have stop : readLineTurn readBuffer (stored, p) = .leave (stored, p) := if_pos (h.atEnd.2 rfl)
    refine ⟨1, p, ?_, ?_⟩
    · rw [Loop.after_leave stop]
      simp [firstLine]
    · cases h with
      | started delivers => exact delivers
      | fresh plain fresh holds some' => exact absurd rfl some'
  | cons b l ih =>
    have more : ¬ Reader.atEnd p.1 = true := fun ended => List.cons_ne_nil b l (h.atEnd.1 ended)
    obtain ⟨q, first, again, delivers⟩ := h.current refills supply
    have moved := next_delivers refills supply delivers
    by_cases feed : b = 10
    · have stop : readLineTurn readBuffer (stored, p) = .leave (stored, (next readBuffer q).2) := by
        simp [readLineTurn, more, first, feed]
      refine ⟨1, (next readBuffer q).2, (Loop.after_leave stop).trans ?_, ?_⟩
      · simp [firstLine, feed]
      · rw [feed, restOf_feed]
        exact moved
    · have other : ¬ ((b.toNat : Int) = 10) := by
        intro eq
        exact feed (UInt8.toNat_inj.1 (Int.ofNat_inj.1 eq))
      have turn : readLineTurn readBuffer (stored, p) =
          .again (stored ++ [b.toUInt16], (next readBuffer q).2) := by
        simp only [readLineTurn, more, Bool.false_eq_true, if_false, first, other, again, toUnit_byte]
      obtain ⟨turns, q', left, ahead⟩ := ih (stored ++ [b.toUInt16]) (.started moved)
      refine ⟨turns + 1, q', ?_, ?_⟩
      · rw [Loop.after_again turn, left, firstLine_byte feed, List.append_assoc]
        rfl
      · rw [restOf_byte feed]
        exact ahead

/-- **`ReadLine` takes the first line off.** -/
theorem readLine_ready (refills : Refills readBuffer fetch) (supply : Cursor.Supplies fetch Holds)
    (h : Ready Holds p l) :
    ∃ turns q, readLine readBuffer turns p = .leave ((firstLine l).map UInt8.toUInt16, q) ∧
      Delivers Holds q (restOf l) :=
  readLine_loop refills supply [] h

end Reader

end Lavoro
