import Lavoro.Lib.Channel
import Lavoro.Stream.Deliver

/-!
# Reading what is still being sent

A reader whose source is a queue (`Lib.Channel`): what its client has taken, what is in its
buffer and what is in the queue make up what has been sent, also while more is sent. `Good` is
what else is known of the source, before and after the reader's end.
-/

namespace Lavoro.Reader
open Lib

variable {σ : Type} {readBuffer : ReadBuffer σ} {fetch : σ → List UInt8 × σ}
variable {queue : σ → List UInt8} {Good : Bool → σ → Prop} {total got : List UInt8} {p : LReader × σ}

/-- The client of the reader has taken `got` of `total`. -/
structure Passing (queue : σ → List UInt8) (Good : Bool → σ → Prop) (total got : List UInt8) (p : LReader × σ) :
    Prop where
  plain : Plain p.1
  passed : Cursor.Passed queue total got (view p.1, p.2)
  good : Good (atEnd p.1) p.2

theorem atEnd_eq_isEnded (r : LReader) : atEnd r = (view r).isEnded := by
  unfold view
  split
  · rename_i ended
    exact ended
  · rename_i more
    rw [Bool.eq_false_iff.2 more]
    cases unread r <;> rfl

/-- `Next()` passes the byte that `Current()` shows, if there is one. -/
theorem next_passing (refills : Refills readBuffer fetch) (drains : Cursor.Drains fetch queue)
    (flows : ∀ s, Good false s → Good (fetch s).1.isEmpty (fetch s).2) (h : Passing queue Good total got p) :
    Passing queue Good total (got ++ (view p.1).head?.toList) (next readBuffer p).2 ∧
      view (next readBuffer p).2.1 ≠ .fresh := by
  obtain ⟨step, plain⟩ := next_view_plain (s := p.2) refills h.plain
  have passed := Cursor.advance_passed drains h.passed
  have before := h.good
  rw [atEnd_eq_isEnded] at before
  have good := Cursor.advance_good (p := (view p.1, p.2)) flows before
  have started := Cursor.advance_ne_fresh fetch (view p.1, p.2)
  rw [← step] at passed good started
  rw [← atEnd_eq_isEnded] at good
  exact ⟨⟨plain, passed, good⟩, started⟩

/-- A started reader that is not at its end shows a byte. -/
theorem shown_of_started (readBuffer : ReadBuffer σ) (plain : Plain p.1) (started : view p.1 ≠ .fresh) (more : atEnd p.1 = false) :
    ∃ b, (view p.1).head? = some b ∧ current readBuffer p = ((b.toNat : Int), p) := by
  have shown := @current_view σ readBuffer p.1 p.2 plain started
  cases hv : view p.1 with
  | fresh => exact absurd hv started
  | ended => exact absurd (atEnd_iff_view.2 hv) (Bool.eq_false_iff.1 more)
  | here b rest =>
    rw [hv] at shown
    exact ⟨b, rfl, shown⟩

/-- **`Read` takes what it returns.** -/
theorem read_passing (refills : Refills readBuffer fetch) (drains : Cursor.Drains fetch queue)
    (flows : ∀ s, Good false s → Good (fetch s).1.isEmpty (fetch s).2) (n : Nat) :
    ∀ {p : LReader × σ} {got : List UInt8}, Passing queue Good total got p → view p.1 ≠ .fresh →
      Passing queue Good total (got ++ (read readBuffer n p).1) (read readBuffer n p).2 ∧
        view (read readBuffer n p).2.1 ≠ .fresh := by
  induction n with
  | zero =>
    intro p got h started
    rw [read, List.append_nil]
    exact ⟨h, started⟩
  | succ n ih =>
    intro p got h started
    cases more : atEnd p.1 with
    | true =>
      rw [read, if_pos more, List.append_nil]
      exact ⟨h, started⟩
    | false =>
      obtain ⟨b, head, shown⟩ := shown_of_started readBuffer h.plain started more
      obtain ⟨moved, started'⟩ := next_passing refills drains flows h
      have later := ih moved started'
      rw [head, List.append_assoc] at later
      simp only [read, more, shown, Bool.false_eq_true, if_false, toByte_ofNat]
      exact later

/-- What has been taken, what the reader has fetched and what waits, as long as it is not at its end. -/
theorem Passing.complete (h : Passing queue Good total got p) (more : atEnd p.1 = false) :
    got ++ (unread p.1 ++ queue p.2) = total := by
  have notEnded : view p.1 ≠ .ended := by
    rw [ne_eq, ← atEnd_iff_view, more]
    exact Bool.false_ne_true
  have complete := h.passed.complete notEnded
  have same : (view p.1).fetched = unread p.1 := by
    unfold view
    rw [if_neg (Bool.eq_false_iff.1 more)]
    cases unread p.1 <;> rfl
  rwa [same] at complete

/-- **A reader in the midst of its source delivers all the rest**, if the source supplies what is in
its queue. -/
theorem Passing.delivers (h : Passing queue Good total got p) (started : view p.1 ≠ .fresh)
    (more : atEnd p.1 = false) (Holds : σ → List UInt8 → Prop) (holds : Holds p.2 (queue p.2)) :
    ∃ rest, Delivers Holds p rest ∧ got ++ rest = total := by
  refine ⟨(view p.1).fetched ++ queue p.2, ⟨h.plain, started, ?_⟩, ?_⟩
  · cases hv : view p.1 with
    | fresh => exact absurd hv started
    | ended => exact absurd (atEnd_iff_view.2 hv) (Bool.eq_false_iff.1 more)
    | here a rest => exact ⟨queue p.2, rfl, holds⟩
  · refine h.passed.complete ?_
    rw [ne_eq, ← atEnd_iff_view, more]
    exact Bool.false_ne_true

end Lavoro.Reader
