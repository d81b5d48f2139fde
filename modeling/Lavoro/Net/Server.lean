import Lavoro.Console.Print
import Lavoro.Net.Conversation

/-!
# A server and its client (`TCPAcceptConnection`)

`TCPAcceptConnection` prints what arrives on a connection until it ends. While its client
(`Conversation`) writes, flushes and reads in any order, nothing is printed; then the loop prints
what the client has written, in whatever segments it arrives.
-/

namespace Lavoro.Net
open Lib Reader Console

/-- What a reader delivers behind its first `Next()` is what `Next()` and `Current()` show. -/
theorem yields_delivers {σ : Type} {readBuffer : ReadBuffer σ} {fetch : σ → List UInt8 × σ}
    {Holds : σ → List UInt8 → Prop} (refills : Refills readBuffer fetch) (supply : Cursor.Supplies fetch Holds)
    {l : List UInt8} : ∀ {p : LReader × σ}, Delivers Holds (next readBuffer p).2 l → atEnd p.1 = false →
      Yields readBuffer p l := by
  induction l with
  | nil =>
    intro p h more
    exact (atEnd_delivers h).2 rfl
  | cons byte l ih =>
    intro p h more
    refine ⟨more, current_delivers_cons readBuffer h, ?_⟩
    exact ih (next_delivers refills supply h) (atEnd_delivers_cons h)

namespace Conversation

variable {c : Conversation}

/-- Nothing is taken from a reader that has not been started. -/
def Untouched (c : Conversation) (s : Side) : Prop := view (c.peer s).reader = .fresh → c.taken s = []

theorem untouched_act (flow : ∀ s, Flow Eq c s) (h : ∀ s, c.Untouched s) (a : Act) (allowed : c.Allowed a) (s : Side) :
    (c.act a).Untouched s := by
  have anything : ∀ i : Incoming, True → True := fun _ h => h
  intro fresh
  by_cases own : s = a.side
  · subst own
    cases a with
    | send t call answers =>
      simp only [act, sent, Act.side, Function.update_self] at fresh ⊢
      exact h t fresh
    | start t replies =>
      have passing := (flow t.other).passing (fun _ _ => True) replies trivial
      obtain ⟨-, started⟩ := start_passing anything passing allowed
      simp only [act, got, Act.side, Function.update_self] at fresh
      exact absurd fresh started
    | read t n replies =>
      have passing := (flow t.other).passing (fun _ _ => True) replies trivial
      obtain ⟨-, started⟩ := read_passing Incoming.refills Incoming.drains anything n passing allowed
      simp only [act, got, Act.side, Function.update_self] at fresh
      exact absurd fresh started
  · have before := h s
    rw [act_other c own] at fresh
    cases a with
    | send t call answers => exact before fresh
    | start t replies => exact (Function.update_of_ne own _ _).trans (before fresh)
    | read t n replies => exact (Function.update_of_ne own _ _).trans (before fresh)

theorem untouched_reach (h : Reach Step (fun c a => c.Allowed a ∧ Prompt a) Begins c) (s : Side) : c.Untouched s := by
  have both : c.Ready ∧ ∀ s, c.Untouched s := by
    refine h.invariant (fun c => c.Ready ∧ ∀ s, c.Untouched s) (fun c start => ⟨start.ready, fun s _ => start.taken s⟩) ?_
    rintro c a c' ⟨ready, untouched⟩ ⟨allowed, prompt⟩ rfl
    refine ⟨⟨whole_act ready.1 a allowed prompt.accepted, settled_act ready a allowed prompt⟩, ?_⟩
    exact untouched_act (fun s => (ready.1 s).1) untouched a allowed
  exact both.2 s

/-- **A server prints what its client has written**, without a NUL in it: after any run in which every call
of the firmware succeeds, the client having flushed, and the server's reader not having been used, the
loop of `TCPAcceptConnection` ends, if segments enough arrive, and has printed all of it. -/
theorem server_prints (h : Reach Step (fun c a => c.Allowed a ∧ Prompt a) Begins c) (s : Side)
    (flushed : (c.peer s).writer.pending = []) (fresh : view (c.peer s.other).reader = .fresh)
    (clean : 0 ∉ c.written s) {szBuffer : CString.Field (0 : UInt16) maxBufferSize}
    (inside : szBuffer.overflow = false) (arrivals : List Segment) (enough : (c.wire s).length ≤ arrivals.length) :
    Prints Incoming.readBuffer
      (.start szBuffer, (c.peer s.other).reader, c.incoming s.other (arrivals.map Segment.reply))
      (unitsOf (c.written s)) := by
  obtain ⟨whole, settled⟩ := ready_reach h
  obtain ⟨flow, -⟩ := whole s
  have more : atEnd (c.peer s.other).reader = false := by
    rw [atEnd_eq_isEnded, fresh]
    rfl
  obtain ⟨socket, zero⟩ := settled s.other more
  -- all that was written is on the way
  have waiting : c.wire s = c.written s := by
    have passed := flow.passed
    have sent := flow.sent
    rw [fresh, untouched_reach h s.other fresh] at passed
    rw [flushed, List.append_nil] at sent
    exact (show c.wire s = (c.peer s).out.received from passed).trans sent
  have wire : (c.incoming s.other (arrivals.map Segment.reply)).wire = c.written s := by
    show c.wire s.other.other = c.written s
    rw [Side.other_other]
    exact waiting
  have flowing : (c.incoming s.other (arrivals.map Segment.reply)).Flowing := by
    refine ⟨socket, zero, arrivals, rfl, ?_⟩
    rwa [wire, ← waiting]
  have delivers := delivers_fresh Incoming.refills Incoming.supplies flow.plain fresh ⟨flowing, wire⟩
  have set : (0 : UInt16) ∉ unitsOf (c.written s) := fun nul => clean ((nul_mem_unitsOf _).1 nul)
  have pages : CString.paged 0 (maxBufferSize - 1) [] (unitsOf (c.written s)) = unitsOf (c.written s) :=
    CString.paged_clean set (by decide)
  rw [← pages]
  exact prints_yielded (yields_delivers Incoming.refills Incoming.supplies delivers more)
    (Printer.holds_start inside)

/-- The request is printed as it was written. -/
theorem request_printed :
    Prints Incoming.readBuffer
      (.start freshLine, (request.peer .far).reader, request.incoming .far ([oneByte, oneByte].map Segment.reply))
      [104, 105] :=
  server_prints request_reached .near rfl rfl (by decide) rfl [oneByte, oneByte] (by decide)

end Conversation

end Lavoro.Net
