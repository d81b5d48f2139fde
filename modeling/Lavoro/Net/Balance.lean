import Lavoro.Lib.Reach
import Lavoro.Net.Socket

/-!
# The counter of pending completions

`TCPEventStatus` is 0 between two calls exactly as long as every call takes back what it
has added. The early returns behind `TCPCompletionTokenEventStart()` do not: a request
that fails or reports the end of the connection, a `Poll` that fails while the completion
is pending, and, in `Receive`, an event that cannot be created.
-/

namespace Lavoro.Net
open Lib

/-- No `Poll` fails while the completion is pending, of a call that starts with the counter
at 0; the failing of the very `Poll` in which the callback runs does no harm. -/
def Script.PollsWell (env : Script) : Prop :=
  ∀ n, env.StopsFirst 1 n → ¬ env.Due 1 n → env.callback = some (n + 1)

/-- A request that is accepted and polled for without a failure. -/
structure Script.Accepted (env : Script) : Prop where
  request : efiError env.request = false
  polls : env.PollsWell

section Wait

variable {ρ : Type} {env : Script} {eff : Effects ρ} {buffers : ρ}

/-- The loop of a call that starts with the counter at 0 ends, and leaves it at 0 exactly
when no `Poll` failed too early. -/
theorem wait_ends (env : Script) (eff : Effects ρ) (buffers : ρ) :
    ∃ x, Loop.Leaves (pollTurn env eff) (requested env eff 1 buffers) x ∧
      (x.2.tcpEventStatus = 0 ↔ env.PollsWell) := by
  obtain ⟨n, stops, -⟩ := stopsFirst_of_nonneg env (v := 1) (by decide)
  have only : ∀ k, env.StopsFirst 1 k → k = n := fun k first => stopsFirst_unique first stops
  rcases pollTurn_stops eff buffers stops with ⟨due, p, ends, after⟩ | ⟨pending, q, ends, after⟩
  · refine ⟨_, ⟨_, ends⟩, ?_⟩
    have zero : p.tcpEventStatus = 0 := by
      rw [after.tcp, finished_eq_zero_iff]
      exact due
    exact iff_of_true zero fun k first early => absurd (only k first ▸ due) early
  · refine ⟨_, ⟨_, ends⟩, ?_⟩
    have none : env.finishes n = 0 := by
      have small : ¬ (0 ≤ (1 : Int) ∧ (1 : Int) ≤ env.finishes n) := pending
      omega
    rw [after.tcp, none, finished_eq_zero_iff]
    constructor
    · intro zero k first _
      rw [only k first]
      by_cases now : env.callback = some (n + 1)
      · exact now
      · rw [if_neg now] at zero
        omega
    · intro well
      rw [if_pos (well n stops pending)]
      decide

end Wait

/-- `Connect` and `Transmit` from the creation of the event on. -/
theorem awaitRequest_ends (env : Script) :
    ∃ r, (∃ fuel, awaitRequest env fuel 0 = some r) ∧
      (r.2 = 0 ↔ efiError env.createEvent = true ∨ env.Accepted) := by
  by_cases created : efiError env.createEvent = true
  · exact ⟨(false, 0), ⟨0, by rw [awaitRequest, if_pos created]⟩, iff_of_true rfl (.inl created)⟩
  by_cases refused : efiError env.request = true
  · refine ⟨(false, 1), ⟨0, by rw [awaitRequest, if_neg created, if_pos refused]; rfl⟩, ?_⟩
    apply iff_of_false (by decide)
    rintro (bad | accepted)
    · exact created bad
    · rw [accepted.request] at refused
      cases refused
  · obtain ⟨x, ⟨fuel, run⟩, balanced⟩ := wait_ends env noEffects ()
    refine ⟨_, ⟨fuel, by rw [awaitRequest, if_neg created, if_neg refused]; exact congrArg _ run⟩, ?_⟩
    show x.2.tcpEventStatus = 0 ↔ _
    rw [balanced]
    constructor
    · exact fun well => .inr ⟨Bool.eq_false_iff.2 refused, well⟩
    · rintro (bad | accepted)
      · exact absurd bad created
      · exact accepted.polls

/-- `Receive` on an open socket. -/
theorem receive_ends {s : LSocket} (env : Script) (initialSize : Nat) (child : s.child = true)
    (opened : s.closed = false) :
    ∃ r, (∃ fuel, receive s env initialSize fuel 0 = some r) ∧
      (r.tcpEventStatus = 0 ↔ efiError env.createEvent = false ∧ env.Accepted) := by
  unfold receive
  simp only [child, opened, Bool.not_true, Bool.or_false, Bool.false_eq_true, if_false]
  by_cases created : efiError env.createEvent = true
  · simp only [if_pos created]
    exact ⟨_, ⟨0, rfl⟩, iff_of_false (by decide : tokenEventStart 0 ≠ 0) fun h => by
      rw [created] at h
      cases h.1⟩
  simp only [if_neg created]
  by_cases refused : efiError env.request = true
  · have notAccepted : ¬ (efiError env.createEvent = false ∧ env.Accepted) := by
      rintro ⟨-, accepted⟩
      rw [accepted.request] at refused
      cases refused
    by_cases fin : env.request = efiConnectionFin
    · simp only [if_pos fin]
      exact ⟨_, ⟨0, rfl⟩, iff_of_false (by decide : tokenEventStart 0 ≠ 0) notAccepted⟩
    · simp only [if_neg fin, if_pos refused]
      exact ⟨_, ⟨0, rfl⟩, iff_of_false (by decide : tokenEventStart 0 ≠ 0) notAccepted⟩
  · have notFin : env.request ≠ efiConnectionFin := by
      intro fin
      rw [fin] at refused
      exact refused rfl
    simp only [if_neg notFin, if_neg refused]
    obtain ⟨x, ⟨fuel, run⟩, balanced⟩ := wait_ends env (receiveEffects initialSize)
      ⟨asUint32 initialSize, false, []⟩
    refine ⟨received env x, ⟨fuel, congrArg (Option.map (received env)) run⟩, ?_⟩
    rw [received_tcp, balanced]
    exact ⟨fun well => ⟨Bool.eq_false_iff.2 created, Bool.eq_false_iff.2 refused, well⟩,
      fun h => h.2.polls⟩

/-! ## Runs of calls -/

/-- The counter, and the sockets by number. -/
structure Network where
  tcpEventStatus : Int
  sockets : Nat → LSocket

/-- A call on a socket, with what the firmware does in it. -/
inductive Call where
  | connect (socket : Nat) (configured : Bool) (env : Script)
  | transmit (socket : Nat) (env : Script)
  | receive (socket : Nat) (env : Script) (initialSize : Nat)

/-- A call, with at most `fuel` turns of its loop. -/
def perform (fuel : Nat) (s : Network) : Call → Option Network
  | .connect i configured env =>
    (connect (s.sockets i) configured env fuel s.tcpEventStatus).map fun r =>
      { s with tcpEventStatus := r.2 }
  | .transmit i env =>
    (transmit (s.sockets i) env fuel s.tcpEventStatus).map fun r => { s with tcpEventStatus := r.2 }
  | .receive i env initialSize =>
    (receive (s.sockets i) env initialSize fuel s.tcpEventStatus).map fun r =>
      { tcpEventStatus := r.tcpEventStatus
        sockets := fun j => if j = i then { s.sockets i with closed := r.closed } else s.sockets j }

/-- A call from its beginning to its end. -/
def Step (s : Network) (a : Call) (t : Network) : Prop := ∃ fuel, perform fuel s a = some t

/-- No call has been made yet. -/
def Idle (s : Network) : Prop := s.tcpEventStatus = 0

/-- The calls that take back what they add to the counter. -/
def Balanced (s : Network) : Call → Prop
  | .connect i configured env =>
    (s.sockets i).child = true → configured = true → efiError env.createEvent = true ∨ env.Accepted
  | .transmit i env => (s.sockets i).child = true → efiError env.createEvent = true ∨ env.Accepted
  | .receive i env _ =>
    (s.sockets i).child = true → (s.sockets i).closed = false →
      efiError env.createEvent = false ∧ env.Accepted

section Fuel

variable {env : Script} {fuel fuel' : Nat} {c : Int}

theorem awaitRequest_mono {r : Bool × Int} (le : fuel ≤ fuel') (h : awaitRequest env fuel c = some r) :
    awaitRequest env fuel' c = some r := by
  revert h
  unfold awaitRequest
  split_ifs
  · exact id
  · exact id
  · exact Loop.run_map_mono le

theorem receive_mono {s : LSocket} {initialSize : Nat} {r : Received} (le : fuel ≤ fuel')
    (h : receive s env initialSize fuel c = some r) : receive s env initialSize fuel' c = some r := by
  revert h
  unfold receive
  simp only
  split_ifs
  · exact id
  · exact id
  · exact id
  · exact id
  · exact Loop.run_map_mono le

/-- More turns than a call needs change nothing. -/
theorem perform_mono {s t : Network} {a : Call} (le : fuel ≤ fuel') (h : perform fuel s a = some t) :
    perform fuel' s a = some t := by
  cases a with
  | connect i configured env =>
    obtain ⟨r, ends, rfl⟩ := Option.map_eq_some_iff.1 h
    have ends' : connect (s.sockets i) configured env fuel' s.tcpEventStatus = some r := by
      revert ends
      unfold connect
      split_ifs
      · exact id
      · exact id
      · exact awaitRequest_mono le
    exact congrArg (Option.map _) ends'
  | transmit i env =>
    obtain ⟨r, ends, rfl⟩ := Option.map_eq_some_iff.1 h
    have ends' : transmit (s.sockets i) env fuel' s.tcpEventStatus = some r := by
      revert ends
      unfold transmit
      split_ifs
      · exact id
      · exact awaitRequest_mono le
    exact congrArg (Option.map _) ends'
  | receive i env initialSize =>
    obtain ⟨r, ends, rfl⟩ := Option.map_eq_some_iff.1 h
    exact congrArg (Option.map _) (receive_mono le ends)

end Fuel

/-- A call has one end. -/
theorem Step.unique {s t t' : Network} {a : Call} (h : Step s a t) (h' : Step s a t') : t = t' := by
  obtain ⟨fuel, run⟩ := h
  obtain ⟨fuel', run'⟩ := h'
  have most := perform_mono (Nat.le_max_left fuel fuel') run
  have most' := perform_mono (Nat.le_max_right fuel fuel') run'
  exact Option.some.inj (most.symm.trans most')

/-- **A call made with the counter at 0** ends, and leaves it at 0 exactly if it is balanced. -/
theorem step_ends {s : Network} (zero : s.tcpEventStatus = 0) (a : Call) :
    ∃ t, Step s a t ∧ (t.tcpEventStatus = 0 ↔ Balanced s a) := by
  cases a with
  | connect i configured env =>
    unfold Step perform connect Balanced
    simp only [zero]
    cases child : (s.sockets i).child with
    | false => exact ⟨_, ⟨0, rfl⟩, iff_of_true rfl nofun⟩
    | true =>
      cases configured with
      | false => exact ⟨_, ⟨0, rfl⟩, iff_of_true rfl fun _ => nofun⟩
      | true =>
        obtain ⟨r, ⟨fuel, ends⟩, balanced⟩ := awaitRequest_ends env
        refine ⟨_, ⟨fuel, congrArg (Option.map _) ends⟩, ?_⟩
        show r.2 = 0 ↔ _
        rw [balanced]
        simp
  | transmit i env =>
    unfold Step perform transmit Balanced
    simp only [zero]
    cases child : (s.sockets i).child with
    | false => exact ⟨_, ⟨0, rfl⟩, iff_of_true rfl nofun⟩
    | true =>
      obtain ⟨r, ⟨fuel, ends⟩, balanced⟩ := awaitRequest_ends env
      refine ⟨_, ⟨fuel, congrArg (Option.map _) ends⟩, ?_⟩
      show r.2 = 0 ↔ _
      rw [balanced]
      simp
  | receive i env initialSize =>
    unfold Step perform Balanced
    simp only [zero]
    by_cases opened : (s.sockets i).child = true ∧ (s.sockets i).closed = false
    · obtain ⟨r, ⟨fuel, ends⟩, balanced⟩ := receive_ends env initialSize opened.1 opened.2
      refine ⟨_, ⟨fuel, congrArg (Option.map _) ends⟩, ?_⟩
      show r.tcpEventStatus = 0 ↔ _
      rw [balanced]
      simp [opened]
    · have shut := shut_of_not_open opened
      have ends : receive (s.sockets i) env initialSize 0 0 =
          some ⟨false, 0, [], 0, (s.sockets i).closed⟩ := by
        rw [receive, if_pos shut]
      refine ⟨_, ⟨0, congrArg (Option.map _) ends⟩, iff_of_true rfl fun child open' => ?_⟩
      exact absurd ⟨child, open'⟩ opened

/-- **The counter is balanced** in every run of balanced calls: between two calls it is 0;
and in each state reached every call ends, and leaves it at 0 exactly if it is balanced. -/
theorem counter_balanced {s : Network} (h : Reach Step Balanced Idle s) :
    s.tcpEventStatus = 0 ∧ ∀ a, ∃ t, Step s a t ∧ (t.tcpEventStatus = 0 ↔ Balanced s a) := by
  have zero : Idle s := by
    refine h.invariant Idle (fun _ start => start) ?_
    intro s a t zero balanced taken
    obtain ⟨t', taken', exact'⟩ := step_ends zero a
    rw [taken.unique taken']
    exact exact'.2 balanced
  exact ⟨zero, step_ends zero⟩

/-- Calls whose `Poll` never fails poll well. -/
theorem pollsWell_of_polls {env : Script} (fine : ∀ n, efiError (env.poll n) = false) :
    env.PollsWell := by
  intro n stops pending
  have fails := stops.1.resolve_left pending
  rw [fine n] at fails
  cases fails

/-- The request is accepted and completed in the first `Poll`. -/
def prompt : Script where
  createEvent := efiSuccess
  request := efiSuccess
  completion := some ⟨1, efiSuccess, []⟩
  callback := some 1
  poll _ := efiSuccess
  closeEvent := efiSuccess

/-- The request is refused. -/
def refusedRequest : Script :=
  { prompt with request := efiDeviceError, completion := none, callback := none }

/-- Every socket is open. -/
def openSockets : Network := ⟨0, fun _ => ⟨true, false⟩⟩

theorem openSockets_idle : Idle openSockets := rfl

theorem prompt_accepted : prompt.Accepted where
  request := efiError_success
  polls := pollsWell_of_polls fun _ => efiError_success

theorem counter_after_transmit :
    ∃ s, perform 2 openSockets (.transmit 0 prompt) = some s ∧ s.tcpEventStatus = 0 := by
  have ends : (perform 2 openSockets (.transmit 0 prompt)).isSome = true := by decide
  obtain ⟨s, run⟩ := Option.isSome_iff_exists.1 ends
  have balanced : Balanced openSockets (.transmit 0 prompt) := fun _ => .inr prompt_accepted
  have reach : Reach Step Balanced Idle s := .next (.start openSockets_idle) balanced ⟨2, run⟩
  exact ⟨s, run, (counter_balanced reach).1⟩

/-- After a transmission that was refused the counter stays at 1. -/
theorem counter_leaks_on_refusal :
    ∃ s, Reach Step (fun _ _ => True) Idle s ∧ s.tcpEventStatus ≠ 0 := by
  have ends : (perform 0 openSockets (.transmit 0 refusedRequest)).map Network.tcpEventStatus = some 1 := by
    decide
  obtain ⟨s, run, one⟩ := Option.map_eq_some_iff.1 ends
  refine ⟨s, .next (.start openSockets_idle) trivial ⟨0, run⟩, ?_⟩
  rw [one]
  decide

end Lavoro.Net
