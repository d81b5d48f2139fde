import Lavoro.Net.Balance

/-!
# What `Receive` reports

`Receive` hands `FragmentLength` to its caller, which the stack sets when it stores bytes.
Where nothing was stored the field still holds the room that was offered, and the code
takes exactly that value for nothing stored when it gives up: also where the whole
room has been filled, and not at all where the request itself reports the end of the
connection.
-/

namespace Lavoro.Net
open Lib

/-- The bytes that the stack has stored by the moment `m`. -/
def Script.storedBy (env : Script) (m : Nat) : List UInt8 :=
  match env.completedBy m with
  | some k => if efiError k.status then [] else k.data
  | none => []

/-- The tries are used up before the loop ends: the counter was not 0 on entry, or the
callback does not run in the first 40000 polls. -/
def Script.Late (env : Script) (c : Int) : Prop :=
  0 < c ∨ (c = 0 ∧ ¬ env.Called socketMaxTries)

/-- What a receive returns is the number of bytes stored. -/
def Received.Exact (r : Received) : Prop :=
  r.databufLength = r.stored.length ∧ (r.result = true ↔ 0 < r.stored.length)

/-- The call returns, with the number of bytes stored. -/
def ReceivesExactly (s : LSocket) (env : Script) (initialSize : Nat) (c : Int) : Prop :=
  ∃ r, (∃ fuel, receive s env initialSize fuel c = some r) ∧ r.Exact

/-- The event is created and the request accepted. -/
structure Script.Asked (env : Script) : Prop where
  created : efiError env.createEvent = false
  accepted : efiError env.request = false

/-- How the loop of a receive may end after `n` polls so that the bytes stored are reported. -/
inductive EndsWell (env : Script) (initialSize : Nat) (c : Int) (n : Nat) : Prop where
  | pollFails (pending : ¬ env.Due (c + 1) n) (nothing : env.storedBy (n + 1) = [])
  | tokenFails (due : env.Due (c + 1) n) (failed : env.Failed n)
  | notCompleted (due : env.Due (c + 1) n) (never : env.completedBy n = none)
      (zero : efiError env.closeEvent = true ∨ asUint32 initialSize = 0 ∨
        env.Late c ∧ initialSize < 4294967296)
  | completed (due : env.Due (c + 1) n) {k : Completion} (done : env.completedBy n = some k)
      (succeeds : efiError k.status = false)
      (kept : k.data = [] ∨ efiError env.closeEvent = false ∧
        (k.data.length = initialSize → ¬ env.Late c))

/-- When a receive reports the bytes stored, the counter being `c` on entry. -/
inductive ReportsStored (s : LSocket) (env : Script) (initialSize : Nat) (c : Int) : Prop where
  | notOpen (shut : ¬ (s.child = true ∧ s.closed = false))
  | noEvent (failed : efiError env.createEvent = true)
  | noRoom (fin : env.request = efiConnectionFin) (none : asUint32 initialSize = 0)
  | refused (failed : efiError env.request = true) (notFin : env.request ≠ efiConnectionFin)
  | ends (asked : env.Asked) {n : Nat} (stops : env.StopsFirst (c + 1) n)
      (well : EndsWell env initialSize c n)

section Fragments

variable {env : Script} {initialSize n : Nat}

theorem asUint32_eq_iff (initialSize : Nat) : asUint32 initialSize = initialSize ↔ initialSize < 4294967296 := by
  unfold asUint32
  omega

/-- The buffers of a receive after `n` rounds. -/
def fragmentAt (env : Script) (initialSize n : Nat) : Fragment :=
  buffersAt env (receiveEffects initialSize) ⟨asUint32 initialSize, false, []⟩ n

theorem stored_complete (env : Script) (b : Fragment) (m : Nat) :
    (completeAt env (receiveEffects initialSize) m ⟨0, 0, 0, 0, b⟩).buffers.stored =
      match env.completionAt m with
      | some k => if efiError k.status then b.stored else k.data
      | none => b.stored := by
  unfold completeAt
  cases env.completionAt m with
  | none => rfl
  | some k => simp only [receiveEffects]; split <;> rfl

/-- A token is completed once. -/
theorem completedBy_none_of_completionAt {k : Completion} (now : env.completionAt (n + 1) = some k) :
    env.completedBy n = none := by
  unfold Script.completionAt at now
  unfold Script.completedBy
  cases hc : env.completion with
  | none => rfl
  | some k' =>
    rw [hc] at now
    simp only [Option.filter, decide_eq_true_eq] at now ⊢
    split at now
    · rename_i moment
      rw [if_neg (by omega)]
    · cases now

/-- The bytes stored when the `n`-th `Poll` returns. -/
theorem stored_afterPoll (env : Script) (initialSize n : Nat)
    (before : (fragmentAt env initialSize n).stored = env.storedBy n) :
    (completeAt env (receiveEffects initialSize) (n + 1)
      ⟨0, 0, 0, 0, fragmentAt env initialSize n⟩).buffers.stored = env.storedBy (n + 1) := by
  rw [stored_complete, Script.storedBy, completedBy_succ]
  cases now : env.completionAt (n + 1) with
  | none => exact before
  | some k =>
    have first := completedBy_none_of_completionAt now
    rw [before, Script.storedBy, first, Option.some_or]

/-- **The bytes stored after `n` rounds.** -/
theorem stored_fragmentAt (env : Script) (initialSize n : Nat) :
    (fragmentAt env initialSize n).stored = env.storedBy n := by
  induction n with
  | zero =>
    show (completeAt env (receiveEffects initialSize) 0 ⟨0, 0, 0, 0, _⟩).buffers.stored = _
    rw [stored_complete, Script.storedBy, completedBy_zero]
  | succ n ih =>
    rw [← stored_afterPoll env initialSize n ih]
    show (buffersAt env (receiveEffects initialSize) _ (n + 1)).stored = _
    rw [buffersAt]
    split <;> rfl

/-- The length that the buffers hold after `n` rounds without an error of the token. -/
def expectedLength (env : Script) (initialSize n : Nat) : Nat :=
  match env.completedBy n with
  | none => if socketMaxTries < n ∧ initialSize < 4294967296 then 0 else asUint32 initialSize
  | some k => if socketMaxTries < n ∧ k.data.length = initialSize then 0 else k.data.length

theorem not_failed_of_le {m : Nat} (fine : ¬ env.Failed m) (le : n ≤ m) : ¬ env.Failed n := by
  rintro ⟨k, mem, early, bad⟩
  exact fine ⟨k, mem, Nat.le_trans early le, bad⟩

/-- What completes a token that has not failed does not fail it. -/
theorem completionAt_fine {k : Completion} (fine : ¬ env.Failed n)
    (now : env.completionAt n = some k) : efiError k.status = false := by
  unfold Script.completionAt at now
  obtain ⟨mem, moment⟩ := Option.filter_eq_some_iff.1 now
  rw [decide_eq_true_iff] at moment
  rw [← Bool.not_eq_true]
  exact fun bad => fine ⟨k, mem, Nat.le_of_eq moment, bad⟩

theorem length_complete (env : Script) (initialSize : Nat) (b : Fragment) {m : Nat} (fine : ¬ env.Failed m) :
    (completeAt env (receiveEffects initialSize) m ⟨0, 0, 0, 0, b⟩).buffers.fragmentLength =
      match env.completionAt m with
      | some k => k.data.length
      | none => b.fragmentLength := by
  unfold completeAt
  cases now : env.completionAt m with
  | none => rfl
  | some k => simp [receiveEffects, completionAt_fine fine now]

/-- **The length after `n` rounds.** -/
theorem length_fragmentAt (initialSize : Nat) (fine : ¬ env.Failed n) :
    (fragmentAt env initialSize n).fragmentLength = expectedLength env initialSize n := by
  induction n with
  | zero =>
    show (completeAt env (receiveEffects initialSize) 0 ⟨0, 0, 0, 0, _⟩).buffers.fragmentLength = _
    rw [length_complete env _ _ fine, expectedLength, completedBy_zero]
    cases env.completionAt 0 <;> rfl
  | succ n ih =>
    have before := ih (not_failed_of_le fine (Nat.le_succ n))
    have polled := length_complete env initialSize (fragmentAt env initialSize n) fine
    have late : env.patience ≤ n ↔ socketMaxTries ≤ n := by
      rw [patience_le_iff]
      exact or_iff_right fine
    have round : (fragmentAt env initialSize (n + 1)).fragmentLength =
        if socketMaxTries ≤ n then
          if (completeAt env (receiveEffects initialSize) (n + 1)
              ⟨0, 0, 0, 0, fragmentAt env initialSize n⟩).buffers.fragmentLength = initialSize then 0
          else (completeAt env (receiveEffects initialSize) (n + 1)
            ⟨0, 0, 0, 0, fragmentAt env initialSize n⟩).buffers.fragmentLength
        else (completeAt env (receiveEffects initialSize) (n + 1)
          ⟨0, 0, 0, 0, fragmentAt env initialSize n⟩).buffers.fragmentLength := by
      rw [fragmentAt, buffersAt]
      simp only [late]
      split <;> rfl
    have small := asUint32_eq_iff initialSize
    rw [round, polled, before, expectedLength, expectedLength, completedBy_succ]
    cases now : env.completionAt (n + 1) with
    | some k =>
      rw [Option.some_or]
      simp only
      split_ifs <;> omega
    | none =>
      rw [Option.none_or]
      cases env.completedBy n with
      | none =>
        simp only
        split_ifs <;> omega
      | some k =>
        simp only
        split_ifs <;> omega

end Fragments

section Exact

variable {s : LSocket} {env : Script} {initialSize n : Nat} {c : Int}

/-- A token that has failed has stored nothing. -/
theorem storedBy_of_failed (failed : env.Failed n) : env.storedBy n = [] := by
  obtain ⟨k, mem, moment, bad⟩ := failed
  have done : env.completedBy n = some k :=
    Option.filter_eq_some_iff.2 ⟨mem, decide_eq_true moment⟩
  rw [Script.storedBy, done]
  exact if_pos bad

theorem failed_iff_of_completedBy {k : Completion} (done : env.completedBy n = some k) :
    env.Failed n ↔ efiError k.status = true := by
  rw [← statusAt_failed, Script.statusAt, done]

/-- How many polls the loop makes of a token that does not fail: more than it has tries, where
the receive is late. -/
theorem late_iff (stops : env.StopsFirst (c + 1) n) (due : env.Due (c + 1) n)
    (fine : ¬ env.Failed n) : socketMaxTries < n ↔ env.Late c := by
  have some : env.Due (c + 1) n := due
  obtain ⟨nonneg, enough⟩ := due
  unfold Script.finishes at enough
  constructor
  · intro many
    have early := (not_or.1 (stops.2 socketMaxTries many)).1
    have patience : socketMaxTries ≤ env.patience := by
      by_contra less
      have failed := ((patience_le_iff env (socketMaxTries - 1)).1 (by omega)).resolve_right (by decide)
      exact not_failed_of_le fine (by omega) failed
    unfold Script.Due Script.finishes at early
    by_cases called : env.Called socketMaxTries
    · rw [if_pos called] at early
      exact .inl (by omega)
    · rw [if_neg called] at early
      rcases Int.lt_or_eq_of_le (show 0 ≤ c by omega) with pos | zero
      · exact .inl pos
      · exact .inr ⟨zero.symm, called⟩
  · intro late
    by_contra few
    have patience : n ≤ env.patience := by
      by_contra less
      have failed := ((patience_le_iff env (n - 1)).1 (by omega)).resolve_right (by omega)
      exact fine (by rwa [show n - 1 + 1 = n by omega] at failed)
    rw [Nat.sub_eq_zero_of_le patience] at enough
    rcases late with pos | ⟨zero, never⟩
    · split at enough <;> omega
    · have notCalled : ¬ env.Called n := by
        rintro ⟨m, mem, le⟩
        exact never ⟨m, mem, by omega⟩
      rw [if_neg notCalled] at enough
      omega

/-- What is reported when the token has not failed. -/
theorem exact_received_iff {p : Pending Fragment} (good : efiError p.status = false) :
    (received env (true, p)).Exact ↔
      (efiError env.closeEvent = true ∧ p.buffers.stored = []) ∨
        (efiError env.closeEvent = false ∧ p.buffers.fragmentLength = p.buffers.stored.length) := by
  cases close : efiError env.closeEvent with
  | true => simp [received, good, close, Received.Exact, eq_comm]
  | false =>
    simp only [received, good, close, Received.Exact]
    simp only [Bool.not_true, Bool.false_eq_true, if_false, decide_eq_true_iff, false_and, false_or,
      true_and, and_iff_left_iff_imp]
    intro same
    rw [same]
    exact Nat.pos_iff_ne_zero.symm

/-- The ending of a loop whose token has not been completed. -/
theorem endsWell_notCompleted_iff (due : env.Due (c + 1) n) (fine : ¬ env.Failed n)
    (never : env.completedBy n = none) :
    EndsWell env initialSize c n ↔ efiError env.closeEvent = true ∨ asUint32 initialSize = 0 ∨
      env.Late c ∧ initialSize < 4294967296 := by
  constructor
  · intro well
    cases well with
    | pollFails pending => exact absurd due pending
    | tokenFails _ failed => exact absurd failed fine
    | completed _ done => rw [never] at done; cases done
    | notCompleted _ _ zero => exact zero
  · exact .notCompleted due never

/-- The ending of a loop whose token has been completed, without an error. -/
theorem endsWell_completed_iff (due : env.Due (c + 1) n) (fine : ¬ env.Failed n) {k : Completion}
    (done : env.completedBy n = some k) :
    EndsWell env initialSize c n ↔ k.data = [] ∨ efiError env.closeEvent = false ∧
      (k.data.length = initialSize → ¬ env.Late c) := by
  constructor
  · intro well
    cases well with
    | pollFails pending => exact absurd due pending
    | tokenFails _ failed => exact absurd failed fine
    | notCompleted _ never => rw [done] at never; cases never
    | completed _ done' _ kept =>
      rw [done] at done'
      cases done'
      exact kept
  · refine .completed due done ?_
    rw [← Bool.not_eq_true, ← failed_iff_of_completedBy done]
    exact fine

/-- The report of a loop that ended with nothing pending, by what its token has come to. -/
theorem exact_fine_iff {p : Pending Fragment} (fine : ¬ env.Failed n)
    (after : AfterRounds env (receiveEffects initialSize) (c + 1) ⟨asUint32 initialSize, false, []⟩ n p) :
    (received env (true, p)).Exact ↔
      (efiError env.closeEvent = true ∧ env.storedBy n = []) ∨
        (efiError env.closeEvent = false ∧ expectedLength env initialSize n = (env.storedBy n).length) := by
  have good : efiError p.status = false := by
    rw [after.status, ← Bool.not_eq_true, statusAt_failed]
    exact fine
  have bytes : p.buffers = fragmentAt env initialSize n := after.buffers
  rw [← length_fragmentAt initialSize fine, ← stored_fragmentAt env initialSize n, ← bytes]
  exact exact_received_iff good

/-- The report of a loop that ended with nothing pending. -/
theorem exact_due_iff {p : Pending Fragment} (stops : env.StopsFirst (c + 1) n)
    (due : env.Due (c + 1) n)
    (after : AfterRounds env (receiveEffects initialSize) (c + 1) ⟨asUint32 initialSize, false, []⟩ n p) :
    (received env (true, p)).Exact ↔ EndsWell env initialSize c n := by
  by_cases failed : env.Failed n
  · have bad : efiError p.status = true := by
      rw [after.status]
      exact (statusAt_failed env n).2 failed
    have bytes : p.buffers = fragmentAt env initialSize n := after.buffers
    have nothing := (stored_fragmentAt env initialSize n).trans (storedBy_of_failed failed)
    refine iff_of_true ?_ (.tokenFails due failed)
    simp [received, bad, Received.Exact, bytes, nothing]
  · have late := late_iff stops due failed
    rw [exact_fine_iff failed after]
    cases done : env.completedBy n with
    | none =>
      have nothing : env.storedBy n = [] := by rw [Script.storedBy, done]
      rw [endsWell_notCompleted_iff due failed done, nothing, expectedLength, done, ← late]
      by_cases given : socketMaxTries < n ∧ initialSize < 4294967296
      · simp [given]
      · cases efiError env.closeEvent <;> simp [given]
    | some k =>
      have succeeds : efiError k.status = false := by
        rw [← Bool.not_eq_true, ← failed_iff_of_completedBy done]
        exact failed
      have data : env.storedBy n = k.data := by simp [Script.storedBy, done, succeeds]
      rw [endsWell_completed_iff due failed done, data, expectedLength, done, ← late]
      by_cases lost : socketMaxTries < n ∧ k.data.length = initialSize
      · have none : initialSize = 0 ↔ k.data = [] := by
          rw [← lost.2, List.length_eq_zero_iff]
        cases efiError env.closeEvent <;> simp [lost, none, eq_comm]
      · cases efiError env.closeEvent <;> simp [lost]
        exact .inr fun whole => Nat.le_of_not_lt fun many => lost ⟨many, whole⟩

/-- The report of a loop that a failing `Poll` has ended. -/
theorem exact_pollFails_iff {q : Pending Fragment} (pending : ¬ env.Due (c + 1) n)
    (after : AfterPoll env (receiveEffects initialSize) (c + 1) ⟨asUint32 initialSize, false, []⟩ n q) :
    (received env (false, q)).Exact ↔ EndsWell env initialSize c n := by
  have stored : q.buffers.stored = env.storedBy (n + 1) := by
    rw [after.buffers]
    exact stored_afterPoll env initialSize n (stored_fragmentAt env initialSize n)
  have report : (received env (false, q)).Exact ↔ env.storedBy (n + 1) = [] := by
    rw [← stored]
    simp [received, Received.Exact, eq_comm]
  rw [report]
  constructor
  · exact .pollFails pending
  · intro well
    cases well with
    | pollFails _ nothing => exact nothing
    | tokenFails due => exact absurd due pending
    | notCompleted due => exact absurd due pending
    | completed due => exact absurd due pending

/-- A call whose request is accepted polls. -/
theorem receive_asked (opened : s.child = true ∧ s.closed = false) (asked : env.Asked)
    (initialSize fuel : Nat) (c : Int) :
    receive s env initialSize fuel c =
      (Loop.run (pollTurn env (receiveEffects initialSize)) fuel
        (requested env (receiveEffects initialSize) (c + 1) ⟨asUint32 initialSize, false, []⟩)).map
        (received env) := by
  have notFin : env.request ≠ efiConnectionFin := by
    intro fin
    have accepted := asked.accepted
    rw [fin] at accepted
    exact absurd accepted (by decide)
  simp [receive, opened, asked.created, asked.accepted, notFin, tokenEventStart]

/-- A call that does not poll returns `r`. -/
theorem receivesExactly_of_now {r : Received} (now : ∀ fuel, receive s env initialSize fuel c = some r) :
    ReceivesExactly s env initialSize c ↔ r.Exact := by
  constructor
  · rintro ⟨r', ⟨fuel, run⟩, exact'⟩
    rw [now] at run
    cases run
    exact exact'
  · exact fun exact' => ⟨r, ⟨0, now 0⟩, exact'⟩

/-- A call that polls returns what its loop ends with. -/
theorem receivesExactly_of_leaves (opened : s.child = true ∧ s.closed = false) (asked : env.Asked)
    {x : Bool × Pending Fragment}
    (leaves : Loop.Leaves (pollTurn env (receiveEffects initialSize))
      (requested env (receiveEffects initialSize) (c + 1) ⟨asUint32 initialSize, false, []⟩) x) :
    ReceivesExactly s env initialSize c ↔ (received env x).Exact := by
  constructor
  · rintro ⟨r, ⟨fuel, run⟩, exact'⟩
    rw [receive_asked opened asked, Option.map_eq_some_iff] at run
    obtain ⟨y, ends, rfl⟩ := run
    rwa [Loop.Leaves.unique leaves ⟨fuel, ends⟩]
  · intro exact'
    obtain ⟨fuel, ends⟩ := leaves
    refine ⟨_, ⟨fuel, ?_⟩, exact'⟩
    rw [receive_asked opened asked, ends]
    rfl

theorem exact_nothing (tcpEventStatus : Int) (closed : Bool) :
    (Received.mk false 0 [] tcpEventStatus closed).Exact := by
  simp [Received.Exact]

/-- The report of the end of the connection: the room that was offered. -/
theorem exact_fin_iff (tcpEventStatus : Int) :
    (Received.mk (asUint32 initialSize ≠ 0) (asUint32 initialSize) [] tcpEventStatus true).Exact ↔
      asUint32 initialSize = 0 := by
  simp [Received.Exact]

/-- The two ends of the loop together. -/
theorem receivesExactly_iff_endsWell (opened : s.child = true ∧ s.closed = false) (asked : env.Asked)
    (stops : env.StopsFirst (c + 1) n) :
    ReceivesExactly s env initialSize c ↔ EndsWell env initialSize c n := by
  rcases pollTurn_stops (receiveEffects initialSize) ⟨asUint32 initialSize, false, []⟩ stops with
    ⟨due, p, ends, after⟩ | ⟨pending, q, ends, after⟩
  · exact (receivesExactly_of_leaves opened asked ⟨_, ends⟩).trans (exact_due_iff stops due after)
  · exact (receivesExactly_of_leaves opened asked ⟨_, ends⟩).trans (exact_pollFails_iff pending after)

/-- A call whose loop nothing stops does not return. -/
theorem not_receivesExactly_of_spins (opened : s.child = true ∧ s.closed = false) (asked : env.Asked)
    (never : ∀ n, ¬ env.Stops (c + 1) n) : ¬ ReceivesExactly s env initialSize c := by
  rintro ⟨r, ⟨fuel, run⟩, -⟩
  rw [receive_asked opened asked, Option.map_eq_some_iff] at run
  obtain ⟨x, ends, -⟩ := run
  have spins := pollTurn_spins (receiveEffects initialSize) ⟨asUint32 initialSize, false, []⟩ never
  exact Loop.spins_iff.1 spins x ⟨fuel, ends⟩

/-- The report of a receive whose request has been accepted. -/
theorem receivesExactly_asked_iff (opened : s.child = true ∧ s.closed = false) (asked : env.Asked) :
    ReceivesExactly s env initialSize c ↔
      ∃ n, env.StopsFirst (c + 1) n ∧ EndsWell env initialSize c n := by
  by_cases stop : ∃ n, env.Stops (c + 1) n
  · obtain ⟨m, here⟩ := stop
    obtain ⟨n, stops⟩ := stopsFirst_of_stops here
    rw [receivesExactly_iff_endsWell opened asked stops]
    constructor
    · exact fun well => ⟨n, stops, well⟩
    · rintro ⟨n', stops', well⟩
      rwa [stopsFirst_unique stops stops']
  · apply iff_of_false (not_receivesExactly_of_spins opened asked (not_exists.1 stop))
    rintro ⟨n, stops, -⟩
    exact stop ⟨n, stops.1⟩

theorem reportsStored_asked_iff (opened : s.child = true ∧ s.closed = false) (asked : env.Asked) :
    ReportsStored s env initialSize c ↔
      ∃ n, env.StopsFirst (c + 1) n ∧ EndsWell env initialSize c n := by
  have created := Bool.eq_false_iff.1 asked.created
  have accepted := Bool.eq_false_iff.1 asked.accepted
  constructor
  · intro reports
    cases reports with
    | notOpen shut => exact absurd opened shut
    | noEvent failed => exact absurd failed created
    | noRoom fin => exact absurd (fin ▸ rfl) accepted
    | refused failed => exact absurd failed accepted
    | ends _ stops well => exact ⟨_, stops, well⟩
  · rintro ⟨n, stops, well⟩
    exact .ends asked stops well

end Exact

/-- **`Receive` returns the number of bytes stored exactly when** the socket is shut, its
event or its request fails, there was no room to report at the end of the connection, or
its loop ends well. -/
theorem receive_exact_iff (s : LSocket) (env : Script) (initialSize : Nat) (c : Int) :
    ReceivesExactly s env initialSize c ↔ ReportsStored s env initialSize c := by
  by_cases opened : s.child = true ∧ s.closed = false
  · by_cases created : efiError env.createEvent = true
    · refine iff_of_true ?_ (.noEvent created)
      have now (fuel : Nat) : receive s env initialSize fuel c = some ⟨false, 0, [], c + 1, s.closed⟩ := by
        simp [receive, opened, created, tokenEventStart]
      exact (receivesExactly_of_now now).2 (exact_nothing _ _)
    · by_cases fin : env.request = efiConnectionFin
      · have now (fuel : Nat) : receive s env initialSize fuel c =
            some ⟨asUint32 initialSize ≠ 0, asUint32 initialSize, [], c + 1, true⟩ := by
          simp [receive, opened, created, fin, tokenEventStart]
        rw [receivesExactly_of_now now, exact_fin_iff]
        constructor
        · exact .noRoom fin
        · intro reports
          cases reports with
          | notOpen shut => exact absurd opened shut
          | noEvent failed => exact absurd failed created
          | noRoom _ none => exact none
          | refused _ notFin => exact absurd fin notFin
          | ends asked =>
            have accepted := asked.accepted
            rw [fin] at accepted
            exact absurd accepted (by decide)
      · by_cases refused : efiError env.request = true
        · refine iff_of_true ?_ (.refused refused fin)
          have now (fuel : Nat) :
              receive s env initialSize fuel c = some ⟨false, 0, [], c + 1, s.closed⟩ := by
            simp [receive, opened, created, fin, refused, tokenEventStart]
          exact (receivesExactly_of_now now).2 (exact_nothing _ _)
        · have asked : env.Asked := ⟨Bool.eq_false_iff.2 created, Bool.eq_false_iff.2 refused⟩
          rw [receivesExactly_asked_iff opened asked, reportsStored_asked_iff opened asked]
  · refine iff_of_true ?_ (.notOpen opened)
    have now (fuel : Nat) : receive s env initialSize fuel c = some ⟨false, 0, [], c, s.closed⟩ := by
      exact if_pos (shut_of_not_open opened)
    exact (receivesExactly_of_now now).2 (exact_nothing _ _)

/-- The request that a closed connection answers at once. -/
def closedByPeer : Script where
  createEvent := efiSuccess
  request := efiConnectionFin
  completion := none
  callback := none
  poll _ := efiSuccess
  closeEvent := efiSuccess

/-- At the end of the connection 96 bytes are reported that nobody has stored. -/
theorem receive_reports_stale_bytes :
    receive ⟨true, false⟩ closedByPeer 96 0 0 = some ⟨true, 96, [], 1, true⟩ ∧
      ¬ ReceivesExactly ⟨true, false⟩ closedByPeer 96 0 := by
  have now (fuel : Nat) : receive ⟨true, false⟩ closedByPeer 96 fuel 0 = some ⟨true, 96, [], 1, true⟩ :=
    rfl
  refine ⟨now 0, ?_⟩
  rw [receivesExactly_of_now now]
  simp [Received.Exact]

end Lavoro.Net
