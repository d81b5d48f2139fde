import Mathlib.Data.Nat.Find
import Lavoro.Net.Tcp

/-!
# How long a call polls

After `n` rounds the counter `TCPEventStatus` is what it was at the start, less one for the
callback if it has run and one for every round from `patience` on (`finished`). `Due` says
of a number of rounds that this is 0. A call polls until the first number of rounds that
is due or whose `Poll` fails, and for ever if there is none.
-/

namespace Lavoro.Net
open Lib

variable {ρ : Type}

/-- `TCPEventStatus` after `TCPCompletionTokenEventFinish()` has been called `k` times. -/
def finished (v : Int) (k : Nat) : Int := if 0 ≤ v then max 0 (v - k) else v - k

theorem finished_zero (v : Int) : finished v 0 = v := by
  unfold finished
  split <;> omega

theorem finish_finished (v : Int) (k : Nat) :
    tokenEventFinish (finished v k) = finished v (k + 1) := by
  unfold tokenEventFinish finished
  split <;> split <;> omega

theorem finished_eq_zero_iff (v : Int) (k : Nat) : finished v k = 0 ↔ 0 ≤ v ∧ v ≤ k := by
  unfold finished
  split <;> omega

/-- The callback has run by the moment `m`. -/
def Script.Called (env : Script) (m : Nat) : Prop := ∃ k ∈ env.callback, k ≤ m

/-- The completion of the token, if it has happened by the moment `m`. -/
def Script.completedBy (env : Script) (m : Nat) : Option Completion :=
  env.completion.filter fun k => k.moment ≤ m

/-- The token has been completed with an error by the moment `m`. -/
def Script.Failed (env : Script) (m : Nat) : Prop :=
  ∃ k ∈ env.completion, k.moment ≤ m ∧ efiError k.status = true

instance (env : Script) (m : Nat) : Decidable (env.Called m) :=
  inferInstanceAs (Decidable (∃ k ∈ env.callback, k ≤ m))

instance (env : Script) (m : Nat) : Decidable (env.Failed m) :=
  inferInstanceAs (Decidable (∃ k ∈ env.completion, k.moment ≤ m ∧ efiError k.status = true))

/-- The number of rounds before the first in which the call gives up. -/
def Script.patience (env : Script) : Nat :=
  match env.completion with
  | some k => if efiError k.status then min socketMaxTries (k.moment - 1) else socketMaxTries
  | none => socketMaxTries

/-- How often `TCPCompletionTokenEventFinish()` has been called after `n` rounds. -/
def Script.finishes (env : Script) (n : Nat) : Nat :=
  (if env.Called n then 1 else 0) + (n - env.patience)

/-- After `n` rounds nothing is pending, `v` having been after the start. -/
def Script.Due (env : Script) (v : Int) (n : Nat) : Prop := 0 ≤ v ∧ v ≤ env.finishes n

instance (env : Script) (v : Int) (n : Nat) : Decidable (env.Due v n) :=
  inferInstanceAs (Decidable (_ ∧ _))

/-- The token's status at the moment `m`. -/
def Script.statusAt (env : Script) (m : Nat) : EfiStatus :=
  match env.completedBy m with
  | some k => k.status
  | none => efiSuccess

/-- The buffers of the call after `n` rounds. -/
def buffersAt (env : Script) (eff : Effects ρ) (buffers : ρ) : Nat → ρ
  | 0 => (completeAt env eff 0 ⟨0, 0, 0, 0, buffers⟩).buffers
  | n + 1 =>
    let b := (completeAt env eff (n + 1) ⟨0, 0, 0, 0, buffersAt env eff buffers n⟩).buffers
    if env.patience ≤ n then eff.giveUp b else b

section Rounds

variable {env : Script} {eff : Effects ρ} {v : Int} {buffers : ρ} {n : Nat} {p : Pending ρ}

theorem completedBy_zero (env : Script) : env.completedBy 0 = env.completionAt 0 := by
  simp only [Script.completedBy, Script.completionAt, Nat.le_zero]

theorem completedBy_succ (env : Script) (n : Nat) :
    env.completedBy (n + 1) = (env.completionAt (n + 1)).or (env.completedBy n) := by
  unfold Script.completedBy Script.completionAt
  cases env.completion with
  | none => rfl
  | some k =>
    rcases Nat.lt_trichotomy k.moment (n + 1) with lt | eq | gt
    · simp [Option.filter, Nat.le_of_lt lt, Nat.ne_of_lt lt, Nat.le_of_lt_succ lt]
    · simp [Option.filter, eq]
    · simp [Option.filter, Nat.not_le_of_lt gt, Nat.ne_of_gt gt, show ¬ k.moment ≤ n by omega]

theorem statusAt_zero (env : Script) :
    env.statusAt 0 = ((env.completionAt 0).map Completion.status).getD efiSuccess := by
  rw [Script.statusAt, completedBy_zero]
  cases env.completionAt 0 <;> rfl

theorem statusAt_succ (env : Script) (n : Nat) :
    env.statusAt (n + 1) = ((env.completionAt (n + 1)).map Completion.status).getD (env.statusAt n) := by
  unfold Script.statusAt
  rw [completedBy_succ]
  cases env.completionAt (n + 1) <;> rfl

theorem statusAt_failed (env : Script) (m : Nat) : efiError (env.statusAt m) = true ↔ env.Failed m := by
  unfold Script.statusAt Script.Failed Script.completedBy
  cases env.completion with
  | none => simp
  | some k =>
    by_cases done : k.moment ≤ m <;> simp [Option.filter, done]

/-- The rounds in which the call gives up: the token has failed, or its tries are used up. -/
theorem patience_le_iff (env : Script) (i : Nat) :
    env.patience ≤ i ↔ env.Failed (i + 1) ∨ socketMaxTries ≤ i := by
  unfold Script.patience Script.Failed
  cases env.completion with
  | none => simp
  | some k =>
    by_cases failed : efiError k.status = true
    · simp only [failed, if_true, Option.mem_def, Option.some.injEq, exists_eq_left', and_true]
      omega
    · simp [failed]

theorem called_succ (env : Script) (n : Nat) :
    env.Called (n + 1) ↔ env.callback = some (n + 1) ∨ env.Called n := by
  unfold Script.Called
  cases env.callback with
  | none => simp
  | some k =>
    simp only [Option.mem_def, Option.some.injEq, exists_eq_left']
    omega

/-- One more round. -/
theorem finishes_succ (env : Script) (n : Nat) :
    env.finishes (n + 1) = env.finishes n + (if env.callback = some (n + 1) then 1 else 0) +
      (if env.patience ≤ n then 1 else 0) := by
  unfold Script.finishes
  have called := called_succ env n
  by_cases now : env.callback = some (n + 1)
  · have before : ¬ env.Called n := by
      rintro ⟨k, mem, le⟩
      rw [now] at mem
      cases mem
      omega
    rw [if_pos (called.2 (.inl now)), if_pos now, if_neg before]
    split <;> omega
  · have same : env.Called (n + 1) ↔ env.Called n := called.trans (or_iff_right now)
    simp only [same, if_neg now]
    split <;> split <;> omega

theorem completeAt_tcp (env : Script) (eff : Effects ρ) (m : Nat) (p : Pending ρ) :
    (completeAt env eff m p).tcpEventStatus = p.tcpEventStatus ∧
      (completeAt env eff m p).counter = p.counter ∧ (completeAt env eff m p).polls = p.polls := by
  unfold completeAt
  split <;> exact ⟨rfl, rfl, rfl⟩

theorem completeAt_buffers (env : Script) (eff : Effects ρ) (m : Nat) (p : Pending ρ) :
    (completeAt env eff m p).buffers = (completeAt env eff m ⟨0, 0, 0, 0, p.buffers⟩).buffers := by
  unfold completeAt
  split <;> rfl

theorem completeAt_status (env : Script) (eff : Effects ρ) (m : Nat) (p : Pending ρ) :
    (completeAt env eff m p).status = ((env.completionAt m).map Completion.status).getD p.status := by
  unfold completeAt
  cases env.completionAt m <;> rfl

/-- What is known of a call after `n` rounds, `v` having been `TCPEventStatus` at the start. -/
structure AfterRounds (env : Script) (eff : Effects ρ) (v : Int) (buffers : ρ) (n : Nat)
    (p : Pending ρ) : Prop where
  polls : p.polls = n
  tcp : p.tcpEventStatus = finished v (env.finishes n)
  status : p.status = env.statusAt n
  counter : ¬ env.Failed n → p.counter = n
  buffers : p.buffers = buffersAt env eff buffers n

/-- What is known of a call when its `n`-th `Poll` returns. -/
structure AfterPoll (env : Script) (eff : Effects ρ) (v : Int) (buffers : ρ) (n : Nat)
    (p : Pending ρ) : Prop where
  polls : p.polls = n + 1
  tcp : p.tcpEventStatus =
    finished v (env.finishes n + if env.callback = some (n + 1) then 1 else 0)
  status : p.status = env.statusAt (n + 1)
  counter : ¬ env.Failed n → p.counter = n
  buffers : p.buffers = (completeAt env eff (n + 1) ⟨0, 0, 0, 0, buffersAt env eff buffers n⟩).buffers

/-- When the loop is entered. -/
theorem afterRounds_requested (env : Script) (eff : Effects ρ) (v : Int) (buffers : ρ) :
    AfterRounds env eff v buffers 0 (requested env eff v buffers) := by
  have start := completeAt_tcp env eff 0 ⟨v, efiSuccess, 0, 0, buffers⟩
  have status := completeAt_status env eff 0 ⟨v, efiSuccess, 0, 0, buffers⟩
  have bytes := completeAt_buffers env eff 0 ⟨v, efiSuccess, 0, 0, buffers⟩
  have known := statusAt_zero env
  have called : env.Called 0 ↔ env.callback = some 0 := by
    unfold Script.Called
    cases env.callback <;> simp
  have none : env.finishes 0 = if env.callback = some 0 then 1 else 0 := by
    simp only [Script.finishes, called, Nat.zero_sub, Nat.add_zero]
  unfold requested deliver
  split
  · rename_i now
    refine ⟨start.2.2, ?_, status.trans known.symm, fun _ => start.2.1, bytes⟩
    rw [none, if_pos now]
    show tokenEventFinish _ = _
    rw [start.1, ← finish_finished, finished_zero]
  · rename_i later
    refine ⟨start.2.2, ?_, status.trans known.symm, fun _ => start.2.1, bytes⟩
    rw [none, if_neg later, finished_zero]
    exact start.1

/-- A `Poll` in a round. -/
theorem afterPoll_deliver (h : AfterRounds env eff v buffers n p) :
    AfterPoll env eff v buffers n (deliver env eff (n + 1) { p with polls := n + 1 }) := by
  have start := completeAt_tcp env eff (n + 1) { p with polls := n + 1 }
  have status : (completeAt env eff (n + 1) { p with polls := n + 1 }).status =
      env.statusAt (n + 1) := by
    rw [statusAt_succ, ← h.status]
    exact completeAt_status env eff (n + 1) { p with polls := n + 1 }
  have bytes : (completeAt env eff (n + 1) { p with polls := n + 1 }).buffers =
      (completeAt env eff (n + 1) ⟨0, 0, 0, 0, buffersAt env eff buffers n⟩).buffers := by
    rw [← h.buffers]
    exact completeAt_buffers env eff (n + 1) { p with polls := n + 1 }
  unfold deliver
  split
  · rename_i now
    refine ⟨start.2.2, ?_, status, fun fine => start.2.1.trans (h.counter fine), bytes⟩
    show tokenEventFinish _ = _
    rw [start.1, if_pos now, ← finish_finished]
    exact congrArg tokenEventFinish h.tcp
  · rename_i later
    refine ⟨start.2.2, ?_, status, fun fine => start.2.1.trans (h.counter fine), bytes⟩
    rw [if_neg later]
    exact start.1.trans h.tcp

/-- The rest of a round in which the call gives up. -/
theorem afterRounds_giveUp (h : AfterPoll env eff v buffers n p) (late : env.patience ≤ n)
    {counter : Nat} (count : ¬ env.Failed (n + 1) → counter = n + 1) :
    AfterRounds env eff v buffers (n + 1) (giveUpOnce eff { p with counter }) where
  polls := h.polls
  tcp := by
    show tokenEventFinish p.tcpEventStatus = _
    rw [h.tcp, finish_finished, finishes_succ, if_pos late]
  status := h.status
  counter := count
  buffers := by
    show eff.giveUp p.buffers = _
    rw [h.buffers, buffersAt, if_pos late]

theorem running_iff (h : AfterRounds env eff v buffers n p) :
    tokenEventRunning p.tcpEventStatus = true ↔ ¬ env.Due v n := by
  rw [tokenEventRunning, decide_eq_true_iff, h.tcp, ne_eq, finished_eq_zero_iff]
  rfl

/-- **A round.** -/
theorem pollTurn_again (h : AfterRounds env eff v buffers n p) (pending : ¬ env.Due v n)
    (polled : efiError (env.poll n) = false) :
    ∃ p', pollTurn env eff p = .again p' ∧ AfterRounds env eff v buffers (n + 1) p' := by
  have going := (running_iff h).2 pending
  have after := afterPoll_deliver h
  have polls := h.polls
  subst polls
  generalize hq : deliver env eff (p.polls + 1) { p with polls := p.polls + 1 } = q at after
  have failed := statusAt_failed env (p.polls + 1)
  rw [← after.status] at failed
  unfold pollTurn
  simp only [going, Bool.not_true, Bool.false_eq_true, if_false, polled, hq]
  by_cases error : efiError q.status = true
  · -- the token has failed
    rw [if_pos error]
    refine ⟨_, rfl, afterRounds_giveUp after ((patience_le_iff env _).2 (.inl (failed.1 error))) ?_⟩
    exact fun fine => absurd (failed.1 error) fine
  · rw [if_neg error]
    have fine : ¬ env.Failed (p.polls + 1) := fun bad => error (failed.2 bad)
    have before : ¬ env.Failed p.polls := by
      rintro ⟨k, mem, le, bad⟩
      exact fine ⟨k, mem, by omega, bad⟩
    have count := after.counter before
    by_cases late : q.counter + 1 > socketMaxTries
    · rw [if_pos late]
      refine ⟨_, rfl, afterRounds_giveUp after ((patience_le_iff env _).2 (.inr (by omega))) ?_⟩
      intro _
      omega
    · rw [if_neg late]
      have early : ¬ env.patience ≤ p.polls := by
        rw [patience_le_iff]
        rintro (bad | tries)
        · exact fine bad
        · omega
      refine ⟨_, rfl, after.polls, ?_, after.status, fun _ => by show q.counter + 1 = _; omega, ?_⟩
      · rw [finishes_succ, if_neg early, Nat.add_zero]
        exact after.tcp
      · rw [buffersAt, if_neg early]
        exact after.buffers

/-- The loop is left when nothing is pending. -/
theorem pollTurn_due (h : AfterRounds env eff v buffers n p) (due : env.Due v n) :
    pollTurn env eff p = .leave (true, p) := by
  have stopped : tokenEventRunning p.tcpEventStatus = false := by
    rw [← Bool.not_eq_true, running_iff h]
    exact not_not_intro due
  simp [pollTurn, stopped]

/-- The loop is left when `Poll` fails. -/
theorem pollTurn_fails (h : AfterRounds env eff v buffers n p) (pending : ¬ env.Due v n)
    (fails : efiError (env.poll n) = true) :
    ∃ q, pollTurn env eff p = .leave (false, q) ∧ AfterPoll env eff v buffers n q := by
  have going := (running_iff h).2 pending
  have after := afterPoll_deliver h
  have polls := h.polls
  subst polls
  exact ⟨_, by simp [pollTurn, going, fails], after⟩

end Rounds

/-! ## The whole loop -/

/-- What ends the loop after `n` rounds: nothing is pending, or the next `Poll` fails. -/
def Script.Stops (env : Script) (v : Int) (n : Nat) : Prop :=
  env.Due v n ∨ efiError (env.poll n) = true

/-- The loop ends after `n` rounds. -/
def Script.StopsFirst (env : Script) (v : Int) (n : Nat) : Prop :=
  env.Stops v n ∧ ∀ k, k < n → ¬ env.Stops v k

instance (env : Script) (v : Int) (n : Nat) : Decidable (env.Stops v n) :=
  inferInstanceAs (Decidable (_ ∨ _))

section Loop

variable {env : Script} {eff : Effects ρ} {v : Int} {buffers : ρ} {n : Nat}

/-- As long as nothing ends it the loop goes round. -/
theorem pollTurn_rounds (eff : Effects ρ) (buffers : ρ) (going : ∀ k, k < n → ¬ env.Stops v k) :
    ∃ p, AfterRounds env eff v buffers n p ∧
      ∀ k, Loop.run (pollTurn env eff) (n + k) (requested env eff v buffers) =
        Loop.run (pollTurn env eff) k p := by
  induction n with
  | zero => exact ⟨_, afterRounds_requested env eff v buffers, fun k => by rw [Nat.zero_add]⟩
  | succ n ih =>
    obtain ⟨p, after, same⟩ := ih fun k lt => going k (Nat.lt_succ_of_lt lt)
    obtain ⟨pending, polled⟩ := not_or.1 (going n (Nat.lt_succ_self n))
    obtain ⟨p', turn, after'⟩ := pollTurn_again after pending (Bool.eq_false_iff.2 polled)
    refine ⟨p', after', fun k => ?_⟩
    rw [Nat.add_right_comm n 1 k, Nat.add_assoc n k 1, same, Loop.run_again turn]

/-- **The loop ends** with nothing pending, or with a failing `Poll`. -/
theorem pollTurn_stops (eff : Effects ρ) (buffers : ρ) (stops : env.StopsFirst v n) :
    (env.Due v n ∧ ∃ p,
        Loop.run (pollTurn env eff) (n + 1) (requested env eff v buffers) = some (true, p) ∧
        AfterRounds env eff v buffers n p) ∨
      (¬ env.Due v n ∧ ∃ q,
        Loop.run (pollTurn env eff) (n + 1) (requested env eff v buffers) = some (false, q) ∧
        AfterPoll env eff v buffers n q) := by
  obtain ⟨p, after, same⟩ := pollTurn_rounds eff buffers stops.2
  by_cases due : env.Due v n
  · exact .inl ⟨due, p, (same 1).trans (Loop.run_leave (pollTurn_due after due)), after⟩
  · have fails := stops.1.resolve_left due
    obtain ⟨q, turn, after'⟩ := pollTurn_fails after due fails
    exact .inr ⟨due, q, (same 1).trans (Loop.run_leave turn), after'⟩

/-- **The loop never ends** when nothing stops it. -/
theorem pollTurn_spins (eff : Effects ρ) (buffers : ρ) (never : ∀ n, ¬ env.Stops v n) :
    Loop.Spins (pollTurn env eff) (requested env eff v buffers) := by
  refine Loop.spins_of_inv (fun p => ∃ n, AfterRounds env eff v buffers n p) ?_
    ⟨0, afterRounds_requested env eff v buffers⟩
  rintro p ⟨n, after⟩
  obtain ⟨pending, polled⟩ := not_or.1 (never n)
  obtain ⟨p', turn, after'⟩ := pollTurn_again after pending (Bool.eq_false_iff.2 polled)
  exact ⟨p', turn, n + 1, after'⟩

theorem stopsFirst_of_stops {m : Nat} (stops : env.Stops v m) : ∃ n, env.StopsFirst v n := by
  have some : ∃ n, env.Stops v n := ⟨m, stops⟩
  exact ⟨Nat.find some, Nat.find_spec some, fun k lt => Nat.find_min some lt⟩

theorem stopsFirst_unique {m : Nat} (h : env.StopsFirst v n) (h' : env.StopsFirst v m) : n = m := by
  rcases Nat.lt_trichotomy n m with lt | eq | gt
  · exact absurd h.1 (h'.2 n lt)
  · exact eq
  · exact absurd h'.1 (h.2 m gt)

theorem patience_le (env : Script) : env.patience ≤ socketMaxTries :=
  (patience_le_iff env socketMaxTries).2 (.inr (Nat.le_refl _))

/-- A counter that is not negative is used up by giving up often enough. -/
theorem stopsFirst_of_nonneg (env : Script) (nonneg : 0 ≤ v) :
    ∃ n, env.StopsFirst v n ∧ n ≤ socketMaxTries + v.toNat := by
  have due : env.Due v (socketMaxTries + v.toNat) := by
    have patience := patience_le env
    refine ⟨nonneg, ?_⟩
    unfold Script.finishes
    omega
  obtain ⟨n, stops⟩ := stopsFirst_of_stops (.inl due)
  refine ⟨n, stops, Nat.le_of_not_lt fun late => ?_⟩
  exact stops.2 _ late (.inl due)

end Loop

end Lavoro.Net
