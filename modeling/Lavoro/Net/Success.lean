import Mathlib.Tactic.SplitIfs
import Lavoro.Net.Socket

/-!
# What `true` says of a request

`Connect` and `Transmit` return `true` when nothing has cut them short: the counter has come down to
0, be it by the callback or by giving up, and the event could be closed. They do not look at the
token's status behind the loop. `dueAfter` is the number of polls after which the counter is down.
-/

namespace Lavoro.Net
open Lib

/-- The polls after which nothing is pending, if none fails: `v` is `TCPEventStatus` at the start.
Giving up alone takes `patience + v` of them; the callback saves one. -/
def Script.dueAfter (env : Script) (v : Nat) : Nat :=
  if v = 0 then 0
  else
    match env.callback with
    | none => env.patience + v
    | some m => min (env.patience + v) (if v = 1 then m else max m (env.patience + v - 1))

theorem due_iff (env : Script) (v n : Nat) : env.Due v n ↔ env.dueAfter v ≤ n := by
  rcases h : env.callback with _ | m
  · have never : ¬ env.Called n := by
      rintro ⟨k, mem, -⟩
      rw [h] at mem
      cases mem
    simp only [Script.Due, Script.finishes, Script.dueAfter, h, if_neg never]
    split_ifs <;> omega
  · have called : env.Called n ↔ m ≤ n := by simp [Script.Called, h]
    simp only [Script.Due, Script.finishes, Script.dueAfter, h, called]
    split_ifs <;> omega

/-- The token has been completed by the `n`-th poll, and not with an error. -/
def Script.SuccessfulBy (env : Script) (n : Nat) : Prop :=
  ∃ k ∈ env.completion, k.moment ≤ n ∧ efiError k.status = false

/-- Nothing cuts the call short. -/
structure Script.RunsThrough (env : Script) (c : Int) : Prop where
  createEvent : efiError env.createEvent = false
  request : efiError env.request = false
  counter : -1 ≤ c
  polls : ∀ i, i < env.dueAfter (tokenEventStart c).toNat → efiError (env.poll i) = false
  closeEvent : efiError env.closeEvent = false

section Calls

variable {env : Script} {c : Int}

theorem start_toNat (counter : -1 ≤ c) : ((tokenEventStart c).toNat : Int) = tokenEventStart c :=
  Int.toNat_of_nonneg (by unfold tokenEventStart; omega)

theorem Script.RunsThrough.stopsFirst (h : env.RunsThrough c) :
    env.Due (tokenEventStart c) (env.dueAfter (tokenEventStart c).toNat) ∧
      env.StopsFirst (tokenEventStart c) (env.dueAfter (tokenEventStart c).toNat) := by
  have due : ∀ n, env.Due (tokenEventStart c) n ↔ env.dueAfter (tokenEventStart c).toNat ≤ n := by
    intro n
    rw [← due_iff, start_toNat h.counter]
  refine ⟨(due _).2 (Nat.le_refl _), .inl ((due _).2 (Nat.le_refl _)), ?_⟩
  rintro k lt (early | fails)
  · exact absurd ((due k).1 early) (by omega)
  · rw [h.polls k lt] at fails
    cases fails

/-- **A call that is not cut short returns `true`.** -/
theorem Script.RunsThrough.returns (h : env.RunsThrough c) :
    ∃ fuel r, awaitRequest env fuel c = some r ∧ r.1 = true := by
  obtain ⟨due, stops⟩ := h.stopsFirst
  rcases pollTurn_stops noEffects () stops with ⟨-, p, run, -⟩ | ⟨early, -⟩
  · refine ⟨env.dueAfter (tokenEventStart c).toNat + 1, (true, p.tcpEventStatus), ?_, rfl⟩
    unfold awaitRequest
    rw [h.createEvent, h.request]
    simp only [Bool.false_eq_true, if_false]
    rw [run]
    simp [h.closeEvent]
  · exact absurd due early

/-- The loop is left with nothing pending. -/
theorem stops_of_left {fuel : Nat} {p : Pending Unit} {v : Int}
    (run : Loop.run (pollTurn env noEffects) fuel (requested env noEffects v ()) = some (true, p)) :
    ∃ n, env.StopsFirst v n ∧ env.Due v n := by
  by_cases some' : ∃ n, env.Stops v n
  · obtain ⟨m, stops⟩ := some'
    obtain ⟨n, first⟩ := stopsFirst_of_stops stops
    rcases pollTurn_stops noEffects () first with ⟨due, -⟩ | ⟨-, q, failed, -⟩
    · exact ⟨n, first, due⟩
    · have same := Loop.Leaves.unique ⟨fuel, run⟩ ⟨_, failed⟩
      cases same
  · have spins := pollTurn_spins noEffects () fun n stops => some' ⟨n, stops⟩
    rw [spins fuel] at run
    cases run

/-- **A call that returns `true`** has not been cut short. -/
theorem runsThrough_of_true {fuel : Nat} {r : Bool × Int} (h : awaitRequest env fuel c = some r)
    (ok : r.1 = true) : env.RunsThrough c := by
  unfold awaitRequest at h
  split_ifs at h with notCreated refused
  · cases h
    cases ok
  · cases h
    cases ok
  · obtain ⟨⟨left, p⟩, run, rfl⟩ := Option.map_eq_some_iff.1 h
    simp only [Bool.and_eq_true, Bool.not_eq_true'] at ok
    obtain ⟨rfl, closed⟩ := ok
    obtain ⟨n, first, due⟩ := stops_of_left run
    have counter : -1 ≤ c := by
      have nonneg := due.1
      unfold tokenEventStart at nonneg
      omega
    refine ⟨Bool.eq_false_iff.2 notCreated, Bool.eq_false_iff.2 refused, counter, ?_, closed⟩
    intro i lt
    have late : i < n := by
      rw [← start_toNat counter, due_iff] at due
      omega
    exact Bool.eq_false_iff.2 fun fails => first.2 i late (.inr fails)

/-- What `Connect` and `Transmit` return `true` for. -/
theorem success_iff :
    (∀ fuel r, awaitRequest env fuel c = some r → r.1 = true →
        ∃ n, env.StopsFirst (tokenEventStart c) n ∧ env.SuccessfulBy n) ↔
      (env.RunsThrough c → env.SuccessfulBy (env.dueAfter (tokenEventStart c).toNat)) := by
  constructor
  · intro means through
    obtain ⟨fuel, r, ends, ok⟩ := through.returns
    obtain ⟨n, first, successful⟩ := means fuel r ends ok
    rw [stopsFirst_unique through.stopsFirst.2 first]
    exact successful
  · intro condition fuel r ends ok
    have through := runsThrough_of_true ends ok
    exact ⟨_, through.stopsFirst.2, condition through⟩

end Calls

/-- **Success means success** exactly where every call that is not cut short finds its token
completed without an error when the counter is down. -/
theorem true_means_success_iff (s : LSocket) (configured : Bool) (env : Script) (c : Int) :
    ((∀ fuel r, connect s configured env fuel c = some r → r.1 = true →
        ∃ n, env.StopsFirst (tokenEventStart c) n ∧ env.SuccessfulBy n) ↔
      (s.child = true → configured = true → env.RunsThrough c →
        env.SuccessfulBy (env.dueAfter (tokenEventStart c).toNat))) ∧
    ((∀ fuel r, transmit s env fuel c = some r → r.1 = true →
        ∃ n, env.StopsFirst (tokenEventStart c) n ∧ env.SuccessfulBy n) ↔
      (s.child = true → env.RunsThrough c →
        env.SuccessfulBy (env.dueAfter (tokenEventStart c).toNat))) := by
  have awaits := @success_iff env c
  unfold connect transmit
  cases s.child with
  | false => simp
  | true =>
    simp only [Bool.not_true, Bool.false_eq_true, if_false, forall_const]
    refine ⟨?_, awaits⟩
    cases configured with
    | false => simp
    | true =>
      simp only [Bool.not_true, Bool.false_eq_true, if_false, forall_const]
      exact awaits

/-- The token fails in the first poll. -/
def tokenFails : Script where
  createEvent := efiSuccess
  request := efiSuccess
  completion := some ⟨1, efiDeviceError, []⟩
  callback := none
  poll _ := efiSuccess
  closeEvent := efiSuccess

/-- A transmission whose token has failed is reported as successful. -/
theorem failed_transmit_returns_true :
    transmit ⟨true, false⟩ tokenFails 2 0 = some (true, 0) ∧ ∀ n, ¬ tokenFails.SuccessfulBy n := by
  refine ⟨by decide, ?_⟩
  rintro n ⟨k, mem, -, fine⟩
  cases mem
  cases fine

end Lavoro.Net
