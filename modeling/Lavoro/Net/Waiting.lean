import Lavoro.Net.Traced

/-!
# The wait is bounded

Whatever the firmware does, every turn of a polling loop that goes round again either counts a
try, of which there are `SOCKET_MAX_TRIES`, or takes one off `TCPEventStatus`, which nothing raises
during the wait: `left` is what remains of the two together.
-/

namespace Lavoro.Net.Traced
open Lib

/-- How many turns can still follow. -/
def Waiting.left (p : Waiting) : Nat := p.world.tcpEventStatus.toNat + (socketMaxTries - p.counter)

/-- `TCPCompletionTokenEventFinish()` takes one off, down to 0. -/
theorem tokenEventFinish_le {v : Int} (h : 0 ≤ v) :
    0 ≤ tokenEventFinish v ∧ tokenEventFinish v ≤ v ∧ (1 ≤ v → tokenEventFinish v ≤ v - 1) := by
  unfold tokenEventFinish
  split <;> omega

theorem finish_le {w : World} {n : Nat} (h : 0 ≤ w.tcpEventStatus) :
    0 ≤ (w.finish n).tcpEventStatus ∧ (w.finish n).tcpEventStatus ≤ w.tcpEventStatus := by
  induction n generalizing w with
  | zero => exact ⟨h, Int.le_refl _⟩
  | succ n ih =>
    have once := tokenEventFinish_le h
    have more := @ih { w with tcpEventStatus := tokenEventFinish w.tcpEventStatus } once.1
    exact ⟨more.1, Int.le_trans more.2 once.2.1⟩

theorem happen_le {p : Waiting} {m : Moment} (h : 0 ≤ p.world.tcpEventStatus) :
    0 ≤ (p.happen m).world.tcpEventStatus ∧
      (p.happen m).world.tcpEventStatus ≤ p.world.tcpEventStatus ∧ (p.happen m).counter = p.counter ∧
      (p.happen m).polls = p.polls := by
  have finished := finish_le (n := m.fires) h
  exact ⟨finished.1, finished.2, rfl, rfl⟩

theorem poll_le {p : Waiting} (env : Stack) (child : Nat) (h : 0 ≤ p.world.tcpEventStatus) :
    0 ≤ (p.poll env child).world.tcpEventStatus ∧
      (p.poll env child).world.tcpEventStatus ≤ p.world.tcpEventStatus ∧
      (p.poll env child).counter = p.counter ∧ (p.poll env child).polls = p.polls + 1 :=
  happen_le h

/-- A call that does nothing to the counters when it gives up. -/
def Plain (giveUp : Waiting → Waiting) : Prop :=
  ∀ p, (giveUp p).world = p.world ∧ (giveUp p).counter = p.counter ∧ (giveUp p).polls = p.polls

theorem plain_id : Plain id := fun _ => ⟨rfl, rfl, rfl⟩

theorem plain_giveUpReceive (initialSize : Nat) : Plain (giveUpReceive initialSize) :=
  fun _ => ⟨rfl, rfl, rfl⟩

/-- A turn in which the call gives up takes one off. -/
theorem finish_less {p q : Waiting} {v : Int} (h : 0 ≤ p.world.tcpEventStatus)
    (le : p.world.tcpEventStatus ≤ v) (some' : 1 ≤ v) (world : q.world = p.world)
    (counter : p.counter ≤ q.counter) :
    0 ≤ q.finish.world.tcpEventStatus ∧ q.finish.left < v.toNat + (socketMaxTries - p.counter) := by
  have once := tokenEventFinish_le h
  have value : q.finish.world.tcpEventStatus = tokenEventFinish p.world.tcpEventStatus := by
    simp only [Waiting.finish, World.finish, world]
  have taken : tokenEventFinish p.world.tcpEventStatus < v := by
    rcases Int.le_iff_lt_or_eq.1 le with lt | eq
    · exact Int.lt_of_le_of_lt once.2.1 lt
    · have less := once.2.2 (by omega)
      omega
  refine ⟨value ▸ once.1, ?_⟩
  have same : q.finish.counter = q.counter := rfl
  simp only [Waiting.left, value, same]
  omega

/-- **The end of a turn** counts a try or takes one off. -/
theorem settle_less {giveUp : Waiting → Waiting} (plain : Plain giveUp) {p : Waiting} {v : Int}
    (h : 0 ≤ p.world.tcpEventStatus) (le : p.world.tcpEventStatus ≤ v) (some' : 1 ≤ v) :
    0 ≤ (settle giveUp p).world.tcpEventStatus ∧ (settle giveUp p).polls = p.polls ∧
      (settle giveUp p).left < v.toNat + (socketMaxTries - p.counter) := by
  unfold settle
  split
  · obtain ⟨world, counter, polls⟩ := plain p
    have less := finish_less h le some' world (Nat.le_of_eq counter.symm)
    exact ⟨less.1, polls, less.2⟩
  · split
    · obtain ⟨world, counter, polls⟩ := plain p.count
      have less := finish_less (p := p) h le some' world (counter ▸ Nat.le_succ p.counter)
      exact ⟨less.1, polls, less.2⟩
    · refine ⟨h, rfl, ?_⟩
      simp only [Waiting.left, Waiting.count]
      omega

/-- A loop whose turns use up what is left. -/
def UsesUp (turn : Waiting → Turn Waiting (Bool × Waiting)) : Prop :=
  ∀ p, 0 ≤ p.world.tcpEventStatus →
    (∃ x, turn p = .leave x ∧ x.2.polls ≤ p.polls + p.left) ∨
      ∃ p', turn p = .again p' ∧ 0 ≤ p'.world.tcpEventStatus ∧ p'.polls = p.polls + 1 ∧
        p'.left < p.left

theorem running_pos {v : Int} (h : 0 ≤ v) (running : tokenEventRunning v = true) : 1 ≤ v := by
  have nonzero : v ≠ 0 := by simpa [tokenEventRunning] using running
  omega

theorem pollTurn_usesUp {giveUp : Waiting → Waiting} (plain : Plain giveUp) (env : Stack)
    (child : Nat) : UsesUp (pollTurn giveUp env child) := by
  intro p h
  unfold pollTurn
  by_cases running : tokenEventRunning p.world.tcpEventStatus = true
  · have some' := running_pos h running
    have polled := poll_le env child h
    simp only [running, Bool.not_true, Bool.false_eq_true, if_false]
    split
    · refine .inl ⟨_, rfl, ?_⟩
      simp only [polled.2.2.2, Waiting.left]
      omega
    · have later := happen_le (m := env.atEvents p.polls) polled.1
      have less := settle_less plain later.1 (Int.le_trans later.2.1 polled.2.1) some'
      refine .inr ⟨_, rfl, less.1, ?_, ?_⟩
      · rw [less.2.1, later.2.2.2, polled.2.2.2]
      · rw [later.2.2.1, polled.2.2.1] at less
        exact less.2.2
  · simp only [running, Bool.not_false, if_true]
    exact .inl ⟨_, rfl, Nat.le_add_right _ _⟩

theorem transmitTurn_usesUp (env : Stack) (child : Nat) : UsesUp (transmitTurn env child) := by
  intro p h
  unfold transmitTurn
  by_cases running : tokenEventRunning p.world.tcpEventStatus = true
  · have some' := running_pos h running
    have polled := poll_le env child h
    simp only [running, Bool.not_true, Bool.false_eq_true, if_false]
    split
    · refine .inl ⟨_, rfl, ?_⟩
      simp only [polled.2.2.2, Waiting.left]
      omega
    · have less := settle_less plain_id polled.1 polled.2.1 some'
      have later := happen_le (m := env.atEvents p.polls) less.1
      refine .inr ⟨_, rfl, later.1, ?_, ?_⟩
      · rw [later.2.2.2, less.2.1, polled.2.2.2]
      · rw [polled.2.2.1] at less
        have rest := less.2.2
        simp only [Waiting.left, later.2.2.1] at rest ⊢
        omega
  · simp only [running, Bool.not_false, if_true]
    exact .inl ⟨_, rfl, Nat.le_add_right _ _⟩

/-- **The loop** ends before more turns than are left. -/
theorem UsesUp.ends {turn : Waiting → Turn Waiting (Bool × Waiting)} (h : UsesUp turn) {p : Waiting}
    (start : 0 ≤ p.world.tcpEventStatus) :
    ∃ x, Loop.Leaves turn p x ∧ x.2.polls ≤ p.polls + p.left := by
  apply Loop.leaves_of_decreasing Waiting.left (P := fun q =>
    0 ≤ q.world.tcpEventStatus ∧ q.polls + q.left ≤ p.polls + p.left)
  · rintro q ⟨nonneg, le⟩
    rcases h q nonneg with ⟨x, left, polls⟩ | ⟨q', again, nonneg', polls, less⟩
    · exact .inl ⟨x, left, Nat.le_trans polls le⟩
    · exact .inr ⟨q', again, ⟨nonneg', by omega⟩, less⟩
  · exact ⟨start, Nat.le_refl _⟩

/-- The state in which a loop is entered, the call having been made with `TCPEventStatus` at `c`. -/
theorem requested_left (env : Stack) (child : Nat) (method : Method) (event : Option Nat)
    (length : Nat) (closed : Bool) {w : World} (h : 0 ≤ w.tcpEventStatus) :
    0 ≤ (requested env child method event length closed w.start).world.tcpEventStatus ∧
      (requested env child method event length closed w.start).polls = 0 ∧
      (requested env child method event length closed w.start).left ≤
        w.tcpEventStatus.toNat + 1 + socketMaxTries := by
  have counted : 0 ≤ (w.start.call (.child child method)).tcpEventStatus := by
    simp only [World.start, World.call, tokenEventStart]
    omega
  have finished := finish_le (n := env.atRequest.fires) counted
  refine ⟨finished.1, rfl, ?_⟩
  have le : (requested env child method event length closed w.start).world.tcpEventStatus ≤
      w.tcpEventStatus + 1 := finished.2
  simp only [Waiting.left]
  omega

/-- **Waiting is bounded**: the polling loops of `Connect`, `Transmit` and `Receive` end after at
most `SOCKET_MAX_TRIES + c + 2` polls. -/
theorem polling_bounded (env : Stack) (child : Nat) (event : Option Nat) (initialSize : Nat)
    (closed : Bool) (w : World) (h : 0 ≤ w.tcpEventStatus) :
    (∃ x, Loop.Leaves (connectTurn env child)
        (requested env child .connect event 0 closed w.start) x ∧
      (x.2.polls : Int) ≤ socketMaxTries + w.tcpEventStatus + 2) ∧
    (∃ x, Loop.Leaves (transmitTurn env child)
        (requested env child .transmit event 0 closed w.start) x ∧
      (x.2.polls : Int) ≤ socketMaxTries + w.tcpEventStatus + 2) ∧
    ∃ x, Loop.Leaves (receiveTurn initialSize env child)
        (requested env child .receive event (asUint32 initialSize) closed w.start) x ∧
      (x.2.polls : Int) ≤ socketMaxTries + w.tcpEventStatus + 2 := by
  have bound : ∀ {turn : Waiting → Turn Waiting (Bool × Waiting)} {method : Method} {length : Nat},
      UsesUp turn → ∃ x, Loop.Leaves turn
          (requested env child method event length closed w.start) x ∧
        (x.2.polls : Int) ≤ socketMaxTries + w.tcpEventStatus + 2 := by
    intro turn method length uses
    obtain ⟨nonneg, polls, left⟩ := requested_left env child method event length closed h
    obtain ⟨x, leaves, le⟩ := uses.ends nonneg
    exact ⟨x, leaves, by omega⟩
  exact ⟨bound (pollTurn_usesUp plain_id env child), bound (transmitTurn_usesUp env child),
    bound (pollTurn_usesUp (plain_giveUpReceive initialSize) env child)⟩

/-- After three leaks a connection that nobody answers is given up within 40005 polls. -/
theorem silent_connect_bounded :
    (0 : Int) ≤ 3 ∧ ∃ x, Loop.Leaves (connectTurn .silent 0)
      (requested .silent 0 .connect (some 0) 0 false (World.start ⟨3, 1, 0, []⟩)) x ∧
      (x.2.polls : Int) ≤ 40005 := by
  refine ⟨by decide, ?_⟩
  exact (polling_bounded .silent 0 (some 0) 0 false ⟨3, 1, 0, []⟩ (by decide)).1

end Lavoro.Net.Traced
