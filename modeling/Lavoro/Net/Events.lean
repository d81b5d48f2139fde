import Mathlib.Data.List.Count
import Lavoro.Lib.Reach
import Lavoro.Net.Traced

/-!
# Every event is closed exactly once

`Connect`, `Transmit` and `Receive` make at most one event each. Between its creation and its end a
call only calls methods of its child (`Quiet`), and each of its returns behind a successful creation
goes through one `CloseEvent` (`Paired`).
-/

namespace Lavoro.Net.Traced
open Lib

/-! ## What a call says -/

/-- Only methods of children are called, and no event is made. -/
structure Quiet (w w' : World) : Prop where
  calls : ∃ calls, w'.log = w.log ++ calls ∧ ∀ c ∈ calls, ∃ child method, c = .child child method
  events : w'.events = w.events
  children : w'.children = w.children

namespace Quiet

variable {w w' w'' : World}

/-- What changes no log. -/
theorem of_same (log : w'.log = w.log) (events : w'.events = w.events)
    (children : w'.children = w.children) : Quiet w w' :=
  ⟨⟨[], by rw [log, List.append_nil], fun c mem => by cases mem⟩, events, children⟩

theorem refl (w : World) : Quiet w w := of_same rfl rfl rfl

theorem trans (h : Quiet w w') (h' : Quiet w' w'') : Quiet w w'' := by
  obtain ⟨calls, log, silent⟩ := h.calls
  obtain ⟨calls', log', silent'⟩ := h'.calls
  refine ⟨⟨calls ++ calls', by rw [log', log, List.append_assoc], ?_⟩, h'.events.trans h.events,
    h'.children.trans h.children⟩
  intro c mem
  rcases List.mem_append.1 mem with first | second
  · exact silent c first
  · exact silent' c second

theorem child (w : World) (number : Nat) (method : Method) :
    Quiet w (w.call (.child number method)) := by
  refine ⟨⟨[.child number method], rfl, ?_⟩, rfl, rfl⟩
  intro c mem
  exact ⟨number, method, List.mem_singleton.1 mem⟩

theorem start (w : World) : Quiet w w.start := of_same rfl rfl rfl

theorem finish (w : World) (n : Nat) : Quiet w (w.finish n) := by
  induction n generalizing w with
  | zero => exact refl w
  | succ n ih =>
    have once : Quiet w { w with tcpEventStatus := tokenEventFinish w.tcpEventStatus } :=
      of_same rfl rfl rfl
    exact once.trans (ih _)

end Quiet

/-- A turn of the wait goes on quietly, with the event it has. -/
structure Waiting.Goes (p q : Waiting) : Prop where
  quiet : Quiet p.world q.world
  event : q.event = p.event

namespace Waiting.Goes

variable {p q r : Waiting}

theorem refl (p : Waiting) : p.Goes p := ⟨Quiet.refl p.world, rfl⟩

theorem trans (h : p.Goes q) (h' : q.Goes r) : p.Goes r :=
  ⟨h.quiet.trans h'.quiet, h'.event.trans h.event⟩

theorem happen (p : Waiting) (m : Moment) : p.Goes (p.happen m) := ⟨Quiet.finish p.world m.fires, rfl⟩

theorem poll (p : Waiting) (env : Stack) (child : Nat) : p.Goes (p.poll env child) := by
  have said : p.Goes { p with world := p.world.call (.child child .poll), polls := p.polls + 1 } :=
    ⟨Quiet.child p.world child .poll, rfl⟩
  exact said.trans (happen _ (env.atPoll p.polls))

theorem finish (p : Waiting) : p.Goes p.finish := ⟨Quiet.finish p.world 1, rfl⟩

theorem settle {giveUp : Waiting → Waiting} (mild : ∀ p : Waiting, p.Goes (giveUp p)) (p : Waiting) :
    p.Goes (Traced.settle giveUp p) := by
  have counted : p.Goes p.count := ⟨Quiet.refl p.world, rfl⟩
  unfold Traced.settle
  split
  · exact (mild p).trans (finish _)
  · split
    · exact counted.trans ((mild p.count).trans (finish _))
    · exact counted

end Waiting.Goes

/-- A loop that goes on quietly. -/
def GoesOn (turn : Waiting → Turn Waiting (Bool × Waiting)) : Prop :=
  ∀ p, (∀ q, turn p = .again q → p.Goes q) ∧ ∀ x, turn p = .leave x → p.Goes x.2

theorem pollTurn_goesOn {giveUp : Waiting → Waiting} (mild : ∀ p : Waiting, p.Goes (giveUp p))
    (env : Stack) (child : Nat) : GoesOn (pollTurn giveUp env child) := by
  intro p
  have polled := Waiting.Goes.poll p env child
  have later := polled.trans (.happen (p.poll env child) (env.atEvents p.polls))
  unfold pollTurn
  split
  · refine ⟨fun q eq => (by cases eq), fun x eq => ?_⟩
    cases eq
    exact .refl p
  · split
    · refine ⟨fun q eq => (by cases eq), fun x eq => ?_⟩
      cases eq
      exact polled
    · refine ⟨fun q eq => ?_, fun x eq => by cases eq⟩
      cases eq
      exact later.trans (.settle mild _)

theorem connectTurn_goesOn (env : Stack) (child : Nat) : GoesOn (connectTurn env child) :=
  pollTurn_goesOn (fun p => .refl p) env child

theorem receiveTurn_goesOn (initialSize : Nat) (env : Stack) (child : Nat) :
    GoesOn (receiveTurn initialSize env child) := by
  have mild : ∀ p : Waiting, p.Goes (giveUpReceive initialSize p) :=
    fun p => ⟨Quiet.refl p.world, rfl⟩
  exact pollTurn_goesOn mild env child

theorem transmitTurn_goesOn (env : Stack) (child : Nat) : GoesOn (transmitTurn env child) := by
  intro p
  have polled := Waiting.Goes.poll p env child
  have settled := polled.trans (.settle (fun q => .refl q) (p.poll env child))
  unfold transmitTurn
  split
  · refine ⟨fun q eq => (by cases eq), fun x eq => ?_⟩
    cases eq
    exact .refl p
  · split
    · refine ⟨fun q eq => (by cases eq), fun x eq => ?_⟩
      cases eq
      exact polled
    · refine ⟨fun q eq => ?_, fun x eq => by cases eq⟩
      cases eq
      exact settled.trans (.happen _ _)

theorem GoesOn.run {turn : Waiting → Turn Waiting (Bool × Waiting)} (h : GoesOn turn) {fuel : Nat}
    {p : Waiting} {x : Bool × Waiting} (run : Loop.run turn fuel p = some x) : p.Goes x.2 := by
  have again : ∀ q q', p.Goes q → turn q = .again q' → p.Goes q' :=
    fun q q' goes taken => goes.trans ((h q).1 q' taken)
  have leave : ∀ q x, p.Goes q → turn q = .leave x → p.Goes x.2 :=
    fun q x goes left => goes.trans ((h q).2 x left)
  exact Loop.run_keeps (Q := fun x => p.Goes x.2) again leave (.refl p) run

/-- What a call does about its event: it makes none, fails to make it, or makes it and closes it. -/
inductive Paired (w w' : World) : Prop where
  | nothing (quiet : Quiet w w')
  | failed (v : World) (before : Quiet w v) (after : Quiet (v.call (.createEvent none)) w')
  | closed (u v : World) (before : Quiet w u)
      (between : Quiet { u.call (.createEvent (some u.events)) with events := u.events + 1 } v)
      (after : w' = v.call (.closeEvent (some u.events)))

namespace Paired

variable {w v w' : World}

theorem after_quiet (before : Quiet w v) (h : Paired v w') : Paired w w' := by
  cases h with
  | nothing quiet => exact .nothing (before.trans quiet)
  | failed u before' after => exact .failed u (before.trans before') after
  | closed u u' before' between after => exact .closed u u' (before.trans before') between after

end Paired

/-- `CreateEvent` has failed. -/
theorem createEvent_failed {w : World} {status : EfiStatus} (failed : efiError status = true) :
    Paired w (w.createEvent status).2 := by
  rw [World.createEvent, if_pos failed]
  exact .failed w (.refl w) (.refl _)

/-- `CreateEvent` has succeeded, and what follows ends with `CloseEvent`. -/
theorem createEvent_closed {w : World} {status : EfiStatus} {p : Waiting}
    (created : efiError status = false) (quiet : Quiet (w.createEvent status).2 p.world)
    (event : p.event = (w.createEvent status).1) : Paired w p.closeEvent := by
  simp only [World.createEvent, created, Bool.false_eq_true, if_false] at quiet event
  refine .closed w p.world (.refl w) quiet ?_
  rw [Waiting.closeEvent, event]

/-- The state behind the request. -/
theorem requested_goes (env : Stack) (child : Nat) (method : Method) (event : Option Nat)
    (length : Nat) (closed : Bool) (w : World) :
    Quiet w (requested env child method event length closed w).world ∧
      (requested env child method event length closed w).event = event :=
  ⟨(Quiet.child w child method).trans (Quiet.finish _ _), rfl⟩

/-! ## The calls -/

theorem connectMapping_quiet {env : Stack} {child fuel i : Nat} {w : World} {r : Bool × World}
    (h : connectMapping env child fuel i w = some r) : Quiet w r.2 := by
  induction fuel generalizing i w with
  | zero => cases h
  | succ fuel ih =>
    have asked := Quiet.child w child .getModeData
    unfold connectMapping at h
    simp only at h
    split at h
    · cases h
      exact asked
    · split at h
      · cases h
        exact asked
      · split at h
        · cases h
          exact asked
        · exact asked.trans (ih h)

theorem reconfigure_quiet (env : Stack) (child : Nat) (status : EfiStatus) (w : World) :
    Quiet w (reconfigure env child status w).2 := by
  unfold reconfigure
  split
  · exact (Quiet.child w child .configure).trans (Quiet.child _ child .configure)
  · exact Quiet.refl w

theorem connectConfigure_quiet {env : Stack} {child fuel : Nat} {w : World} {r : Bool × World}
    (h : connectConfigure env child fuel w = some r) : Quiet w r.2 := by
  have first := Quiet.child w child .configure
  unfold connectConfigure at h
  simp only at h
  split at h
  · obtain ⟨⟨goes, v⟩, mapped, rest⟩ := Option.bind_eq_some_iff.1 h
    have waited := first.trans (connectMapping_quiet mapped)
    simp only at rest
    split at rest
    · cases rest
      exact waited.trans ((Quiet.child v child .configure).trans (reconfigure_quiet _ _ _ _))
    · cases rest
      exact waited
  · cases h
    exact first.trans (reconfigure_quiet _ _ _ _)

/-- **`Connect` and `Transmit`** from `CreateEvent` on. -/
theorem awaitRequest_paired {turn : Waiting → Turn Waiting (Bool × Waiting)} (goesOn : GoesOn turn)
    {env : Stack} {child fuel : Nat} {method : Method} {closed : Bool} {w : World} {r : Bool × World}
    (h : awaitRequest turn env child method closed fuel w = some r) : Paired w r.2 := by
  unfold awaitRequest at h
  simp only at h
  split at h
  · rename_i failed
    cases h
    exact createEvent_failed failed
  · rename_i notFailed
    have created := Bool.eq_false_iff.2 notFailed
    have goes := requested_goes env child method (w.createEvent env.createEvent).1 0 closed
      (w.createEvent env.createEvent).2.start
    have begun := (Quiet.start (w.createEvent env.createEvent).2).trans goes.1
    split at h
    · cases h
      exact createEvent_closed created begun goes.2
    · obtain ⟨x, run, rfl⟩ := Option.map_eq_some_iff.1 h
      have waited := goesOn.run run
      exact createEvent_closed created (begun.trans waited.quiet) (waited.event.trans goes.2)

theorem connect_paired {s : LSocket} {env : Stack} {fuel : Nat} {w : World} {r : Bool × World}
    (h : connect s env fuel w = some r) : Paired w r.2 := by
  unfold connect at h
  split at h
  · cases h
    exact .nothing (Quiet.refl w)
  · rename_i child _
    obtain ⟨⟨goes, v⟩, configured, rest⟩ := Option.bind_eq_some_iff.1 h
    have quiet := connectConfigure_quiet configured
    simp only at rest
    split at rest
    · exact (awaitRequest_paired (connectTurn_goesOn env child) rest).after_quiet quiet
    · cases rest
      exact .nothing quiet

theorem transmit_paired {s : LSocket} {env : Stack} {fuel : Nat} {w : World} {r : Bool × World}
    (h : transmit s env fuel w = some r) : Paired w r.2 := by
  unfold transmit at h
  split at h
  · cases h
    exact .nothing (Quiet.refl w)
  · rename_i child _
    exact awaitRequest_paired (transmitTurn_goesOn env child) h

theorem received_world (env : Stack) (x : Bool × Waiting) : (received env x).2 = x.2.closeEvent := by
  unfold received
  split <;> rfl

theorem receive_paired {s : LSocket} {env : Stack} {initialSize fuel : Nat} {w : World}
    {r : Received × World} (h : receive s env initialSize fuel w = some r) : Paired w r.2 := by
  have begun := Quiet.start w
  unfold receive at h
  split at h
  · cases h
    exact .nothing (Quiet.refl w)
  · rename_i child _
    split at h
    · cases h
      exact .nothing (Quiet.refl w)
    · simp only at h
      split at h
      · rename_i failed
        cases h
        exact (createEvent_failed failed).after_quiet begun
      · rename_i notFailed
        have created := Bool.eq_false_iff.2 notFailed
        have goes := requested_goes env child .receive (w.start.createEvent env.createEvent).1
          (asUint32 initialSize) s.closed (w.start.createEvent env.createEvent).2
        have early := (createEvent_closed created goes.1 goes.2).after_quiet begun
        split at h
        · -- `EFI_CONNECTION_FIN`
          cases h
          exact early
        · split at h
          · cases h
            exact early
          · obtain ⟨x, run, rfl⟩ := Option.map_eq_some_iff.1 h
            have waited := (receiveTurn_goesOn initialSize env child).run run
            rw [received_world]
            exact (createEvent_closed created (goes.1.trans waited.quiet)
              (waited.event.trans goes.2)).after_quiet begun

/-! ## Runs of calls -/

/-- What there is in the firmware, and the sockets by number. -/
structure Network where
  world : World
  sockets : Nat → LSocket

/-- A call on a socket, with what the firmware does in it. -/
inductive Call where
  | connect (socket : Nat) (env : Stack)
  | transmit (socket : Nat) (env : Stack)
  | receive (socket : Nat) (env : Stack) (initialSize : Nat)

/-- A call, with at most `fuel` turns of its loops. -/
def perform (fuel : Nat) (s : Network) : Call → Option Network
  | .connect i env =>
    (connect (s.sockets i) env fuel s.world).map fun r => { s with world := r.2 }
  | .transmit i env =>
    (transmit (s.sockets i) env fuel s.world).map fun r => { s with world := r.2 }
  | .receive i env initialSize =>
    (receive (s.sockets i) env initialSize fuel s.world).map fun r =>
      { world := r.2
        sockets := fun j => if j = i then { s.sockets i with closed := r.1.closed } else s.sockets j }

/-- A call from its beginning to its end. -/
def Step (s : Network) (a : Call) (t : Network) : Prop := ∃ fuel, perform fuel s a = some t

theorem Step.paired {s t : Network} {a : Call} (h : Step s a t) : Paired s.world t.world := by
  obtain ⟨fuel, run⟩ := h
  cases a with
  | connect i env =>
    obtain ⟨r, ends, rfl⟩ := Option.map_eq_some_iff.1 run
    exact connect_paired ends
  | transmit i env =>
    obtain ⟨r, ends, rfl⟩ := Option.map_eq_some_iff.1 run
    exact transmit_paired ends
  | receive i env initialSize =>
    obtain ⟨r, ends, rfl⟩ := Option.map_eq_some_iff.1 run
    exact receive_paired ends

/-- No event has been made yet. -/
def Fresh (s : Network) : Prop := s.world.events = 0 ∧ s.world.log = []

/-- Of the events there have been each was made once and closed once; none else was closed. -/
structure Clean (w : World) : Prop where
  made : ∀ e, w.log.count (.createEvent (some e)) = if e < w.events then 1 else 0
  closed : ∀ e, w.log.count (.closeEvent (some e)) = if e < w.events then 1 else 0
  nothing : w.log.count (.closeEvent none) = 0

section Clean

variable {w w' : World}

/-- Calls to children count for nothing. -/
theorem Quiet.count (h : Quiet w w') {c : FwCall} (other : ∀ child method, c ≠ .child child method) :
    w'.log.count c = w.log.count c := by
  obtain ⟨calls, log, silent⟩ := h.calls
  have none' : calls.count c = 0 := by
    apply List.count_eq_zero.2
    intro mem
    obtain ⟨child, method, eq⟩ := silent c mem
    exact other child method eq
  rw [log, List.count_append, none', Nat.add_zero]

theorem Clean.quiet (h : Clean w) (quiet : Quiet w w') : Clean w' := by
  refine ⟨fun e => ?_, fun e => ?_, ?_⟩
  · rw [quiet.count (fun _ _ eq => by cases eq), quiet.events]
    exact h.made e
  · rw [quiet.count (fun _ _ eq => by cases eq), quiet.events]
    exact h.closed e
  · rw [quiet.count (fun _ _ eq => by cases eq)]
    exact h.nothing

theorem Clean.failed (h : Clean w) : Clean (w.call (.createEvent none)) := by
  refine ⟨fun e => ?_, fun e => ?_, ?_⟩
  · rw [World.call, List.count_append, h.made e]
    simp
  · rw [World.call, List.count_append, h.closed e]
    simp
  · rw [World.call, List.count_append, h.nothing]
    simp

/-- An event that is made and closed. -/
theorem Clean.pair (h : Clean w)
    (between : Quiet { w.call (.createEvent (some w.events)) with events := w.events + 1 } w') :
    Clean (w'.call (.closeEvent (some w.events))) := by
  have numbers : w'.events = w.events + 1 := between.events
  have step : ∀ e, (if e < w.events + 1 then 1 else 0) =
      (if e < w.events then 1 else 0) + if w.events = e then 1 else 0 := by
    intro e
    split <;> split <;> split <;> omega
  refine ⟨fun e => ?_, fun e => ?_, ?_⟩
  · simp only [World.call, numbers, List.count_append, step]
    rw [between.count (fun _ _ eq => by cases eq)]
    simp [World.call, List.count_append, h.made e, List.count_singleton]
  · simp only [World.call, numbers, List.count_append, step]
    rw [between.count (fun _ _ eq => by cases eq)]
    simp [World.call, List.count_append, h.closed e, List.count_singleton]
  · simp only [World.call, List.count_append]
    rw [between.count (fun _ _ eq => by cases eq)]
    simp [World.call, List.count_append, h.nothing]

theorem Clean.paired (h : Clean w) (paired : Paired w w') : Clean w' := by
  cases paired with
  | nothing quiet => exact h.quiet quiet
  | failed v before after => exact (h.quiet before).failed.quiet after
  | closed u v before between after =>
    rw [after]
    exact (h.quiet before).pair between

end Clean

theorem Paired.extends {w w' : World} (h : Paired w w') : ∃ calls, w'.log = w.log ++ calls := by
  cases h with
  | nothing quiet => exact quiet.calls.imp fun _ h => h.1
  | failed v before after =>
    obtain ⟨calls, log, -⟩ := before.calls
    obtain ⟨calls', log', -⟩ := after.calls
    exact ⟨calls ++ .createEvent none :: calls', by simp [log', World.call, log]⟩
  | closed u v before between after =>
    obtain ⟨calls, log, -⟩ := before.calls
    obtain ⟨calls', log', -⟩ := between.calls
    refine ⟨calls ++ .createEvent (some u.events) :: calls' ++ [.closeEvent (some u.events)], ?_⟩
    simp [after, World.call, log', log]

theorem fresh_clean {s : Network} (h : Fresh s) : Clean s.world := by
  obtain ⟨events, log⟩ := h
  refine ⟨fun e => ?_, fun e => ?_, ?_⟩ <;> simp [events, log]

/-- What a call has created it has closed. -/
theorem Clean.call {s t : Network} {a : Call} (h : Clean s.world) (taken : Step s a t) :
    ∃ calls, t.world.log = s.world.log ++ calls ∧
      ∀ e, .createEvent (some e) ∈ calls → calls.count (.closeEvent (some e)) = 1 := by
  obtain ⟨calls, log⟩ := taken.paired.extends
  refine ⟨calls, log, ?_⟩
  intro e created
  have after := h.paired taken.paired
  have made := after.made e
  have closed := after.closed e
  rw [log, List.count_append, h.made e] at made
  rw [log, List.count_append, h.closed e] at closed
  have some' : 0 < calls.count (.createEvent (some e)) := List.count_pos_iff.2 created
  have new : e < t.world.events := by
    apply Classical.byContradiction
    intro never
    rw [if_neg never] at made
    omega
  have old : ¬ e < s.world.events := by
    intro before
    rw [if_pos before, if_pos new] at made
    omega
  rw [if_neg old, if_pos new] at closed
  omega

/-- **No event is leaked or closed twice.** In every run of calls each event that has been created
has been closed exactly once, by the call that created it, and nothing is closed that was not
created. -/
theorem events_closed_once {s : Network} (h : Reach Step (fun _ _ => True) Fresh s) :
    (∀ e, .createEvent (some e) ∈ s.world.log → s.world.log.count (.closeEvent (some e)) = 1) ∧
      .closeEvent none ∉ s.world.log ∧
      ∀ a t, Step s a t → ∃ calls, t.world.log = s.world.log ++ calls ∧
        ∀ e, .createEvent (some e) ∈ calls → calls.count (.closeEvent (some e)) = 1 := by
  have clean : Clean s.world := h.invariant (fun s => Clean s.world) (fun _ start => fresh_clean start)
    fun _ _ _ clean _ taken => clean.paired taken.paired
  refine ⟨?_, List.count_eq_zero.1 clean.nothing, fun a t taken => clean.call taken⟩
  intro e created
  have some' : 0 < s.world.log.count (.createEvent (some e)) := List.count_pos_iff.2 created
  rw [clean.made e] at some'
  have made : e < s.world.events := by
    apply Classical.byContradiction
    intro never
    rw [if_neg never] at some'
    omega
  rw [clean.closed e, if_pos made]

/-- The firmware refuses every request. -/
def Stack.refusing : Stack := { Stack.silent with request := efiDeviceError }

/-- Every socket has a child. -/
def openSockets : Network := ⟨⟨0, 0, 0, []⟩, fun i => ⟨true, true, some i, some i, false⟩⟩

/-- A transmission that is refused. -/
theorem refused_event_closed :
    ∃ s, perform 0 openSockets (.transmit 0 .refusing) = some s ∧
      .createEvent (some 0) ∈ s.world.log ∧ s.world.log.count (.closeEvent (some 0)) = 1 := by
  have ends : (perform 0 openSockets (.transmit 0 .refusing)).map (fun s => s.world.log) =
      some [.createEvent (some 0), .child 0 .transmit, .closeEvent (some 0)] := by decide
  obtain ⟨s, run, log⟩ := Option.map_eq_some_iff.1 ends
  have created : .createEvent (some 0) ∈ s.world.log := by rw [log]; decide
  have reach : Reach Step (fun _ _ => True) Fresh s := .next (.start ⟨rfl, rfl⟩) trivial ⟨0, run⟩
  exact ⟨s, run, created, (events_closed_once reach).1 0 created⟩

end Lavoro.Net.Traced
