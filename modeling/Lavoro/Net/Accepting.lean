import Lavoro.Net.Children

/-!
# The wait of the accept command (`main.cpp`, `lsocket.cpp`)

`accept` makes a socket, sets `TCPAcceptStatus` to 0, calls `Accept()` without looking at its result,
waits for a key and then calls `DoEvents()` for as long as the flag is 0. Only the end of
`TCPConnectionAccepted` sets the flag, and only there the event is closed.
-/

namespace Lavoro.Net.Traced
open Lib

/-- What the firmware does during an accept command: what it answers to `Accept()`, and the moment
it completes the token at, if ever, with what the callback finds then. Moment 0 is `WaitForEvent`,
moment `k` the `k`-th `DoEvents()`. -/
structure Accepting where
  stack : Stack
  callback : Option (Nat × Callback)

/-- The moment `k`: whether `TCPAcceptStatus` is set. `pending` is the event of a token that
`Child->Accept` has taken. -/
def happens (a : Accepting) (pending : Option Nat) (fuel k : Nat) (w : World) : Option (Bool × World) :=
  match pending, a.callback with
  | some event, some (m, cb) =>
    if k = m then connectionAccepted cb (some event) fuel w else some (false, w)
  | _, _ => some (false, w)

/-- `while (!TCPAcceptStatus) DoEvents()`, with its tests counted: `k` moments after the wait for
the key have passed. -/
def waitAccepted (a : Accepting) (pending : Option Nat) (fuel : Nat) :
    Nat → Nat → Bool → World → Option World
  | 0, _, _, _ => none
  | tests + 1, k, tcpAcceptStatus, w =>
    if tcpAcceptStatus then some w
    else do
      let (status, w) ← happens a pending fuel (k + 1) w
      waitAccepted a pending fuel tests (k + 1) status w

/-- The command up to the return of `Accept()`. -/
def acceptBegun (o : Construction) (a : Accepting) (fuel : Nat) (w : World) :
    Option (LSocket × Bool × Option Nat × World) :=
  let (s, w) := LSocket.construct o w
  (accept s a.stack fuel w).map fun x => (s, x)

/-- The token that waits behind `Accept()`. A request that is refused leaves none. -/
def pendingEvent (accepted : Bool) (event : Option Nat) : Option Nat := if accepted then event else none

/-- The command `accept`, whose loop makes at most `tests` tests. -/
def acceptCommand (o : Construction) (a : Accepting) (fuel tests : Nat) (w : World) : Option World := do
  let (s, accepted, event, w) ← acceptBegun o a fuel w
  let pending := pendingEvent accepted event
  let (status, w) ← happens a pending fuel 0 w
  let w ← waitAccepted a pending fuel tests 0 status w
  some (s.destroy w)

/-- `Accept()` has returned `false`, or the callback has run and returned, at the moment `m`. -/
inductive Over (a : Accepting) (fuel : Nat) (event : Option Nat) (w : World) : Bool → Nat → Prop where
  | refused : Over a fuel event w false 0
  | called (m : Nat) (cb : Callback) (number : Nat) (callback : a.callback = some (m, cb))
      (created : event = some number) (returned : (connectionAccepted cb event fuel w).isSome = true) :
      Over a fuel event w true m

/-- The loop leaves at the test behind the moment `m`, and the event has been closed exactly once. -/
def LeavesAt (o : Construction) (a : Accepting) (fuel : Nat) (w : World) (event : Option Nat)
    (m : Nat) : Prop :=
  ∃ w' number, acceptCommand o a fuel (m + 1) w = some w' ∧ event = some number ∧
    w'.log.count (.closeEvent (some number)) = 1

/-- What the last step of the configuration is behind. -/
def Stack.acceptStatus (env : Stack) : EfiStatus :=
  if env.configure = efiNoMapping then env.mapped else env.configure

/-- The socket has its child, the configuration and the request succeed, and where there is an
event, the token and `OpenProtocol` are fine. -/
structure Smooth (o : Construction) (a : Accepting) : Prop where
  made : o.createChild = efiSuccess ∧ o.openChild = efiSuccess
  configured : a.stack.acceptStatus = efiAccessDenied → efiError a.stack.reconfigured = false
  request : efiError a.stack.request = false
  callback : efiError a.stack.createEvent = false → ∀ m cb, a.callback = some (m, cb) →
    efiError cb.status = false ∧ efiError cb.openProtocol = false

/-! ## The log of an accept -/

/-- The log goes on without closing the event, and no event is taken back. -/
structure LeavesOpen (number : Nat) (w w' : World) : Prop where
  calls : ∃ calls, w'.log = w.log ++ calls ∧ .closeEvent (some number) ∉ calls
  events : w.events ≤ w'.events

namespace LeavesOpen

variable {number : Nat} {w w' w'' : World}

theorem of_same (log : w'.log = w.log) (events : w'.events = w.events) : LeavesOpen number w w' :=
  ⟨⟨[], by rw [log, List.append_nil], List.not_mem_nil⟩, Nat.le_of_eq events.symm⟩

theorem trans (h : LeavesOpen number w w') (h' : LeavesOpen number w' w'') : LeavesOpen number w w'' := by
  obtain ⟨calls, log, spared⟩ := h.calls
  obtain ⟨calls', log', spared'⟩ := h'.calls
  refine ⟨⟨calls ++ calls', by rw [log', log, List.append_assoc], ?_⟩, Nat.le_trans h.events h'.events⟩
  intro mem
  rcases List.mem_append.1 mem with first | second
  · exact spared first
  · exact spared' second

theorem call (w : World) {c : FwCall} (other : c ≠ .closeEvent (some number)) :
    LeavesOpen number w (w.call c) := by
  refine ⟨⟨[c], rfl, ?_⟩, Nat.le_refl _⟩
  intro mem
  exact other (List.mem_singleton.1 mem).symm

theorem of_quiet (h : Quiet w w') : LeavesOpen number w w' := by
  obtain ⟨calls, log, silent⟩ := h.calls
  refine ⟨⟨calls, log, ?_⟩, Nat.le_of_eq h.events.symm⟩
  intro mem
  obtain ⟨child, method, eq⟩ := silent _ mem
  cases eq

/-- A call closes the event it has made, which is a later one. -/
theorem of_paired (before : number < w.events) (h : Paired w w') : LeavesOpen number w w' := by
  cases h with
  | nothing quiet => exact of_quiet quiet
  | failed v first after =>
    exact (of_quiet first).trans ((call v fun eq => by cases eq).trans (of_quiet after))
  | closed u v first between after =>
    have later : number < u.events := Nat.lt_of_lt_of_eq before first.events.symm
    have created : LeavesOpen number u
        { u.call (.createEvent (some u.events)) with events := u.events + 1 } := by
      have said : LeavesOpen number u (u.call (.createEvent (some u.events))) :=
        call u fun eq => by cases eq
      exact ⟨said.calls, Nat.le_succ _⟩
    rw [after]
    refine (of_quiet first).trans (created.trans ((of_quiet between).trans (call v ?_)))
    intro eq
    injection eq with eq
    injection eq with eq
    omega

theorem count (h : LeavesOpen number w w') :
    w'.log.count (.closeEvent (some number)) = w.log.count (.closeEvent (some number)) := by
  obtain ⟨calls, log, spared⟩ := h.calls
  rw [log, List.count_append, List.count_eq_zero.2 spared, Nat.add_zero]

end LeavesOpen

theorem construct_leavesOpen (number : Nat) (o : Construction) (w : World) :
    LeavesOpen number w (LSocket.construct o w).2 := by
  unfold LSocket.construct
  split
  · exact .call w fun eq => by cases eq
  · have said : LeavesOpen number w (w.call (.createChild o.bound (some w.children))) :=
      .call w fun eq => by cases eq
    have made : LeavesOpen number w
        { w.call (.createChild o.bound (some w.children)) with children := w.children + 1 } :=
      ⟨said.calls, said.events⟩
    simp only
    split
    · exact made.trans (.call _ fun eq => by cases eq)
    · exact made

theorem destroy_leavesOpen (number : Nat) (s : LSocket) (w : World) :
    LeavesOpen number w (s.destroy w) := by
  unfold LSocket.destroy
  cases s.handle with
  | none =>
    cases s.child with
    | none => exact .of_same rfl rfl
    | some child => exact .call w fun eq => by cases eq
  | some handle =>
    have destroyed : LeavesOpen number w (w.call (.destroyChild s.serviceBinding handle)) :=
      .call w fun eq => by cases eq
    cases s.child with
    | none => exact destroyed
    | some child => exact destroyed.trans (.call _ fun eq => by cases eq)

theorem receives_leavesOpen {number fuel : Nat} {receives : List (Stack × Nat)} {x y : LSocket × World}
    (before : number < x.2.events) (h : receives.foldlM (receiveOn fuel) x = some y) :
    LeavesOpen number x.2 y.2 := by
  induction receives generalizing x with
  | nil =>
    cases h
    exact .of_same rfl rfl
  | cons r receives ih =>
    rw [List.foldlM_cons] at h
    obtain ⟨z, first, later⟩ := Option.bind_eq_some_iff.1 h
    obtain ⟨v, received, rfl⟩ := Option.map_eq_some_iff.1 first
    have once := LeavesOpen.of_paired before (receive_paired received)
    exact once.trans (ih (Nat.lt_of_lt_of_le before once.events) later)

/-- With an error of the token or of `OpenProtocol` the callback returns with the flag unset. -/
theorem connectionAccepted_early {cb : Callback} (event : Option Nat) (fuel : Nat) (w : World)
    (failed : efiError cb.status = true ∨ efiError cb.openProtocol = true) :
    ∃ v, connectionAccepted cb event fuel w = some (false, v) := by
  unfold connectionAccepted
  split
  · exact ⟨w, rfl⟩
  · rename_i fine
    have opened : efiError cb.openProtocol = true := failed.resolve_left fine
    exact ⟨_, if_pos opened⟩

/-- **Without an error** the callback serves the connection, closes its event and sets the flag. -/
theorem connectionAccepted_closes {cb : Callback} {number fuel : Nat} {w : World} {r : Bool × World}
    (before : number < w.events) (status : efiError cb.status = false)
    (opened : efiError cb.openProtocol = false)
    (h : connectionAccepted cb (some number) fuel w = some r) :
    r.1 = true ∧ r.2.log.count (.closeEvent (some number)) =
      w.log.count (.closeEvent (some number)) + 1 := by
  simp only [connectionAccepted, status, opened, Bool.false_eq_true, if_false] at h
  obtain ⟨v, served, rest⟩ := Option.bind_eq_some_iff.1 h
  cases rest
  have said : LeavesOpen number w (w.call (.accepted w.children)) := .call w fun eq => by cases eq
  have accepted : LeavesOpen number w
      { w.call (.accepted w.children) with children := w.children + 1 } := ⟨said.calls, said.events⟩
  obtain ⟨⟨s, u⟩, run, rest⟩ := Option.bind_eq_some_iff.1 served
  cases rest
  have used := receives_leavesOpen before run
  have all := accepted.trans (used.trans (destroy_leavesOpen number { s with handle := none } u))
  refine ⟨rfl, ?_⟩
  rw [World.call, List.count_append, all.count, List.count_singleton_self]

/-! ## What `Accept` returns -/

theorem reconfigure_goes (env : Stack) (child : Nat) (status : EfiStatus) (w : World) :
    (reconfigure env child status w).1 = true ↔
      (status = efiAccessDenied → efiError env.reconfigured = false) := by
  unfold reconfigure
  split
  · rename_i denied
    simp [denied]
  · rename_i allowed
    simp [allowed]

theorem acceptConfigure_goes {env : Stack} {child fuel : Nat} {w : World} {r : Bool × World}
    (h : acceptConfigure env child fuel w = some r) :
    r.1 = true ↔ (env.acceptStatus = efiAccessDenied → efiError env.reconfigured = false) := by
  unfold acceptConfigure at h
  unfold Stack.acceptStatus
  simp only at h
  split at h
  · rename_i unmapped
    obtain ⟨v, mapped, rest⟩ := Option.bind_eq_some_iff.1 h
    cases rest
    rw [if_pos unmapped]
    apply reconfigure_goes
  · rename_i answered
    cases h
    rw [if_neg answered]
    apply reconfigure_goes

/-- What `Accept` has done when it returns. -/
structure AcceptDone (s : LSocket) (env : Stack) (w : World) (r : Bool) (event : Option Nat)
    (w' : World) : Prop where
  leavesOpen : ∀ number, LeavesOpen number w w'
  created : ∀ number, event = some number → number < w'.events
  accepted : r = true ↔ s.child ≠ none ∧
    (env.acceptStatus = efiAccessDenied → efiError env.reconfigured = false) ∧
    efiError env.request = false
  event : r = true → (event = none ↔ efiError env.createEvent = true)

theorem createEvent_open (w : World) (status : EfiStatus) (number : Nat) :
    LeavesOpen number w (w.createEvent status).2 := by
  unfold World.createEvent
  split
  · exact .call w fun eq => by cases eq
  · have said : LeavesOpen number w (w.call (.createEvent (some w.events))) :=
      .call w fun eq => by cases eq
    exact ⟨said.calls, Nat.le_succ _⟩

theorem createEvent_event (w : World) (status : EfiStatus) :
    (∀ number, (w.createEvent status).1 = some number → number < (w.createEvent status).2.events) ∧
      ((w.createEvent status).1 = none ↔ efiError status = true) := by
  unfold World.createEvent
  split
  · rename_i failed
    exact ⟨fun number eq => (by cases eq), fun _ => failed, fun _ => rfl⟩
  · rename_i made
    refine ⟨?_, fun eq => (by cases eq), fun failed => absurd failed made⟩
    intro number eq
    cases eq
    exact Nat.lt_succ_self _

theorem accept_done {s : LSocket} {env : Stack} {fuel : Nat} {w w' : World} {r : Bool}
    {event : Option Nat} (h : accept s env fuel w = some (r, event, w')) :
    AcceptDone s env w r event w' := by
  unfold accept at h
  split at h
  · rename_i none'
    cases h
    refine ⟨fun number => .of_same rfl rfl, fun number eq => (by cases eq), ?_, fun eq => by cases eq⟩
    exact ⟨fun eq => (by cases eq), fun all => absurd none' all.1⟩
  · rename_i child child'
    have some' : s.child ≠ none := by
      rw [child']
      exact Option.some_ne_none child
    obtain ⟨⟨goes, v⟩, configured, rest⟩ := Option.bind_eq_some_iff.1 h
    have goes_iff := acceptConfigure_goes configured
    have quiet := acceptConfigure_quiet configured
    simp only at rest goes_iff
    split at rest
    · rename_i went
      cases rest
      have asked := quiet.trans (.child v child .getModeData)
      obtain ⟨numbered, created⟩ :=
        createEvent_event (v.call (.child child .getModeData)) env.createEvent
      refine ⟨fun number => ?_, numbered, ?_, fun _ => created⟩
      · have opened := createEvent_open (v.call (.child child .getModeData)) env.createEvent number
        exact (LeavesOpen.of_quiet asked).trans (opened.trans (.of_quiet (.child _ child .accept)))
      · constructor
        · intro fine
          refine ⟨some', goes_iff.1 went, ?_⟩
          simpa using fine
        · rintro ⟨-, -, fine⟩
          rw [fine]
          rfl
    · rename_i stays
      cases rest
      refine ⟨fun number => .of_quiet quiet, fun number eq => (by cases eq), ?_, fun eq => by cases eq⟩
      exact ⟨fun eq => (by cases eq), fun all => absurd (goes_iff.2 all.2.1) stays⟩

theorem construct_child (o : Construction) (w : World) :
    (LSocket.construct o w).1.child ≠ none ↔ o.createChild = efiSuccess ∧ o.openChild = efiSuccess := by
  by_cases made : o.createChild = efiSuccess
  · by_cases opened : o.openChild = efiSuccess
    · simp [LSocket.construct, made, opened]
    · simp [LSocket.construct, made, opened]
  · simp [LSocket.construct, made]

/-! ## The wait -/

/-- Where no moment sets the flag the loop never leaves. -/
theorem waitAccepted_stuck {a : Accepting} {pending : Option Nat} {fuel : Nat}
    (unset : ∀ k w r, happens a pending fuel k w = some r → r.1 = false) (tests k : Nat) (w : World) :
    waitAccepted a pending fuel tests k false w = none := by
  induction tests generalizing k w with
  | zero => rfl
  | succ tests ih =>
    rw [waitAccepted, if_neg Bool.false_ne_true]
    cases happened : happens a pending fuel (k + 1) w with
    | none => rfl
    | some r =>
      have still : r.1 = false := unset (k + 1) w r happened
      simp only [Option.bind_eq_bind, Option.bind_some, still]
      exact ih (k + 1) r.2

theorem acceptCommand_stuck {o : Construction} {a : Accepting} {fuel : Nat} {w w' : World}
    {s : LSocket} {r : Bool} {event : Option Nat} (begun : acceptBegun o a fuel w = some (s, r, event, w'))
    (unset : ∀ k v x, happens a (pendingEvent r event) fuel k v = some x → x.1 = false) (tests : Nat) :
    acceptCommand o a fuel tests w = none := by
  simp only [acceptCommand, begun, Option.bind_eq_bind, Option.bind_some]
  cases happened : happens a (pendingEvent r event) fuel 0 w' with
  | none => rfl
  | some x =>
    have still : x.1 = false := unset 0 w' x happened
    simp only [Option.bind_some, still, waitAccepted_stuck unset, Option.bind_none]

/-- Until the moment of the callback nothing happens, and at the next test the loop leaves. -/
theorem waitAccepted_leaves {a : Accepting} {event fuel m : Nat} {cb : Callback} {w v : World}
    (callback : a.callback = some (m, cb)) (served : connectionAccepted cb (some event) fuel w = some (true, v))
    (n k : Nat) (later : k + n + 1 = m) :
    waitAccepted a (some event) fuel (n + 2) k false w = some v := by
  induction n generalizing k with
  | zero =>
    have now : k + 1 = m := later
    simp [waitAccepted, happens, callback, now, served]
  | succ n ih =>
    have before : k + 1 ≠ m := by omega
    have next : k + 1 + n + 1 = m := by omega
    rw [waitAccepted, if_neg Bool.false_ne_true]
    simp only [happens, callback, before, if_false, Option.bind_eq_bind, Option.bind_some]
    exact ih (k + 1) next

/-- What the command has reached when `Accept()` returns. -/
theorem acceptBegun_done {o : Construction} {a : Accepting} {fuel : Nat} {w w' : World} {s : LSocket}
    {r : Bool} {event : Option Nat} (h : acceptBegun o a fuel w = some (s, r, event, w')) :
    AcceptDone (LSocket.construct o w).1 a.stack w r event w' := by
  obtain ⟨x, accepted, eq⟩ := Option.map_eq_some_iff.1 h
  cases eq
  have done := accept_done accepted
  refine ⟨fun number => ?_, done.created, done.accepted, done.event⟩
  exact (construct_leavesOpen number o w).trans (done.leavesOpen number)

/-- **A request that fails** leaves the command in its loop for ever. -/
theorem acceptCommand_refused {o : Construction} {a : Accepting} {fuel : Nat} {w w' : World}
    {s : LSocket} {event : Option Nat} (begun : acceptBegun o a fuel w = some (s, false, event, w'))
    (tests : Nat) : acceptCommand o a fuel tests w = none := by
  refine acceptCommand_stuck begun ?_ tests
  intro k v x happened
  simp only [pendingEvent, Bool.false_eq_true, if_false, happens] at happened
  cases happened
  rfl

/-- **A callback that stops early** leaves the command in its loop for ever. -/
theorem acceptCommand_early {o : Construction} {a : Accepting} {fuel m : Nat} {w w' : World}
    {s : LSocket} {event : Option Nat} {cb : Callback}
    (begun : acceptBegun o a fuel w = some (s, true, event, w')) (callback : a.callback = some (m, cb))
    (failed : efiError cb.status = true ∨ efiError cb.openProtocol = true) (tests : Nat) :
    acceptCommand o a fuel tests w = none := by
  refine acceptCommand_stuck begun ?_ tests
  intro k v x happened
  cases event with
  | none =>
    simp only [pendingEvent, if_true, happens] at happened
    cases happened
    rfl
  | some number =>
    obtain ⟨u, early⟩ := connectionAccepted_early (some number) fuel v failed
    simp only [pendingEvent, if_true, happens, callback, early] at happened
    split at happened
    · cases happened
      rfl
    · cases happened
      rfl

/-- **A callback without an error** lets the command leave at its next test. -/
theorem acceptCommand_leaves {o : Construction} {a : Accepting} {fuel m number : Nat} {w w' : World}
    {s : LSocket} {cb : Callback} (start : w.log = [])
    (begun : acceptBegun o a fuel w = some (s, true, some number, w'))
    (callback : a.callback = some (m, cb)) (status : efiError cb.status = false)
    (opened : efiError cb.openProtocol = false)
    (returned : (connectionAccepted cb (some number) fuel w').isSome = true) :
    LeavesAt o a fuel w (some number) m := by
  have done := acceptBegun_done begun
  obtain ⟨⟨flag, v⟩, served⟩ := Option.isSome_iff_exists.1 returned
  obtain ⟨flag', closed⟩ := connectionAccepted_closes (done.created number rfl) status opened served
  cases flag'
  have unclosed : w'.log.count (.closeEvent (some number)) = 0 := by
    rw [(done.leavesOpen number).count, start]
    rfl
  refine ⟨s.destroy v, number, ?_, rfl, ?_⟩
  · simp only [acceptCommand, begun, pendingEvent, if_true, Option.bind_eq_bind, Option.bind_some]
    cases m with
    | zero => simp [happens, callback, served, waitAccepted]
    | succ n =>
      have waited := waitAccepted_leaves callback served n 0 (by omega)
      simp [happens, callback, waited]
  · rw [(destroy_leavesOpen number s v).count, closed, unclosed]

section Leaves

variable {o : Construction} {a : Accepting} {fuel : Nat} {w w' : World} {s : LSocket} {r : Bool}
variable {event : Option Nat}

/-- A command that always leaves is one in which nothing fails. -/
theorem smooth_of_leaves (begun : acceptBegun o a fuel w = some (s, r, event, w'))
    (leaves : ∀ m, Over a fuel event w' r m → LeavesAt o a fuel w event m) : Smooth o a := by
  have done := acceptBegun_done begun
  have child := construct_child o w
  have accepted : r = true := by
    cases r with
    | true => rfl
    | false =>
      obtain ⟨v, number, left, -⟩ := leaves 0 .refused
      rw [acceptCommand_refused begun] at left
      cases left
  obtain ⟨child', configured, request⟩ := done.accepted.1 accepted
  refine ⟨child.1 child', configured, request, ?_⟩
  intro created m cb callback
  cases accepted
  have some' : event ≠ none := by
    intro none'
    have failed := (done.event rfl).1 none'
    rw [created] at failed
    cases failed
  obtain ⟨number, rfl⟩ := Option.ne_none_iff_exists'.1 some'
  apply Classical.byContradiction
  intro bad
  have failed : efiError cb.status = true ∨ efiError cb.openProtocol = true := by
    cases status : efiError cb.status with
    | true => exact .inl rfl
    | false =>
      cases opened : efiError cb.openProtocol with
      | true => exact .inr rfl
      | false => exact absurd ⟨status, opened⟩ bad
  obtain ⟨u, early⟩ := connectionAccepted_early (some number) fuel w' failed
  have returned : (connectionAccepted cb (some number) fuel w').isSome = true := by rw [early]; rfl
  obtain ⟨v, number', left, -⟩ := leaves m (.called m cb number callback rfl returned)
  rw [acceptCommand_early begun callback failed] at left
  cases left

/-- A command in which nothing fails leaves when its connection has been taken over. -/
theorem leaves_of_smooth (start : w.log = []) (begun : acceptBegun o a fuel w = some (s, r, event, w'))
    (smooth : Smooth o a) {m : Nat} (ends : Over a fuel event w' r m) : LeavesAt o a fuel w event m := by
  have done := acceptBegun_done begun
  have child := construct_child o w
  have accepted : r = true := done.accepted.2 ⟨child.2 smooth.made, smooth.configured, smooth.request⟩
  cases ends with
  | refused => cases accepted
  | called _ cb number callback created returned =>
    cases created
    have made : efiError a.stack.createEvent = false := by
      cases failed : efiError a.stack.createEvent with
      | false => rfl
      | true =>
        have none' := (done.event rfl).2 failed
        cases none'
    obtain ⟨status, opened⟩ := smooth.callback made m cb callback
    exact acceptCommand_leaves start begun callback status opened returned

end Leaves

/-- **The accept command leaves its loop**, whenever `Accept()` has failed or the callback has run,
exactly where nothing fails. -/
theorem accept_leaves_iff (o : Construction) (a : Accepting) (fuel : Nat) (w w' : World) (s : LSocket)
    (r : Bool) (event : Option Nat) (start : w.log = [])
    (begun : acceptBegun o a fuel w = some (s, r, event, w')) :
    (∀ m, Over a fuel event w' r m → LeavesAt o a fuel w event m) ↔ Smooth o a :=
  ⟨smooth_of_leaves begun, fun smooth _ ends => leaves_of_smooth start begun smooth ends⟩

/-- A connection comes in at the second `DoEvents()`, and nothing is received on it. -/
def Accepting.answered : Accepting := ⟨.silent, some (2, ⟨efiSuccess, efiSuccess, []⟩)⟩

/-- The token is completed with an error while the command waits for the key. -/
def Accepting.aborted : Accepting := ⟨.silent, some (0, ⟨efiDeviceError, efiSuccess, []⟩)⟩

/-- A connection that is served: the loop leaves at the test behind it. -/
theorem answered_accept_leaves :
    ∃ x, acceptBegun .smooth .answered 0 ⟨0, 0, 0, []⟩ = some x ∧
      LeavesAt .smooth .answered 0 ⟨0, 0, 0, []⟩ x.2.2.1 2 := by
  have begun : (acceptBegun .smooth .answered 0 ⟨0, 0, 0, []⟩).isSome = true := by decide
  obtain ⟨⟨s, r, event, w⟩, h⟩ := Option.isSome_iff_exists.1 begun
  have smooth : Smooth .smooth .answered := by
    refine ⟨⟨rfl, rfl⟩, fun denied => (by cases denied), by decide, ?_⟩
    intro _ m cb callback
    cases callback
    exact ⟨by decide, by decide⟩
  have called : ∀ x, acceptBegun .smooth .answered 0 ⟨0, 0, 0, []⟩ = some x →
      Over .answered 0 x.2.2.1 x.2.2.2 x.2.1 2 := by
    intro x eq
    cases eq
    exact .called 2 _ 0 rfl rfl (by decide)
  exact ⟨_, h, (accept_leaves_iff _ _ _ _ _ _ _ _ rfl h).2 smooth 2 (called _ h)⟩

/-- `Accept()` fails for want of a child, or the callback finds an error in the token: the command
never leaves its loop. -/
theorem accept_waits_for_ever :
    (∃ x, acceptBegun .barren .answered 0 ⟨0, 0, 0, []⟩ = some x ∧
        Over .answered 0 x.2.2.1 x.2.2.2 x.2.1 0 ∧
        ∀ tests, acceptCommand .barren .answered 0 tests ⟨0, 0, 0, []⟩ = none) ∧
      ∃ x, acceptBegun .smooth .aborted 0 ⟨0, 0, 0, []⟩ = some x ∧
        Over .aborted 0 x.2.2.1 x.2.2.2 x.2.1 0 ∧
        ∀ tests, acceptCommand .smooth .aborted 0 tests ⟨0, 0, 0, []⟩ = none := by
  refine ⟨⟨_, rfl, .refused, acceptCommand_refused rfl⟩, ⟨_, rfl, ?_, ?_⟩⟩
  · exact .called 0 _ 0 rfl rfl (by decide)
  · exact acceptCommand_early rfl rfl (.inl (by decide))

end Lavoro.Net.Traced
