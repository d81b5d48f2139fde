import Lavoro.Net.Events

/-!
# The children of sockets (`lsocket.hpp`, `lsocket.cpp`, `main.cpp`)

The first constructor looks for a service binding and makes a child with it; the second takes over
the child of a connection that has been accepted. The destructor destroys the child of `Handle` and
then closes the one of `Child`. `TCPAcceptConnection` takes `Handle` away before it deletes its
socket.
-/

namespace Lavoro.Net.Traced
open Lib

/-- What the firmware answers in the first constructor: `handles` has the answer of `OpenProtocol`
for each handle that has been located. -/
structure Construction where
  handles : List EfiStatus
  install : EfiStatus
  createChild : EfiStatus
  openChild : EfiStatus

namespace Construction

/-- Some handle could be opened. `InstallMultipleProtocolInterfaces` is given the address of
`ServiceBinding` and leaves it as it is. -/
def bound (o : Construction) : Bool := o.handles.any fun status => status = efiSuccess

end Construction

/-- `LSocket(_Address, _Port)`. -/
def LSocket.construct (o : Construction) (w : World) : LSocket × World :=
  let s : LSocket :=
    { serviceBindingHandle := o.bound || !efiError o.install
      serviceBinding := o.bound
      handle := none
      child := none
      closed := false }
  if o.createChild ≠ efiSuccess then (s, w.call (.createChild o.bound none))
  else
    let number := w.children
    let w := { w.call (.createChild o.bound (some number)) with children := number + 1 }
    if o.openChild ≠ efiSuccess then
      ({ s with handle := some number }, w.call (.destroyChild o.bound number))
    else ({ s with handle := some number, child := some number }, w)

/-- `LSocket(_Child, _Handle)`. -/
def LSocket.ofChild (number : Nat) : LSocket :=
  { serviceBindingHandle := false
    serviceBinding := false
    handle := some number
    child := some number
    closed := false }

/-- `~LSocket()`. -/
def LSocket.destroy (s : LSocket) (w : World) : World :=
  let w := match s.handle with
    | some number => w.call (.destroyChild s.serviceBinding number)
    | none => w
  match s.child with
  | some number => w.call (.child number .close)
  | none => w

/-- A `Receive` of a socket that keeps what it has learned. -/
def receiveOn (fuel : Nat) (x : LSocket × World) (r : Stack × Nat) : Option (LSocket × World) :=
  (receive x.1 r.1 r.2 fuel x.2).map fun y => ({ x.1 with closed := y.1.closed }, y.2)

/-- `TCPAcceptConnection(Child, Handle)`; `receives` are the receives its reader makes. -/
def acceptConnection (number : Nat) (receives : List (Stack × Nat)) (fuel : Nat) (w : World) :
    Option World := do
  let (s, w) ← receives.foldlM (receiveOn fuel) (LSocket.ofChild number, w)
  some (({ s with handle := none } : LSocket).destroy w)

/-- What the callback of an accept finds: the token's status, the answer of `OpenProtocol` for the
new child, and the receives made on it. -/
structure Callback where
  status : EfiStatus
  openProtocol : EfiStatus
  receives : List (Stack × Nat)

/-- `TCPConnectionAccepted(Event, Context)`: whether it sets `TCPAcceptStatus`. -/
def connectionAccepted (cb : Callback) (event : Option Nat) (fuel : Nat) (w : World) :
    Option (Bool × World) :=
  if efiError cb.status then some (false, w)
  else
    let number := w.children
    let w := { w.call (.accepted number) with children := number + 1 }
    if efiError cb.openProtocol then some (false, w)
    else do
      let w ← acceptConnection number cb.receives fuel w
      some (true, w.call (.closeEvent event))

/-- What is done with a socket between its construction and its destruction. -/
inductive Use where
  | connect (env : Stack)
  | transmit (env : Stack)
  | receive (env : Stack) (initialSize : Nat)
  | accept (env : Stack)
  | accepted (cb : Callback) (event : Option Nat)

def use (fuel : Nat) (x : LSocket × World) : Use → Option (LSocket × World)
  | .connect env => (connect x.1 env fuel x.2).map fun r => (x.1, r.2)
  | .transmit env => (transmit x.1 env fuel x.2).map fun r => (x.1, r.2)
  | .receive env initialSize => receiveOn fuel x (env, initialSize)
  | .accept env => (accept x.1 env fuel x.2).map fun r => (x.1, r.2.2)
  | .accepted cb event => (connectionAccepted cb event fuel x.2).map fun r => (x.1, r.2)

/-- A socket from its construction to its destruction. -/
def life (o : Construction) (uses : List Use) (fuel : Nat) (w : World) : Option World := do
  let (s, w) ← uses.foldlM (use fuel) (LSocket.construct o w)
  some (s.destroy w)

/-- The call destroys the child. -/
def FwCall.destroys (number : Nat) : FwCall → Bool
  | .destroyChild _ n => n = number
  | _ => false

/-- The children are kept as they should be. -/
structure Kept (log : List FwCall) : Prop where
  destroyed : ∀ n, (∃ b, .createChild b (some n) ∈ log) ∨ .accepted n ∈ log →
    log.countP (FwCall.destroys n) = 1
  alive : ∀ before b n after, log = before ++ .destroyChild b n :: after →
    ∀ method, .child n method ∉ after
  bound : (∀ x, .createChild false x ∉ log) ∧ ∀ n, .destroyChild false n ∉ log

/-! ## What the calls leave alone -/

/-- The log goes on, without `DestroyChild`. -/
def Spares (w w' : World) : Prop :=
  ∃ calls, w'.log = w.log ++ calls ∧ ∀ c ∈ calls, ∀ b n, c ≠ .destroyChild b n

namespace Spares

variable {w w' w'' : World}

theorem of_same (log : w'.log = w.log) : Spares w w' :=
  ⟨[], by rw [log, List.append_nil], fun c mem => by cases mem⟩

theorem trans (h : Spares w w') (h' : Spares w' w'') : Spares w w'' := by
  obtain ⟨calls, log, spared⟩ := h
  obtain ⟨calls', log', spared'⟩ := h'
  refine ⟨calls ++ calls', by rw [log', log, List.append_assoc], ?_⟩
  intro c mem
  rcases List.mem_append.1 mem with first | second
  · exact spared c first
  · exact spared' c second

theorem call (w : World) {c : FwCall} (other : ∀ b n, c ≠ .destroyChild b n) : Spares w (w.call c) := by
  refine ⟨[c], rfl, ?_⟩
  intro c' mem
  rw [List.mem_singleton.1 mem]
  exact other

theorem of_quiet (h : Quiet w w') : Spares w w' := by
  obtain ⟨calls, log, silent⟩ := h.calls
  refine ⟨calls, log, ?_⟩
  rintro c mem b n rfl
  obtain ⟨child, method, eq⟩ := silent _ mem
  cases eq

theorem of_paired (h : Paired w w') : Spares w w' := by
  cases h with
  | nothing quiet => exact of_quiet quiet
  | failed v before after =>
    exact (of_quiet before).trans ((call v fun _ _ eq => by cases eq).trans (of_quiet after))
  | closed u v before between after =>
    have created : Spares u { u.call (.createEvent (some u.events)) with events := u.events + 1 } :=
      call u fun _ _ eq => by cases eq
    rw [after]
    exact (of_quiet before).trans (created.trans ((of_quiet between).trans
      (call v fun _ _ eq => by cases eq)))

end Spares

theorem acceptMapping_quiet {env : Stack} {child fuel i : Nat} {w w' : World}
    (h : acceptMapping env child fuel i w = some w') : Quiet w w' := by
  induction fuel generalizing i w with
  | zero => cases h
  | succ fuel ih =>
    have asked := Quiet.child w child .getModeData
    unfold acceptMapping at h
    simp only at h
    split at h
    · cases h
      exact asked
    · exact asked.trans (ih h)

theorem acceptConfigure_quiet {env : Stack} {child fuel : Nat} {w : World} {r : Bool × World}
    (h : acceptConfigure env child fuel w = some r) : Quiet w r.2 := by
  have first := Quiet.child w child .configure
  unfold acceptConfigure at h
  simp only at h
  split at h
  · obtain ⟨v, mapped, rest⟩ := Option.bind_eq_some_iff.1 h
    cases rest
    exact (first.trans (acceptMapping_quiet mapped)).trans
      ((Quiet.child v child .configure).trans (reconfigure_quiet _ _ _ _))
  · cases h
    exact first.trans (reconfigure_quiet _ _ _ _)

theorem createEvent_spares (w : World) (status : EfiStatus) : Spares w (w.createEvent status).2 := by
  unfold World.createEvent
  split
  · exact Spares.call w fun _ _ eq => by cases eq
  · exact Spares.call w fun _ _ eq => by cases eq

theorem accept_spares {s : LSocket} {env : Stack} {fuel : Nat} {w : World}
    {r : Bool × Option Nat × World} (h : accept s env fuel w = some r) : Spares w r.2.2 := by
  unfold accept at h
  split at h
  · cases h
    exact .of_same rfl
  · rename_i child _
    obtain ⟨⟨goes, v⟩, configured, rest⟩ := Option.bind_eq_some_iff.1 h
    have quiet := Spares.of_quiet (acceptConfigure_quiet configured)
    simp only at rest
    split at rest
    · cases rest
      have asked := Spares.of_quiet (Quiet.child v child .getModeData)
      have created := createEvent_spares (v.call (.child child .getModeData)) env.createEvent
      exact quiet.trans (asked.trans (created.trans (.of_quiet (.child _ child .accept))))
    · cases rest
      exact quiet

/-- A receive keeps what the socket holds. -/
theorem receiveOn_spares {fuel : Nat} {x y : LSocket × World} {r : Stack × Nat}
    (h : receiveOn fuel x r = some y) :
    Spares x.2 y.2 ∧ y.1.handle = x.1.handle ∧ y.1.child = x.1.child ∧
      y.1.serviceBinding = x.1.serviceBinding := by
  obtain ⟨z, received, rfl⟩ := Option.map_eq_some_iff.1 h
  exact ⟨.of_paired (receive_paired received), rfl, rfl, rfl⟩

/-- Without a handle the destructor destroys nothing. -/
theorem destroy_spares {s : LSocket} (none' : s.handle = none) (w : World) : Spares w (s.destroy w) := by
  unfold LSocket.destroy
  rw [none']
  cases s.child with
  | none => exact .of_same rfl
  | some number => exact Spares.call w fun _ _ eq => by cases eq

theorem receives_spares {fuel : Nat} {receives : List (Stack × Nat)} {x y : LSocket × World}
    (h : receives.foldlM (receiveOn fuel) x = some y) : Spares x.2 y.2 := by
  induction receives generalizing x with
  | nil =>
    cases h
    exact .of_same rfl
  | cons r receives ih =>
    rw [List.foldlM_cons] at h
    obtain ⟨z, first, later⟩ := Option.bind_eq_some_iff.1 h
    exact (receiveOn_spares first).1.trans (ih later)

theorem acceptConnection_spares {number fuel : Nat} {receives : List (Stack × Nat)} {w w' : World}
    (h : acceptConnection number receives fuel w = some w') : Spares w w' := by
  obtain ⟨⟨s, v⟩, run, rest⟩ := Option.bind_eq_some_iff.1 h
  cases rest
  exact (receives_spares run).trans (destroy_spares rfl v)

/-- **A connection is accepted**: its child is never destroyed. -/
theorem connectionAccepted_spares {cb : Callback} {event : Option Nat} {fuel : Nat} {w : World}
    {r : Bool × World} (h : connectionAccepted cb event fuel w = some r) :
    Spares w r.2 ∧ ((efiError cb.status = true ∧ r.2 = w) ∨
      (efiError cb.status = false ∧ .accepted w.children ∈ r.2.log)) := by
  have accepted : Spares w { w.call (.accepted w.children) with children := w.children + 1 } :=
    Spares.call w fun _ _ eq => by cases eq
  unfold connectionAccepted at h
  split at h
  · rename_i failed
    cases h
    exact ⟨.of_same rfl, .inl ⟨failed, rfl⟩⟩
  · rename_i fine
    have status := Bool.eq_false_iff.2 fine
    simp only at h
    split at h
    · cases h
      exact ⟨accepted, .inr ⟨status, List.mem_append_right _ (List.mem_singleton.2 rfl)⟩⟩
    · obtain ⟨v, served, rest⟩ := Option.bind_eq_some_iff.1 h
      cases rest
      have closed : Spares v (v.call (.closeEvent event)) := Spares.call v fun _ _ eq => by cases eq
      have later := (acceptConnection_spares served).trans closed
      have all := accepted.trans later
      obtain ⟨calls, log, -⟩ := later
      refine ⟨all, .inr ⟨status, ?_⟩⟩
      rw [log]
      exact List.mem_append_left _ (List.mem_append_right _ (List.mem_singleton.2 rfl))

/-- A socket keeps its handle, its child and its binding while it is used, and none of its uses
destroys a child. -/
structure Used (x y : LSocket × World) : Prop where
  spares : Spares x.2 y.2
  handle : y.1.handle = x.1.handle
  child : y.1.child = x.1.child
  serviceBinding : y.1.serviceBinding = x.1.serviceBinding

theorem use_used {fuel : Nat} {x y : LSocket × World} {u : Use} (h : use fuel x u = some y) :
    Used x y := by
  cases u with
  | connect env =>
    obtain ⟨r, done, rfl⟩ := Option.map_eq_some_iff.1 h
    exact ⟨.of_paired (connect_paired done), rfl, rfl, rfl⟩
  | transmit env =>
    obtain ⟨r, done, rfl⟩ := Option.map_eq_some_iff.1 h
    exact ⟨.of_paired (transmit_paired done), rfl, rfl, rfl⟩
  | receive env initialSize =>
    obtain ⟨spares, handle, child, binding⟩ := receiveOn_spares h
    exact ⟨spares, handle, child, binding⟩
  | accept env =>
    obtain ⟨r, done, rfl⟩ := Option.map_eq_some_iff.1 h
    exact ⟨accept_spares done, rfl, rfl, rfl⟩
  | accepted cb event =>
    obtain ⟨r, done, rfl⟩ := Option.map_eq_some_iff.1 h
    exact ⟨(connectionAccepted_spares done).1, rfl, rfl, rfl⟩

theorem uses_used {fuel : Nat} {uses : List Use} {x y : LSocket × World}
    (h : uses.foldlM (use fuel) x = some y) : Used x y := by
  induction uses generalizing x with
  | nil =>
    cases h
    exact ⟨.of_same rfl, rfl, rfl, rfl⟩
  | cons u uses ih =>
    rw [List.foldlM_cons] at h
    obtain ⟨z, first, later⟩ := Option.bind_eq_some_iff.1 h
    have used := use_used first
    have rest := ih later
    exact ⟨used.spares.trans rest.spares, rest.handle.trans used.handle, rest.child.trans used.child,
      rest.serviceBinding.trans used.serviceBinding⟩

/-! ## Whole lives -/

/-- A connection is accepted. -/
def Use.accepts : Use → Prop
  | .accepted cb _ => efiError cb.status = false
  | _ => False

/-- Without a child nothing happens to the log, unless a connection is accepted. -/
theorem use_childless {fuel : Nat} {x y : LSocket × World} {u : Use} (none' : x.1.child = none)
    (h : use fuel x u = some y) :
    (¬ u.accepts ∧ y.2.log = x.2.log) ∨ (u.accepts ∧ ∃ n, .accepted n ∈ y.2.log) := by
  cases u with
  | connect env =>
    obtain ⟨r, done, rfl⟩ := Option.map_eq_some_iff.1 h
    simp only [connect, none'] at done
    cases done
    exact .inl ⟨fun h => h, rfl⟩
  | transmit env =>
    obtain ⟨r, done, rfl⟩ := Option.map_eq_some_iff.1 h
    simp only [transmit, none'] at done
    cases done
    exact .inl ⟨fun h => h, rfl⟩
  | receive env initialSize =>
    obtain ⟨r, done, rfl⟩ := Option.map_eq_some_iff.1 h
    simp only [receive, none'] at done
    cases done
    exact .inl ⟨fun h => h, rfl⟩
  | accept env =>
    obtain ⟨r, done, rfl⟩ := Option.map_eq_some_iff.1 h
    simp only [accept, none'] at done
    cases done
    exact .inl ⟨fun h => h, rfl⟩
  | accepted cb event =>
    obtain ⟨r, done, rfl⟩ := Option.map_eq_some_iff.1 h
    rcases (connectionAccepted_spares done).2 with ⟨failed, same⟩ | ⟨fine, accepted⟩
    · refine .inl ⟨fun accepts => ?_, congrArg World.log same⟩
      rw [Use.accepts, failed] at accepts
      cases accepts
    · exact .inr ⟨fine, _, accepted⟩

theorem uses_childless {fuel : Nat} {uses : List Use} {x y : LSocket × World}
    (none' : x.1.child = none) (h : uses.foldlM (use fuel) x = some y) :
    ((∀ u ∈ uses, ¬ u.accepts) ∧ y.2.log = x.2.log) ∨
      ((∃ u ∈ uses, u.accepts) ∧ ∃ n, .accepted n ∈ y.2.log) := by
  induction uses generalizing x with
  | nil =>
    cases h
    exact .inl ⟨fun u mem => (by cases mem), rfl⟩
  | cons u uses ih =>
    rw [List.foldlM_cons] at h
    obtain ⟨z, first, later⟩ := Option.bind_eq_some_iff.1 h
    have childless : z.1.child = none := (use_used first).child.trans none'
    rcases use_childless none' first with ⟨quiet, same⟩ | ⟨accepts, n, mem⟩
    · rcases ih childless later with ⟨quiet', same'⟩ | ⟨⟨v, mem, accepts⟩, accepted⟩
      · exact .inl ⟨List.forall_mem_cons.2 ⟨quiet, quiet'⟩, same'.trans same⟩
      · exact .inr ⟨⟨v, List.mem_cons_of_mem u mem, accepts⟩, accepted⟩
    · obtain ⟨calls, log, -⟩ := (uses_used later).spares
      refine .inr ⟨⟨u, List.mem_cons_self, accepts⟩, n, ?_⟩
      rw [log]
      exact List.mem_append_left _ mem

/-- A service binding has been obtained, no child has been made with it, and no connection is
accepted. -/
structure NoChild (o : Construction) (uses : List Use) : Prop where
  bound : o.bound = true
  refused : o.createChild ≠ efiSuccess
  accepts : ∀ u ∈ uses, ¬ u.accepts

theorem countP_spared {n : Nat} {calls : List FwCall}
    (spared : ∀ c ∈ calls, ∀ b n, c ≠ .destroyChild b n) : calls.countP (FwCall.destroys n) = 0 := by
  apply List.countP_eq_zero.2
  intro c mem destroys
  cases c with
  | destroyChild b k => exact spared _ mem b k rfl
  | _ => cases destroys

/-- **A child that has been made** is not kept as it should be: where it could be opened, `Close` is
called on it behind its destruction, and where it could not, it is destroyed twice. -/
theorem made_not_kept {o : Construction} {uses : List Use} {fuel : Nat} {w w' : World}
    (made : o.createChild = efiSuccess) (h : life o uses fuel w = some w') : ¬ Kept w'.log := by
  obtain ⟨⟨s, v⟩, run, rest⟩ := Option.bind_eq_some_iff.1 h
  cases rest
  have used := uses_used run
  obtain ⟨calls, log, -⟩ := used.spares
  simp only at log
  intro kept
  by_cases opened : o.openChild = efiSuccess
  · have start : LSocket.construct o w =
        (⟨o.bound || !efiError o.install, o.bound, some w.children, some w.children, false⟩,
          { w.call (.createChild o.bound (some w.children)) with children := w.children + 1 }) := by
      simp [LSocket.construct, made, opened]
    have handle : s.handle = some w.children := by rw [used.handle, start]
    have child : s.child = some w.children := by rw [used.child, start]
    have split : (s.destroy v).log =
        v.log ++ .destroyChild s.serviceBinding w.children :: [.child w.children .close] := by
      simp [LSocket.destroy, handle, child, World.call]
    exact kept.alive _ _ _ _ split .close (List.mem_singleton.2 rfl)
  · have start : LSocket.construct o w =
        (⟨o.bound || !efiError o.install, o.bound, some w.children, none, false⟩,
          ({ w.call (.createChild o.bound (some w.children)) with children := w.children + 1 } : World).call
            (.destroyChild o.bound w.children)) := by
      simp [LSocket.construct, made, opened]
    have handle : s.handle = some w.children := by rw [used.handle, start]
    have child : s.child = none := by rw [used.child, start]
    have split : (s.destroy v).log = w.log ++ [.createChild o.bound (some w.children),
        .destroyChild o.bound w.children] ++ calls ++ [.destroyChild s.serviceBinding w.children] := by
      rw [start] at log
      simp [LSocket.destroy, handle, child, World.call, log]
    have created : .createChild o.bound (some w.children) ∈ (s.destroy v).log := by simp [split]
    have once := kept.destroyed w.children (.inl ⟨_, created⟩)
    rw [split] at once
    simp [List.countP_append, FwCall.destroys] at once
    omega

/-- The log of a socket whose child was refused. -/
theorem kept_refused_iff (bound : Bool) : Kept [.createChild bound none] ↔ bound = true := by
  constructor
  · intro kept
    apply Classical.byContradiction
    intro unbound
    apply kept.bound.1 none
    rw [Bool.eq_false_iff.2 unbound]
    exact List.mem_singleton.2 rfl
  · rintro rfl
    refine ⟨?_, ?_, by simp⟩
    · rintro n (⟨b, mem⟩ | mem)
      · simp at mem
      · simp at mem
    · intro before b n after split
      have mem : FwCall.destroyChild b n ∈ [FwCall.createChild true none] := by
        rw [split]
        exact List.mem_append_right _ List.mem_cons_self
      simp at mem

/-- **Children are kept as they should be** exactly where there are none. -/
theorem kept_iff_no_child (o : Construction) (uses : List Use) (fuel : Nat) (w w' : World)
    (start : w.log = []) (h : life o uses fuel w = some w') : Kept w'.log ↔ NoChild o uses := by
  by_cases made : o.createChild = efiSuccess
  · exact iff_of_false (made_not_kept made h) fun none' => none'.refused made
  · obtain ⟨⟨s, v⟩, run, rest⟩ := Option.bind_eq_some_iff.1 h
    cases rest
    have used := uses_used run
    have begun : LSocket.construct o w = (⟨o.bound || !efiError o.install, o.bound, none, none, false⟩,
        w.call (.createChild o.bound none)) := by
      simp [LSocket.construct, made]
    have handle : s.handle = none := by rw [used.handle, begun]
    have child : s.child = none := by rw [used.child, begun]
    have same : (s.destroy v).log = v.log := by simp [LSocket.destroy, handle, child]
    obtain ⟨calls, log, spared⟩ := used.spares
    have first : v.log = [.createChild o.bound none] ++ calls := by
      simp only at log
      rw [log, begun]
      simp [World.call, start]
    have nowhere : ∀ n, (s.destroy v).log.countP (FwCall.destroys n) = 0 := by
      intro n
      rw [same, first, List.countP_append, countP_spared spared]
      rfl
    rcases uses_childless (by rw [begun]) run with ⟨quiet, unchanged⟩ | ⟨⟨u, mem, accepts⟩, n, accepted⟩
    · have log : (s.destroy v).log = [.createChild o.bound none] := by
        rw [same]
        simp only at unchanged
        rw [unchanged, begun]
        simp [World.call, start]
      rw [log, kept_refused_iff]
      exact ⟨fun bound => ⟨bound, made, quiet⟩, fun none' => none'.bound⟩
    · apply iff_of_false
      · intro kept
        rw [← same] at accepted
        have once := kept.destroyed n (.inr accepted)
        rw [nowhere n] at once
        cases once
      · exact fun none' => none'.accepts u mem accepts

/-- Every call succeeds. -/
def Construction.smooth : Construction := ⟨[efiSuccess], efiSuccess, efiSuccess, efiSuccess⟩

/-- No child can be made. -/
def Construction.barren : Construction := { Construction.smooth with createChild := efiDeviceError }

/-- A socket that never had a child. -/
theorem childless_socket_kept :
    ∃ w, life .barren [.transmit .silent] 0 ⟨0, 0, 0, []⟩ = some w ∧ Kept w.log := by
  have lived : (life .barren [.transmit .silent] 0 ⟨0, 0, 0, []⟩).isSome = true := by decide
  obtain ⟨w, h⟩ := Option.isSome_iff_exists.1 lived
  have none' : NoChild .barren [.transmit .silent] := by
    refine ⟨by decide, by decide, ?_⟩
    intro u mem
    rw [List.mem_singleton.1 mem]
    exact fun accepts => accepts
  exact ⟨w, h, (kept_iff_no_child _ _ _ _ w rfl h).2 none'⟩

/-- A socket that is made and deleted: `Close` is called on its child behind `DestroyChild`. -/
theorem closed_after_destruction :
    ∃ w, life .smooth [] 0 ⟨0, 0, 0, []⟩ = some w ∧
      w.log = [.createChild true (some 0), .destroyChild true 0, .child 0 .close] ∧ ¬ Kept w.log := by
  have lived : (life .smooth [] 0 ⟨0, 0, 0, []⟩).map World.log =
      some [.createChild true (some 0), .destroyChild true 0, .child 0 .close] := by decide
  obtain ⟨w, h, log⟩ := Option.map_eq_some_iff.1 lived
  refine ⟨w, h, log, ?_⟩
  intro kept
  exact kept.alive [.createChild true (some 0)] true 0 _ log .close (List.mem_singleton.2 rfl)

end Lavoro.Net.Traced
