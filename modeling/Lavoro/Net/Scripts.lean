import Lavoro.Net.Waiting

/-!
# Scripts as stacks

A `Script` completes a token at most once and runs the callback at most once, and the calls over it
keep only the counter and the buffers. Every script is a `Stack`, and over that stack the calls that
keep the log have the same results (`connect_script`, `transmit_script`, `receive_script`).
-/

namespace Lavoro.Net.Traced
open Lib

variable {ρ : Type}

/-- The length that a completion stores. -/
def storedLength (k : Completion) : Option Nat := if efiError k.status then none else some k.data.length

/-- What a script does at the moment `m`. -/
def momentAt (env : Script) (m : Nat) : Moment where
  fires := if env.callback = some m then 1 else 0
  status := env.statusAt m
  stored := (env.completionAt m).bind storedLength

/-- A script, with a configuration that succeeds or is denied. -/
def Stack.ofScript (env : Script) (configured : Bool) : Stack where
  configure := if configured then efiSuccess else efiAccessDenied
  modeData _ := (efiSuccess, true)
  mapped := efiSuccess
  reconfigured := efiDeviceError
  createEvent := env.createEvent
  request := env.request
  atRequest := if efiError env.request then .idle else momentAt env 0
  poll := env.poll
  atPoll i := momentAt env (i + 1)
  atEvents i := ⟨0, env.statusAt (i + 1), none⟩
  closeEvent := env.closeEvent

@[simp] theorem ofScript_createEvent (env : Script) (configured : Bool) :
    (Stack.ofScript env configured).createEvent = env.createEvent := rfl

@[simp] theorem ofScript_request (env : Script) (configured : Bool) :
    (Stack.ofScript env configured).request = env.request := rfl

@[simp] theorem ofScript_closeEvent (env : Script) (configured : Bool) :
    (Stack.ofScript env configured).closeEvent = env.closeEvent := rfl

/-- A call over the script and one over its stack; `B` compares what they change besides. -/
structure Mirrors (env : Script) (B : ρ → Nat → Bool → Prop) (p : Pending ρ) (q : Waiting) : Prop where
  tcp : q.world.tcpEventStatus = p.tcpEventStatus
  status : p.status = env.statusAt p.polls ∧ q.status = p.status
  counter : q.counter = p.counter
  polls : q.polls = p.polls
  buffers : B p.buffers q.fragmentLength q.closed

/-- A completion and giving up keep what is compared. -/
structure Respects (eff : Effects ρ) (giveUp : Waiting → Waiting) (B : ρ → Nat → Bool → Prop) : Prop where
  plain : Plain giveUp
  status : ∀ q, (giveUp q).status = q.status
  complete : ∀ k b l closed, B b l closed → B (eff.complete k b) ((storedLength k).getD l) closed
  giveUp : ∀ b q, B b q.fragmentLength q.closed → B (eff.giveUp b) (giveUp q).fragmentLength (giveUp q).closed

section Turns

variable {env : Script} {eff : Effects ρ} {giveUp : Waiting → Waiting} {B : ρ → Nat → Bool → Prop}
variable {p : Pending ρ} {q : Waiting} {m : Nat}

/-- What happens at a moment. -/
theorem happen_mirrors (respects : Respects eff giveUp B) (moment : p.polls = m)
    (known : env.statusAt m = ((env.completionAt m).map Completion.status).getD p.status)
    (tcp : q.world.tcpEventStatus = p.tcpEventStatus) (counter : q.counter = p.counter)
    (polls : q.polls = p.polls) (buffers : B p.buffers q.fragmentLength q.closed) :
    Mirrors env B (deliver env eff m p) (q.happen (momentAt env m)) := by
  have same := completeAt_tcp env eff m p
  have status : (completeAt env eff m p).status = env.statusAt m :=
    (completeAt_status env eff m p).trans known.symm
  have stored : B (completeAt env eff m p).buffers
      (((env.completionAt m).bind storedLength).getD q.fragmentLength) q.closed := by
    unfold completeAt
    cases env.completionAt m with
    | none => exact buffers
    | some k => exact respects.complete k p.buffers q.fragmentLength q.closed buffers
  have here : (completeAt env eff m p).polls = m := same.2.2.trans moment
  unfold deliver
  split
  · rename_i now
    refine ⟨?_, ⟨?_, status.symm⟩, counter.trans same.2.1.symm, polls.trans same.2.2.symm, stored⟩
    · simp only [Waiting.happen, momentAt, if_pos now, World.finish]
      rw [tcp, same.1]
    · rw [here]
      exact status
  · rename_i later
    refine ⟨?_, ⟨?_, status.symm⟩, counter.trans same.2.1.symm, polls.trans same.2.2.symm, stored⟩
    · simp only [Waiting.happen, momentAt, if_neg later, World.finish]
      rw [tcp, same.1]
    · rw [here]
      exact status

/-- A `Poll`. -/
theorem poll_mirrors (respects : Respects eff giveUp B) (h : Mirrors env B p q) (configured : Bool)
    (child : Nat) :
    Mirrors env B (deliver env eff (p.polls + 1) { p with polls := p.polls + 1 })
      (q.poll (.ofScript env configured) child) := by
  have polled : (Stack.ofScript env configured).atPoll q.polls = momentAt env (p.polls + 1) := by
    rw [h.polls]
    rfl
  have known : env.statusAt (p.polls + 1) =
      ((env.completionAt (p.polls + 1)).map Completion.status).getD p.status := by
    rw [statusAt_succ, ← h.status.1]
  have asked : Mirrors env B (deliver env eff (p.polls + 1) { p with polls := p.polls + 1 })
      ({ q with world := q.world.call (.child child .poll), polls := q.polls + 1 }.happen
        (momentAt env (p.polls + 1))) :=
    happen_mirrors respects rfl known h.tcp h.counter (congrArg (· + 1) h.polls) h.buffers
  rw [Waiting.poll, polled]
  exact asked

/-- Giving up, or counting a try. -/
theorem settle_mirrors (respects : Respects eff giveUp B) (h : Mirrors env B p q) :
    Mirrors env B
      (if efiError p.status then giveUpOnce eff p
        else if p.counter + 1 > socketMaxTries then giveUpOnce eff { p with counter := p.counter + 1 }
        else { p with counter := p.counter + 1 })
      (settle giveUp q) := by
  have gives : ∀ {p : Pending ρ} {q : Waiting}, Mirrors env B p q →
      Mirrors env B (giveUpOnce eff p) (giveUp q).finish := by
    intro p q h
    obtain ⟨world, counter, polls⟩ := respects.plain q
    refine ⟨?_, ⟨h.status.1, (respects.status q).trans h.status.2⟩, counter.trans h.counter,
      polls.trans h.polls, respects.giveUp p.buffers q h.buffers⟩
    simp only [Waiting.finish, World.finish, giveUpOnce]
    rw [world, h.tcp]
  have counted : Mirrors env B { p with counter := p.counter + 1 } q.count :=
    ⟨h.tcp, h.status, congrArg (· + 1) h.counter, h.polls, h.buffers⟩
  unfold settle
  rw [h.status.2, h.counter]
  split
  · exact gives h
  · split
    · exact gives counted
    · exact counted

/-- **A turn** of `Connect` and of `Receive`. -/
theorem pollTurn_mirrors (respects : Respects eff giveUp B) (configured : Bool) (child : Nat)
    (h : Mirrors env B p q) :
    Turn.Rel (Mirrors env B) (fun x y => x.1 = y.1 ∧ Mirrors env B x.2 y.2) (Net.pollTurn env eff p)
      (pollTurn giveUp (.ofScript env configured) child q) := by
  have polled := poll_mirrors respects h configured child
  have settled := settle_mirrors respects polled
  have same : (q.poll (.ofScript env configured) child).happen
      ((Stack.ofScript env configured).atEvents q.polls) = q.poll (.ofScript env configured) child := rfl
  have status : (Stack.ofScript env configured).poll q.polls = env.poll p.polls := by
    rw [h.polls]
    rfl
  unfold Net.pollTurn pollTurn
  rw [h.tcp, status, same]
  split
  · exact .leave ⟨rfl, h⟩
  · simp only
    split
    · exact .leave ⟨rfl, polled⟩
    · rw [← apply_ite Turn.again, ← apply_ite Turn.again]
      exact .again settled

theorem settle_status (q : Waiting) : (settle id q).status = q.status := by
  unfold settle
  split
  · rfl
  · split
    · rfl
    · rfl

/-- **A turn** of `Transmit` is the same: its `DoEvents()` finds nothing to do. -/
theorem transmitTurn_script (configured : Bool) (child : Nat) (q : Waiting) :
    transmitTurn (.ofScript env configured) child q = pollTurn id (.ofScript env configured) child q := by
  have same : (Stack.ofScript env configured).atEvents q.polls =
      ⟨0, (settle id (q.poll (.ofScript env configured) child)).status, none⟩ := by
    rw [settle_status]
    rfl
  have before : (q.poll (.ofScript env configured) child).happen
      ((Stack.ofScript env configured).atEvents q.polls) = q.poll (.ofScript env configured) child := rfl
  have behind : (settle id (q.poll (.ofScript env configured) child)).happen
      ((Stack.ofScript env configured).atEvents q.polls) =
        settle id (q.poll (.ofScript env configured) child) := by
    rw [same]
    rfl
  rw [transmitTurn, pollTurn, before, behind]

/-- The loop is entered. -/
theorem requested_mirrors (respects : Respects eff giveUp B) {v : Int} {b : ρ} {l : Nat} {w : World}
    (method : Method) (event : Option Nat) (closed : Bool) (accepted : efiError env.request = false)
    (configured : Bool) (child : Nat) (tcp : w.tcpEventStatus = v) (buffers : B b l closed) :
    Mirrors env B (Net.requested env eff v b)
      (requested (.ofScript env configured) child method event l closed w) := by
  have moment : (Stack.ofScript env configured).atRequest = momentAt env 0 := if_neg (by simp [accepted])
  rw [requested, moment]
  exact happen_mirrors respects rfl (statusAt_zero env) tcp rfl rfl buffers

/-- A request that is refused starts nothing. -/
theorem requested_refused (env : Script) {w : World} (refused : efiError env.request = true)
    (configured : Bool) (child : Nat) (method : Method) (event : Option Nat) (l : Nat) (closed : Bool) :
    (requested (.ofScript env configured) child method event l closed w).world.tcpEventStatus =
        w.tcpEventStatus ∧
      (requested (.ofScript env configured) child method event l closed w).fragmentLength = l := by
  have idle : (Stack.ofScript env configured).atRequest = .idle := if_pos refused
  rw [requested, idle]
  exact ⟨rfl, rfl⟩

end Turns

/-! ## The calls -/

theorem respects_noEffects : Respects noEffects id fun _ _ _ => True :=
  ⟨plain_id, fun _ => rfl, fun _ _ _ _ _ => trivial, fun _ _ _ => trivial⟩

/-- What `Receive` keeps besides. -/
def SameFragment (b : Fragment) (fragmentLength : Nat) (closed : Bool) : Prop :=
  fragmentLength = b.fragmentLength ∧ closed = b.closed

theorem respects_receive (initialSize : Nat) :
    Respects (receiveEffects initialSize) (giveUpReceive initialSize) SameFragment := by
  refine ⟨plain_giveUpReceive initialSize, fun _ => rfl, ?_, ?_⟩
  · rintro k b l closed ⟨rfl, rfl⟩
    unfold receiveEffects storedLength
    simp only
    split
    · exact ⟨rfl, rfl⟩
    · exact ⟨rfl, rfl⟩
  · rintro b q ⟨length, -⟩
    refine ⟨?_, rfl⟩
    simp only [giveUpReceive, receiveEffects, length]

section Calls

variable {env : Script} {s : LSocket} {fuel : Nat} {w : World}

/-- What the calls over a script look at. -/
def LSocket.plain (s : LSocket) : Net.LSocket := ⟨s.child.isSome, s.closed⟩

theorem createEvent_tcp (w : World) (status : EfiStatus) :
    (w.createEvent status).2.tcpEventStatus = w.tcpEventStatus := by
  unfold World.createEvent
  split
  · rfl
  · rfl

/-- `Connect` and `Transmit` from `CreateEvent` on. -/
theorem awaitRequest_script (configured : Bool) (child : Nat) (method : Method) (closed : Bool) :
    (awaitRequest (pollTurn id (.ofScript env configured) child) (.ofScript env configured) child method closed
        fuel w).map (fun x => (x.1, x.2.tcpEventStatus)) = Net.awaitRequest env fuel w.tcpEventStatus := by
  have created := createEvent_tcp w env.createEvent
  unfold awaitRequest Net.awaitRequest
  show Option.map _ (if efiError env.createEvent = true then _ else _) = _
  split
  · exact congrArg (fun v => some (false, v)) created
  · show Option.map _ (if efiError env.request = true then _ else _) = _
    split
    · rename_i refused
      have left := requested_refused env (w := (w.createEvent env.createEvent).2.start) refused configured
        child method (w.createEvent env.createEvent).1 0 closed
      refine congrArg (fun v => some (false, v)) (left.1.trans ?_)
      exact congrArg tokenEventStart created
    · rename_i accepted
      have going : efiError env.request = false := Bool.eq_false_iff.2 accepted
      have entered := requested_mirrors respects_noEffects (w := (w.createEvent env.createEvent).2.start) (b := ())
        (l := 0) method (w.createEvent env.createEvent).1 closed going configured child
        (congrArg tokenEventStart created) trivial
      rw [Option.map_map]
      symm
      refine Loop.run_map_eq (fun p q => pollTurn_mirrors respects_noEffects configured child) fuel entered ?_
      rintro x y ⟨result, last⟩
      show (_, _) = (_, _)
      rw [result, ← last.tcp]
      rfl

/-- **`Transmit`** over a script. -/
theorem transmit_script (configured : Bool) :
    (transmit s (.ofScript env configured) fuel w).map (fun x => (x.1, x.2.tcpEventStatus)) =
      Net.transmit s.plain env fuel w.tcpEventStatus := by
  unfold transmit Net.transmit LSocket.plain
  cases s.child with
  | none => rfl
  | some child =>
    have turns : transmitTurn (.ofScript env configured) child = pollTurn id (.ofScript env configured) child :=
      funext (transmitTurn_script configured child)
    simp only [turns]
    exact awaitRequest_script configured child .transmit s.closed

/-- **`Connect`** over a script. -/
theorem connect_script (configured : Bool) :
    (connect s (.ofScript env configured) fuel w).map (fun x => (x.1, x.2.tcpEventStatus)) =
      Net.connect s.plain configured env fuel w.tcpEventStatus := by
  unfold connect Net.connect LSocket.plain
  cases s.child with
  | none => rfl
  | some child =>
    cases configured with
    | false =>
      have other : (Stack.ofScript env false).configure ≠ efiNoMapping := by
        show efiAccessDenied ≠ efiNoMapping
        decide
      have failed : (!efiError (Stack.ofScript env false).reconfigured) = false := by
        show (!efiError efiDeviceError) = false
        decide
      have denied : connectConfigure (.ofScript env false) child fuel w = some (false,
          ((w.call (.child child .configure)).call (.child child .configure)).call (.child child .configure)) := by
        rw [connectConfigure, if_neg other, reconfigure, if_pos (by rfl), failed]
      simp only [denied]
      rfl
    | true => exact awaitRequest_script true child .connect s.closed

/-- The end of `Receive`. -/
theorem received_mirrors {x : Bool × Pending Fragment} {y : Bool × Waiting} (configured : Bool)
    (result : x.1 = y.1) (last : Mirrors env SameFragment x.2 y.2) :
    ((received (.ofScript env configured) y).1.result, (received (.ofScript env configured) y).1.databufLength,
        (received (.ofScript env configured) y).1.closed,
        (received (.ofScript env configured) y).2.tcpEventStatus) =
      ((Net.received env x).result, (Net.received env x).databufLength, (Net.received env x).closed,
        (Net.received env x).tcpEventStatus) := by
  obtain ⟨length, closed⟩ := last.buffers
  have tcp : y.2.closeEvent.tcpEventStatus = x.2.tcpEventStatus := last.tcp
  unfold received Net.received
  rw [ofScript_closeEvent, last.status.2, result]
  cases y.1 with
  | false => simp [closed, tcp]
  | true =>
    cases efiError x.2.status with
    | true => simp [closed, tcp]
    | false =>
      cases efiError env.closeEvent with
      | true => simp [closed, tcp]
      | false => simp [closed, tcp, length]

/-- **`Receive`** over a script, but for the bytes stored. -/
theorem receive_script (configured : Bool) (initialSize : Nat) :
    (receive s (.ofScript env configured) initialSize fuel w).map (fun x =>
        (x.1.result, x.1.databufLength, x.1.closed, x.2.tcpEventStatus)) =
      (Net.receive s.plain env initialSize fuel w.tcpEventStatus).map fun r =>
        (r.result, r.databufLength, r.closed, r.tcpEventStatus) := by
  have created := createEvent_tcp w.start env.createEvent
  unfold receive Net.receive LSocket.plain
  cases s.child with
  | none => rfl
  | some child =>
    cases shut : s.closed with
    | true => rfl
    | false =>
      cases made : w.start.createEvent env.createEvent with
      | mk event w' =>
        rw [made] at created
        have refused := fun error => requested_refused env (w := w') error configured child .receive event
          (asUint32 initialSize) false
        simp only [ofScript_createEvent, ofScript_request, made, Option.isSome_some, Bool.not_true, Bool.or_self,
          Bool.false_eq_true, if_false]
        split
        · exact congrArg (fun v => some (false, 0, false, v)) created
        · split
          · rename_i fin
            have error : efiError env.request = true := by
              rw [fin]
              decide
            have tcp := (refused error).1.trans created
            have length := (refused error).2
            simp only [Option.map_some, Waiting.closeEvent, World.call, length, tcp]
            rfl
          · split
            · rename_i error
              exact congrArg (fun v => some (false, 0, false, v)) ((refused error).1.trans created)
            · rename_i accepted
              have entered := requested_mirrors (respects_receive initialSize) (w := w')
                (l := asUint32 initialSize) (b := ⟨asUint32 initialSize, false, []⟩) .receive event false
                (Bool.eq_false_iff.2 accepted) configured child created ⟨rfl, rfl⟩
              rw [Option.map_map, Option.map_map]
              symm
              refine Loop.run_map_eq (fun p q => pollTurn_mirrors (respects_receive initialSize) configured child)
                fuel entered ?_
              rintro x y ⟨result, last⟩
              exact (received_mirrors configured result last).symm

end Calls

end Lavoro.Net.Traced
