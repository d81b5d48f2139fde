import Lavoro.Net.Receive
import Lavoro.Stream.Text

/-!
# The reader of a socket (`LSocketReader`)

`ReadBuffer()` asks `Receive` for 96 bytes. A `Connection` is what it sees of the network:
the socket, `TCPEventStatus`, which is never negative, and what the firmware does in the
calls to come. On a connection whose calls bring segments in time and then an end of some
kind the reader is handed the segments, one a call, and a last chunk if the end is reported
by the request itself: 96 bytes of which none has been stored.
-/

namespace Lavoro.Net
open Lib Reader

/-- A call in which every call of the firmware succeeds. -/
def awaiting (completion : Option Completion) (callback : Option Nat) : Script where
  createEvent := efiSuccess
  request := efiSuccess
  completion
  callback
  poll _ := efiSuccess
  closeEvent := efiSuccess

/-- A call that the stack never answers. -/
def silence : Script := awaiting none none

/-- Turns enough for every `Receive`. -/
def turns (tcpEventStatus : Int) : Nat := socketMaxTries + (tcpEventStatus + 1).toNat + 1

section Receive

variable {env : Script} {s : LSocket} {initialSize : Nat} {c : Int}

theorem finished_nonneg {v : Int} (nonneg : 0 ≤ v) (k : Nat) : 0 ≤ finished v k := by
  unfold finished
  rw [if_pos nonneg]
  exact Int.le_max_left 0 _

/-- **`Receive` returns**, and the counter is not negative. -/
theorem receive_returns (s : LSocket) (env : Script) (initialSize : Nat) (nonneg : 0 ≤ c) :
    ∃ r, receive s env initialSize (turns c) c = some r ∧ 0 ≤ r.tcpEventStatus := by
  have started : 0 ≤ tokenEventStart c := by
    unfold tokenEventStart
    omega
  unfold receive
  simp only
  split_ifs
  · exact ⟨_, rfl, nonneg⟩
  · exact ⟨_, rfl, started⟩
  · exact ⟨_, rfl, started⟩
  · exact ⟨_, rfl, started⟩
  · obtain ⟨n, stops, early⟩ := stopsFirst_of_nonneg env started
    have enough : n + 1 ≤ turns c := Nat.succ_le_succ early
    rcases pollTurn_stops (receiveEffects initialSize) ⟨asUint32 initialSize, s.closed, []⟩ stops with
      ⟨-, p, ends, after⟩ | ⟨-, q, ends, after⟩
    · rw [Loop.run_mono ends enough]
      refine ⟨_, rfl, ?_⟩
      rw [received_tcp, after.tcp]
      exact finished_nonneg started _
    · rw [Loop.run_mono ends enough]
      refine ⟨_, rfl, ?_⟩
      rw [received_tcp, after.tcp]
      exact finished_nonneg started _

/-- The reports of an accepted request whose polls do not fail. -/
theorem receive_waits (open' : s.child = true ∧ s.closed = false) (asked : env.Asked)
    (polls : ∀ n, efiError (env.poll n) = false) (initialSize : Nat) (nonneg : 0 ≤ c) :
    ∃ n p, env.StopsFirst (c + 1) n ∧ env.Due (c + 1) n ∧
      AfterRounds env (receiveEffects initialSize) (c + 1) ⟨asUint32 initialSize, false, []⟩ n p ∧
      receive s env initialSize (turns c) c = some (received env (true, p)) := by
  obtain ⟨n, stops, early⟩ := stopsFirst_of_nonneg env (v := c + 1) (by omega)
  have due : env.Due (c + 1) n := by
    refine stops.1.resolve_right fun fails => ?_
    rw [polls n] at fails
    cases fails
  rcases pollTurn_stops (receiveEffects initialSize) ⟨asUint32 initialSize, false, []⟩ stops with
    ⟨-, p, ends, after⟩ | ⟨pending, -⟩
  · have enough : n + 1 ≤ turns c := Nat.succ_le_succ early
    refine ⟨n, p, stops, due, after, ?_⟩
    rw [receive_asked open' asked, Loop.run_mono ends enough]
    rfl
  · exact absurd due pending

/-- A receive that has stored nothing at its end reports nothing, unless the callback has run
without an error of the token. -/
theorem receive_nothing (open' : s.child = true ∧ s.closed = false) (asked : env.Asked)
    (polls : ∀ n, efiError (env.poll n) = false) (small : initialSize < 4294967296)
    (nothing : ∀ n, env.storedBy n = []) (fails : ∀ n, env.Called n → env.Failed n) :
    ∃ r, receive s env initialSize (turns 0) 0 = some r ∧ r.result = false ∧ r.stored = [] := by
  obtain ⟨n, p, stops, due, after, run⟩ := receive_waits open' asked polls initialSize (Int.le_refl 0)
  have stored : (received env (true, p)).stored = [] := by
    have bytes : p.buffers.stored = [] := by
      rw [after.buffers]
      exact (stored_fragmentAt env initialSize n).trans (nothing n)
    unfold received
    split_ifs <;> exact bytes
  have well : EndsWell env initialSize 0 n := by
    by_cases failed : env.Failed n
    · exact .tokenFails due failed
    · have pending : ¬ env.Called n := fun called => failed (fails n called)
      have many : socketMaxTries < n := by
        have enough := due.2
        rw [Script.finishes, if_neg pending] at enough
        have late := (patience_le_iff env (n - 1)).1 (by omega)
        rw [show n - 1 + 1 = n by omega] at late
        have tries := late.resolve_left failed
        omega
      have late := (late_iff stops due failed).1 many
      cases done : env.completedBy n with
      | none => exact .notCompleted due done (.inr (.inr ⟨late, small⟩))
      | some k =>
        have fine : efiError k.status = false := by
          rw [← Bool.not_eq_true, ← failed_iff_of_completedBy done]
          exact failed
        have none := nothing n
        simp only [Script.storedBy, done, fine, Bool.false_eq_true, if_false] at none
        exact .completed due done fine (.inl none)
  have report := (exact_due_iff stops due after).2 well
  refine ⟨_, run, ?_, stored⟩
  rw [← Bool.not_eq_true, report.2, stored]
  exact Nat.lt_irrefl 0

theorem closed_fragmentAt (env : Script) (initialSize : Nat) {n : Nat} (le : n ≤ env.patience) :
    (fragmentAt env initialSize n).closed = false := by
  have keep : ∀ m (b : Fragment),
      (completeAt env (receiveEffects initialSize) m ⟨0, 0, 0, 0, b⟩).buffers.closed = b.closed := by
    intro m b
    unfold completeAt
    cases env.completionAt m with
    | none => rfl
    | some k =>
      simp only [receiveEffects]
      split <;> rfl
  induction n with
  | zero => exact keep 0 _
  | succ n ih =>
    have before := ih (Nat.le_of_succ_le le)
    rw [fragmentAt, buffersAt, if_neg (Nat.not_le_of_lt le)]
    exact (keep _ _).trans before

/-- The call whose token is completed with these bytes. -/
def arriving (moment called : Nat) (data : List UInt8) : Script :=
  awaiting (some ⟨moment, efiSuccess, data⟩) (some called)

theorem awaiting_asked (completion : Option Completion) (callback : Option Nat) :
    (awaiting completion callback).Asked :=
  ⟨efiError_success, efiError_success⟩

theorem patience_arriving (moment called : Nat) (data : List UInt8) :
    (arriving moment called data).patience = socketMaxTries := by
  simp [Script.patience, arriving, awaiting]

theorem not_failed_arriving (moment called : Nat) (data : List UInt8) (n : Nat) :
    ¬ (arriving moment called data).Failed n := by
  rintro ⟨k, mem, -, bad⟩
  cases mem
  cases efiError_success.symm.trans bad

theorem completedBy_arriving {moment called : Nat} (order : moment ≤ called) (data : List UInt8) :
    (arriving moment called data).completedBy called = some ⟨moment, efiSuccess, data⟩ :=
  Option.filter_eq_some_iff.2 ⟨rfl, decide_eq_true order⟩

/-- The loop of such a call ends with the callback. -/
theorem stopsFirst_arriving {moment called : Nat} (inTime : called ≤ socketMaxTries)
    (data : List UInt8) : (arriving moment called data).StopsFirst 1 called := by
  constructor
  · refine .inl ⟨by decide, ?_⟩
    have now : (arriving moment called data).Called called := ⟨called, rfl, Nat.le_refl _⟩
    rw [Script.finishes, if_pos now]
    omega
  · rintro k early (due | fails)
    · have notYet : ¬ (arriving moment called data).Called k := by
        rintro ⟨m, mem, le⟩
        cases mem
        omega
      have enough := due.2
      rw [Script.finishes, if_neg notYet, patience_arriving] at enough
      omega
    · cases efiError_success.symm.trans fails

/-- A receive that is completed, and its callback run, within the tries. -/
theorem receive_completed (open' : s.child = true ∧ s.closed = false) {moment called : Nat}
    {data : List UInt8} (order : moment ≤ called) (inTime : called ≤ socketMaxTries)
    (nonempty : data ≠ []) (initialSize : Nat) :
    receive s (arriving moment called data) initialSize (turns 0) 0 =
      some ⟨true, data.length, data, 0, false⟩ := by
  have asked : (arriving moment called data).Asked := awaiting_asked _ _
  obtain ⟨n, p, stops, due, after, run⟩ :=
    receive_waits open' asked (fun _ => efiError_success) initialSize (Int.le_refl 0)
  obtain rfl : n = called := stopsFirst_unique stops (stopsFirst_arriving inTime data)
  have fine := not_failed_arriving moment n data n
  have done := completedBy_arriving order data
  have bytes : p.buffers = fragmentAt (arriving moment n data) initialSize n := after.buffers
  have stored : p.buffers.stored = data := by
    simp [bytes, stored_fragmentAt, Script.storedBy, done]
  have length : p.buffers.fragmentLength = data.length := by
    rw [bytes, length_fragmentAt initialSize fine, expectedLength, done]
    simp only
    rw [if_neg (by omega)]
  have closed : p.buffers.closed = false := by
    rw [bytes]
    apply closed_fragmentAt _ _
    rwa [patience_arriving]
  have tcp : p.tcpEventStatus = 0 := by
    rw [after.tcp, finished_eq_zero_iff]
    exact due
  have good : efiError p.status = false := by
    rw [after.status, ← Bool.not_eq_true, statusAt_failed]
    exact fine
  have close : efiError (arriving moment n data).closeEvent = false := efiError_success
  rw [run]
  simp [received, good, close, length, stored, closed, tcp, nonempty]

/-- A receive whose token fails, if it is completed at all. -/
theorem receive_failing (open' : s.child = true ∧ s.closed = false) {completion : Option Completion}
    (bad : ∀ k ∈ completion, efiError k.status = true) (small : initialSize < 4294967296) :
    ∃ r, receive s (awaiting completion (completion.map Completion.moment)) initialSize (turns 0) 0 =
      some r ∧ r.result = false ∧ r.stored = [] := by
  refine receive_nothing open' (awaiting_asked _ _) (fun _ => efiError_success) small ?_ ?_
  · intro n
    unfold Script.storedBy
    cases done : (awaiting completion (completion.map Completion.moment)).completedBy n with
    | none => rfl
    | some k =>
      have mem : k ∈ completion := (Option.filter_eq_some_iff.1 done).1
      exact if_pos (bad k mem)
  · rintro n ⟨m, mem, le⟩
    obtain ⟨k, mem', rfl⟩ := Option.map_eq_some_iff.1 mem
    exact ⟨k, mem', le, bad k mem'⟩

end Receive

/-! ## Connections -/

/-- What a socket's reader sees of the network; the stack answers no call behind the last. -/
structure Connection where
  socket : LSocket
  tcpEventStatus : Int
  calls : List Script
  nonneg : 0 ≤ tcpEventStatus

/-- The next `Receive` of a connection. -/
def Connection.returned (conn : Connection) (initialSize : Nat) :
    { r : Received // receive conn.socket (conn.calls.headD silence) initialSize
      (turns conn.tcpEventStatus) conn.tcpEventStatus = some r ∧ 0 ≤ r.tcpEventStatus } :=
  match h : receive conn.socket (conn.calls.headD silence) initialSize
      (turns conn.tcpEventStatus) conn.tcpEventStatus with
  | some r => ⟨r, rfl, by
      obtain ⟨r', ends, nonneg⟩ := receive_returns conn.socket _ initialSize conn.nonneg
      cases h.symm.trans ends
      exact nonneg⟩
  | none => False.elim (by
      obtain ⟨r', ends, -⟩ := receive_returns conn.socket _ initialSize conn.nonneg
      cases h.symm.trans ends)

/-- `Receive` on a connection; on a socket that is shut it calls nothing. -/
def Connection.receive (conn : Connection) (initialSize : Nat) : Received × Connection :=
  let r := conn.returned initialSize
  (r.1,
    { socket := { conn.socket with closed := r.1.closed }
      tcpEventStatus := r.1.tcpEventStatus
      calls := if !conn.socket.child || conn.socket.closed then conn.calls else conn.calls.tail
      nonneg := r.2.2 })

/-- `LSocketReader::ReadBuffer()`; the socket of a reader is the one it was made for. -/
def readBuffer : ReadBuffer Connection := fun (r, conn) =>
  if !atEnd r then
    let (x, conn) := conn.receive (readerBufferSize - 32)
    let r := { r with buffer := r.buffer.store x.stored }
    if !x.result then (false, markEnd r, conn)
    else
      let r := { r with current := 0, size := x.databufLength }
      (r.current != r.size, r, conn)
  else (false, r, conn)

/-- An open socket with nothing pending. -/
def Connection.opened (calls : List Script) : Connection where
  socket := ⟨true, false⟩
  tcpEventStatus := 0
  calls
  nonneg := Int.le_refl 0

/-- A segment that arrives: the call in which it does is completed, and its callback runs,
before the tries are used up. -/
structure Arrival where
  data : List UInt8
  moment : Nat
  called : Nat
  some : data ≠ []
  fits : data.length ≤ readerBufferSize - 32
  order : moment ≤ called
  inTime : called ≤ socketMaxTries

/-- How the stack reports that nothing more arrives: the request answers that the connection
is closed, or another error; the token is completed with an error; or nothing happens. -/
inductive Ending where
  | fin
  | refused (status : EfiStatus) (error : efiError status = true) (notFin : status ≠ efiConnectionFin)
  | aborted (moment : Nat) (status : EfiStatus) (error : efiError status = true)
  | silent

/-- What is received on a connection. -/
structure Feed where
  segments : List Arrival
  ending : Ending

def Arrival.script (a : Arrival) : Script := arriving a.moment a.called a.data

def Ending.script : Ending → Script
  | .fin => { awaiting none none with request := efiConnectionFin }
  | .refused status _ _ => { awaiting none none with request := status }
  | .aborted moment status _ => awaiting (some ⟨moment, status, []⟩) (some moment)
  | .silent => silence

/-- The connection on which a feed arrives. -/
def Feed.connection (f : Feed) : Connection :=
  .opened (f.segments.map Arrival.script ++ [f.ending.script])

/-- The stream that arrives. -/
def Feed.stream (f : Feed) : List UInt8 := (f.segments.map Arrival.data).flatten

/-- The chunks that a feed hands to the reader. -/
def Feed.chunks (f : Feed) : List Reported :=
  f.segments.map (fun a => ⟨a.data, a.data.length⟩) ++
    match f.ending with
    | .fin => [⟨[], readerBufferSize - 32⟩]
    | _ => []

section Serves

variable {conn : Connection} {x : Received} {r : LReader}

/-- What `Receive` returns on a connection. -/
def Connection.Returns (conn : Connection) (x : Received) : Prop :=
  Net.receive conn.socket (conn.calls.headD silence) (readerBufferSize - 32)
    (turns conn.tcpEventStatus) conn.tcpEventStatus = some x

theorem receive_fst (h : conn.Returns x) : (conn.receive (readerBufferSize - 32)).1 = x :=
  Option.some.inj ((conn.returned _).2.1.symm.trans h)

theorem readBuffer_refuses (h : conn.Returns x) (no : x.result = false) :
    (readBuffer (r, conn)).1 = false := by
  cases more : atEnd r <;> simp [readBuffer, more, receive_fst h, no]

theorem readBuffer_stores (h : conn.Returns x) (yes : x.result = true) (some : 0 < x.databufLength)
    (more : atEnd r = false) :
    readBuffer (r, conn) =
      (true, refilled r ⟨x.stored, x.databufLength⟩, (conn.receive (readerBufferSize - 32)).2) := by
  have nonempty : 0 ≠ x.databufLength := Nat.ne_of_lt some
  simp [readBuffer, more, receive_fst h, yes, nonempty, refilled]

/-- A segment that arrives next. -/
theorem opened_returns (a : Arrival) (rest : List Script) :
    (Connection.opened (a.script :: rest)).Returns ⟨true, a.data.length, a.data, 0, false⟩ :=
  receive_completed ⟨rfl, rfl⟩ a.order a.inTime a.some _

theorem opened_receive (a : Arrival) (rest : List Script) :
    ((Connection.opened (a.script :: rest)).receive (readerBufferSize - 32)).2 = .opened rest := by
  have returned := receive_fst (opened_returns a rest)
  unfold Connection.receive at returned ⊢
  simp only at returned
  simp only [returned]
  rfl

/-- The end of a connection: an error that is not reported by the request itself. -/
theorem ending_refuses {e : Ending} (notFin : e ≠ .fin) :
    ∃ x, (Connection.opened [e.script]).Returns x ∧ x.result = false := by
  have open' : (Connection.opened [e.script]).socket.child = true ∧
      (Connection.opened [e.script]).socket.closed = false := ⟨rfl, rfl⟩
  have small : readerBufferSize - 32 < 4294967296 := by decide
  cases e with
  | fin => exact absurd rfl notFin
  | refused status error other =>
    refine ⟨⟨false, 0, [], 1, false⟩, ?_, rfl⟩
    show Net.receive _ _ _ _ _ = _
    simp [Net.receive, Connection.opened, Ending.script, awaiting, error, other, tokenEventStart]
  | aborted moment status error =>
    have bad : ∀ k ∈ some (Completion.mk moment status []), efiError k.status = true := by
      rintro k mem
      cases mem
      exact error
    obtain ⟨x, ends, no, -⟩ := receive_failing open' bad small
    exact ⟨x, ends, no⟩
  | silent =>
    have bad : ∀ k ∈ (none : Option Completion), efiError k.status = true :=
      fun _ mem => absurd mem (Option.not_mem_none _)
    obtain ⟨x, ends, no, -⟩ := receive_failing open' bad small
    exact ⟨x, ends, no⟩

theorem fin_returns :
    (Connection.opened [Ending.fin.script]).Returns ⟨true, readerBufferSize - 32, [], 1, true⟩ := rfl

/-- A connection whose socket is shut. -/
theorem closed_refuses (shut : conn.socket.closed = true) :
    (readBuffer (r, conn)).1 = false := by
  have returns : conn.Returns ⟨false, 0, [], conn.tcpEventStatus, true⟩ := by
    unfold Connection.Returns Net.receive
    simp [shut]
  exact readBuffer_refuses returns rfl

/-- **A feed hands its chunks to the reader.** -/
theorem feed_serves (f : Feed) : Serves readBuffer f.connection f.chunks := by
  obtain ⟨segments, ending⟩ := f
  unfold Feed.connection Feed.chunks
  simp only
  induction segments with
  | nil =>
    simp only [List.map_nil, List.nil_append]
    by_cases fin : ending = .fin
    · subst fin
      refine ⟨by decide, _, fun r more => readBuffer_stores fin_returns rfl (by decide) more, ?_⟩
      intro r _
      apply closed_refuses
      show ((Connection.opened [Ending.fin.script]).receive (readerBufferSize - 32)).1.closed = true
      rw [receive_fst fin_returns]
    · obtain ⟨x, returns, no⟩ := ending_refuses fin
      have none : Serves readBuffer (Connection.opened [ending.script]) [] :=
        fun r _ => readBuffer_refuses returns no
      cases ending with
      | fin => exact absurd rfl fin
      | refused => exact none
      | aborted => exact none
      | silent => exact none
  | cons a segments ih =>
    simp only [List.map_cons, List.cons_append]
    have some : 0 < a.data.length := List.length_pos_iff.2 a.some
    have room : a.data.length < readerBufferSize := Nat.lt_of_le_of_lt a.fits (by decide)
    refine ⟨⟨some, room⟩, _, fun r more => readBuffer_stores (opened_returns a _) rfl some more, ?_⟩
    rw [opened_receive]
    exact ih

end Serves

end Lavoro.Net
