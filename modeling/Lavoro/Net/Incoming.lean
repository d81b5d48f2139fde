import Lavoro.Stream.Passing
import Lavoro.Net.SocketReader

/-!
# A socket's reader while the other side is sending

An `Incoming` is the connection of a socket and what is on the way to it (`wire`). In every
`Receive` the stack may do as it likes (`Reply`), as long as what a completion stores is the
front of the wire, the callback does not run before the completion, and the request itself does
not report the end of the connection, where `Receive` takes the room it has offered for bytes
stored. `Receive` then hands out all that has been stored or nothing at all (`receive_whole`),
whatever the counter was and whenever the tries are used up.
-/

namespace Lavoro.Net
open Lib Reader

/-- How the stack answers a `Receive`, given what is on the way. -/
structure Reply where
  script : List UInt8 → Script
  notFin : ∀ wire, (script wire).request ≠ efiConnectionFin
  stores : ∀ wire, ∀ k ∈ (script wire).completion,
    k.data <+: wire ∧ k.data.length ≤ readerBufferSize - 32
  order : ∀ wire, ∀ m ∈ (script wire).callback, ∃ k ∈ (script wire).completion, k.moment ≤ m

/-- Nothing arrives. -/
def Reply.silent : Reply where
  script _ := silence
  notFin _ eq := absurd eq (by decide)
  stores _ _ mem := absurd mem (Option.not_mem_none _)
  order _ _ mem := absurd mem (Option.not_mem_none _)

structure Incoming where
  conn : Connection
  wire : List UInt8
  replies : List Reply

namespace Incoming

/-- The connection, for the next `Receive`. -/
def asked (i : Incoming) : Connection :=
  { i.conn with calls := [(i.replies.headD .silent).script i.wire] }

/-- What the next `Receive` returns. -/
def received (i : Incoming) : Received := (i.asked.receive (readerBufferSize - 32)).1

/-- After that `Receive`: what it has stored is no longer on the way. -/
def later (i : Incoming) : Incoming where
  conn := (i.asked.receive (readerBufferSize - 32)).2
  wire := i.wire.drop i.received.stored.length
  replies := i.replies.tail

/-- `LSocketReader::ReadBuffer()`. -/
def readBuffer : ReadBuffer Incoming := fun (r, i) =>
  if atEnd r then (false, r, i)
  else
    let q := Net.readBuffer (r, i.asked)
    (q.1, q.2.1, i.later)

/-- What the next `ReadBuffer()` hands out. -/
def fetch (i : Incoming) : List UInt8 × Incoming :=
  (if i.received.result then i.received.stored else [], i.later)

end Incoming

section Whole

variable {s : LSocket} {env : Script} {initialSize fuel : Nat} {c : Int} {r : Received}

/-- A token that nothing completes leaves nothing to report. -/
theorem expectedLength_pending {n : Nat} (nonneg : 0 ≤ c) (due : env.Due (c + 1) n) (fine : ¬ env.Failed n)
    (order : ∀ m ∈ env.callback, ∃ k ∈ env.completion, k.moment ≤ m) (pending : env.completedBy n = none)
    (small : initialSize < 4294967296) : expectedLength env initialSize n = 0 := by
  have notCalled : ¬ env.Called n := by
    rintro ⟨m, mem, le⟩
    obtain ⟨k, done, early⟩ := order m mem
    have completed : env.completedBy n = some k :=
      Option.filter_eq_some_iff.2 ⟨done, decide_eq_true (Nat.le_trans early le)⟩
    rw [pending] at completed
    cases completed
  obtain ⟨-, enough⟩ := due
  rw [Script.finishes, if_neg notCalled] at enough
  have late : env.patience ≤ n - 1 := by omega
  have positive : n - 1 + 1 = n := by omega
  have tries : socketMaxTries ≤ n - 1 := by
    refine ((patience_le_iff env (n - 1)).1 late).resolve_left ?_
    rw [positive]
    exact fine
  rw [expectedLength, pending]
  exact if_pos ⟨by omega, small⟩

/-- The end of a receive whose token has not been given up. -/
theorem received_whole {n : Nat} {p : Pending Fragment} (nonneg : 0 ≤ c) (due : env.Due (c + 1) n)
    (after : AfterRounds env (receiveEffects initialSize) (c + 1) ⟨asUint32 initialSize, false, []⟩ n p)
    (order : ∀ m ∈ env.callback, ∃ k ∈ env.completion, k.moment ≤ m) (small : initialSize < 4294967296)
    (yes : (received env (true, p)).result = true) :
    ∃ k ∈ env.completion, (received env (true, p)).stored = k.data ∧
      (received env (true, p)).databufLength = k.data.length ∧ k.data ≠ [] := by
  by_cases failed : efiError p.status = true
  · simp [received, failed] at yes
  by_cases close : efiError env.closeEvent = true
  · simp [received, failed, close] at yes
  have fine : ¬ env.Failed n := by
    rw [← statusAt_failed, ← after.status]
    exact failed
  have length := length_fragmentAt initialSize fine
  have stored := stored_fragmentAt env initialSize n
  rw [fragmentAt, ← after.buffers] at length stored
  simp only [received, failed, close, Bool.not_true, Bool.false_eq_true, if_false, ne_eq,
    decide_eq_true_eq] at yes ⊢
  rw [length] at yes ⊢
  rw [stored]
  cases done : env.completedBy n with
  | none => exact absurd (expectedLength_pending nonneg due fine order done small) yes
  | some k =>
    have mem : k ∈ env.completion := (Option.filter_eq_some_iff.1 done).1
    have succeeds : efiError k.status = false := by
      rw [← Bool.not_eq_true, ← failed_iff_of_completedBy done]
      exact fine
    have whole : expectedLength env initialSize n = k.data.length := by
      rw [expectedLength, done] at yes ⊢
      simp only at yes ⊢
      split at yes
      · exact absurd rfl yes
      · rw [if_neg ‹_›]
    have bytes : env.storedBy n = k.data := by simp [Script.storedBy, done, succeeds]
    rw [whole] at yes ⊢
    exact ⟨k, mem, bytes, rfl, fun none => yes (List.length_eq_zero_iff.2 none)⟩

/-- A receive that is not asked for reports nothing. -/
theorem receive_unasked (unasked : ¬ env.Asked) (notFin : env.request ≠ efiConnectionFin)
    (run : receive s env initialSize fuel c = some r) : r.result = false := by
  unfold receive at run
  by_cases shut : (!s.child || s.closed) = true
  · rw [if_pos shut] at run
    cases run
    rfl
  rw [if_neg shut] at run
  by_cases created : efiError env.createEvent = true
  · rw [if_pos created] at run
    cases run
    rfl
  rw [if_neg created, if_neg notFin] at run
  by_cases refused : efiError env.request = true
  · rw [if_pos refused] at run
    cases run
    rfl
  · exact absurd ⟨Bool.eq_false_iff.2 created, Bool.eq_false_iff.2 refused⟩ unasked

/-- **`Receive` hands out all that has been stored, or nothing.** -/
theorem receive_whole (nonneg : 0 ≤ c) (notFin : env.request ≠ efiConnectionFin)
    (order : ∀ m ∈ env.callback, ∃ k ∈ env.completion, k.moment ≤ m) (small : initialSize < 4294967296)
    (run : receive s env initialSize (turns c) c = some r) (yes : r.result = true) :
    ∃ k ∈ env.completion, r.stored = k.data ∧ r.databufLength = k.data.length ∧ k.data ≠ [] := by
  by_cases asked : env.Asked
  · by_cases opened : s.child = true ∧ s.closed = false
    · rw [receive_asked opened asked] at run
      obtain ⟨x, ends, rfl⟩ := Option.map_eq_some_iff.1 run
      obtain ⟨n, stops, -⟩ := stopsFirst_of_nonneg env (v := c + 1) (by omega)
      rcases pollTurn_stops (receiveEffects initialSize) ⟨asUint32 initialSize, false, []⟩ stops with
        ⟨due, p, left, after⟩ | ⟨-, q, left, -⟩
      · obtain rfl : x = (true, p) := Loop.Leaves.unique ⟨_, ends⟩ ⟨_, left⟩
        exact received_whole nonneg due after order small yes
      · obtain rfl : x = (false, q) := Loop.Leaves.unique ⟨_, ends⟩ ⟨_, left⟩
        exact absurd yes Bool.false_ne_true
    · unfold receive at run
      rw [if_pos (shut_of_not_open opened)] at run
      cases run
      cases yes
  · rw [receive_unasked asked notFin run] at yes
    cases yes

end Whole

namespace Incoming

/-- What `Receive` hands out is the front of the wire. -/
theorem received_front {i : Incoming} (yes : i.received.result = true) :
    i.received.stored <+: i.wire ∧ i.received.stored.length ≤ readerBufferSize - 32 ∧
      i.received.databufLength = i.received.stored.length ∧ i.received.stored ≠ [] := by
  let reply := i.replies.headD .silent
  have run := (i.asked.returned (readerBufferSize - 32)).2.1
  obtain ⟨k, mem, stored, length, some⟩ := receive_whole i.asked.nonneg (reply.notFin i.wire)
    (reply.order i.wire) (by decide) run yes
  obtain ⟨front, fits⟩ := reply.stores i.wire k mem
  have same : i.received.stored = k.data := stored
  rw [same]
  exact ⟨front, fits, length, some⟩

/-- **The reader of a socket is handed the front of what is on the way.** -/
theorem refills : Refills readBuffer fetch where
  short i := by
    unfold fetch
    split
    · rename_i yes
      exact Nat.lt_of_le_of_lt (received_front yes).2.1 (by decide)
    · exact Nat.succ_pos 127
  stored r i more some := by
    have yes : i.received.result = true := by
      by_contra no
      exact some (if_neg no)
    obtain ⟨-, -, length, bytes⟩ := received_front yes
    have positive : 0 < i.received.databufLength := by
      rw [length]
      exact List.length_pos_iff.2 bytes
    have filled := readBuffer_stores (r := r) (i.asked.returned (readerBufferSize - 32)).2.1 yes positive more
    have chunk : (fetch i).1 = i.received.stored := if_pos yes
    rw [readBuffer, if_neg (Bool.eq_false_iff.1 more), filled, chunk, ← length]
    rfl
  refused r i more none := by
    have no : i.received.result = false := by
      cases yes : i.received.result with
      | false => rfl
      | true => exact absurd ((if_pos yes).symm.trans none) (received_front yes).2.2.2
    have refuses := readBuffer_refuses (r := r) (i.asked.returned (readerBufferSize - 32)).2.1 no
    rw [readBuffer, if_neg (Bool.eq_false_iff.1 more)]
    exact ⟨refuses, rfl⟩

theorem drains : Cursor.Drains fetch wire := by
  intro i some
  have yes : i.received.result = true := by
    by_contra no
    exact some (if_neg no)
  obtain ⟨⟨rest, eq⟩, -⟩ := received_front yes
  have chunk : (fetch i).1 = i.received.stored := if_pos yes
  rw [chunk]
  show i.received.stored ++ i.wire.drop i.received.stored.length = i.wire
  rw [← eq, List.drop_left]

end Incoming

/-! ## A stack that brings what has been sent -/

/-- The next segment arrives while the tries last, if there is anything on the way. -/
structure Segment where
  size : Nat
  moment : Nat
  called : Nat
  some : 0 < size
  fits : size ≤ readerBufferSize - 32
  order : moment ≤ called
  inTime : called ≤ socketMaxTries

def Segment.script (a : Segment) (wire : List UInt8) : Script :=
  if wire = [] then silence else arriving a.moment a.called (wire.take a.size)

def Segment.reply (a : Segment) : Reply where
  script := a.script
  notFin wire := by
    have succeeds : efiSuccess ≠ efiConnectionFin := by decide
    unfold Segment.script
    split <;> exact succeeds
  stores wire k mem := by
    unfold Segment.script at mem
    split at mem
    · exact absurd mem (Option.not_mem_none _)
    · cases mem
      refine ⟨List.take_prefix _ _, ?_⟩
      rw [List.length_take]
      exact Nat.le_trans (Nat.min_le_left _ _) a.fits
  order wire m mem := by
    unfold Segment.script at mem ⊢
    split at mem
    · exact absurd mem (Option.not_mem_none _)
    · rename_i some
      cases mem
      rw [if_neg some]
      exact ⟨_, rfl, a.order⟩

namespace Incoming

/-- The socket is open, nothing is pending, and segments enough are to come. -/
structure Flowing (i : Incoming) : Prop where
  socket : i.conn.socket = ⟨true, false⟩
  settled : i.conn.tcpEventStatus = 0
  segments : ∃ arrivals : List Segment, i.replies = arrivals.map Segment.reply ∧ i.wire.length ≤ arrivals.length

theorem asked_opened {i : Incoming} (socket : i.conn.socket = ⟨true, false⟩) (settled : i.conn.tcpEventStatus = 0) :
    i.asked = .opened [(i.replies.headD .silent).script i.wire] := by
  obtain ⟨⟨s, c, calls, nonneg⟩, wire, replies⟩ := i
  cases socket
  cases settled
  rfl

/-- A segment arrives. -/
theorem segment_arrives {i : Incoming} (socket : i.conn.socket = ⟨true, false⟩) (settled : i.conn.tcpEventStatus = 0)
    (a : Segment) {rest : List Reply} (next : i.replies = a.reply :: rest) (some : i.wire ≠ []) :
    i.received.result = true ∧ i.received.stored = i.wire.take a.size ∧
      i.later.conn = .opened [] := by
  have bytes : i.wire.take a.size ≠ [] := by
    rw [ne_eq, List.take_eq_nil_iff]
    rintro (zero | none)
    · exact absurd a.some (by omega)
    · exact some none
  have fits : (i.wire.take a.size).length ≤ readerBufferSize - 32 := by
    rw [List.length_take]
    exact Nat.le_trans (Nat.min_le_left _ _) a.fits
  let arrival : Arrival := ⟨i.wire.take a.size, a.moment, a.called, bytes, fits, a.order, a.inTime⟩
  have asked : i.asked = .opened (arrival.script :: []) := by
    rw [asked_opened socket settled, next]
    show Connection.opened [a.script i.wire] = _
    rw [Segment.script, if_neg some]
    rfl
  have returned := receive_fst (opened_returns arrival [])
  have after := opened_receive arrival []
  rw [← asked] at returned after
  have received : i.received = ⟨true, arrival.data.length, arrival.data, 0, false⟩ := returned
  rw [received]
  exact ⟨rfl, rfl, after⟩

/-- **While the stack brings what has been sent** the reader gets all that is on the way. -/
theorem supplies : Cursor.Supplies fetch fun i l => i.Flowing ∧ i.wire = l := by
  refine Cursor.supplies_of_drains drains fun i flowing => ?_
  obtain ⟨socket, settled, arrivals, replies, enough⟩ := flowing
  by_cases none : i.wire = []
  · refine ⟨fun _ => none, fun some => absurd ?_ some⟩
    unfold fetch
    split
    · rename_i yes
      obtain ⟨front, -⟩ := received_front yes
      rw [none] at front
      exact List.prefix_nil.1 front
    · rfl
  · match arrivals with
    | [] => exact absurd (List.length_eq_zero_iff.1 (Nat.le_zero.1 enough)) none
    | a :: others =>
      obtain ⟨yes, stored, conn⟩ := segment_arrives socket settled a replies none
      have chunk : (fetch i).1 = i.received.stored := if_pos yes
      refine ⟨fun empty => absurd (chunk.symm.trans empty) (received_front yes).2.2.2, fun _ => ?_⟩
      refine ⟨congrArg Connection.socket conn, congrArg Connection.tcpEventStatus conn, others,
        congrArg List.tail replies, ?_⟩
      have positive := List.length_pos_iff.2 (received_front yes).2.2.2
      have less : (i.wire.drop i.received.stored.length).length = i.wire.length - i.received.stored.length :=
        List.length_drop
      show (i.wire.drop i.received.stored.length).length ≤ others.length
      rw [List.length_cons] at enough
      omega

end Incoming

end Lavoro.Net
