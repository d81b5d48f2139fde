import Lavoro.Lib.Reach
import Lavoro.Net.Incoming
import Lavoro.Stream.Destruction
import Lavoro.Stream.Handing

/-!
# Two sockets that talk to each other

Both sides of a connection write and read through an `LSocket`, whose reader and writer share
the connection and with it `TCPEventStatus`. What the child of one side has accepted is on the
way to the other (`wire`) until a `Receive` there stores it. The sides act in any order, and the
stack answers every call as it likes.

At every moment the bytes that a client has taken, those in its reader's buffer and those on the
way make up, in this order, what the other side's child has accepted (`conversation_safe`). As long as every call of the firmware
succeeds and segments arrive, nothing that was written and flushed fails to arrive (`conversation_delivers`).
-/

namespace Lavoro.Net
open Lib Reader

inductive Side where
  | near
  | far
  deriving Repr, DecidableEq

def Side.other : Side → Side
  | .near => .far
  | .far => .near

theorem Side.other_ne (s : Side) : s.other ≠ s := by
  cases s <;> exact nofun

@[simp] theorem Side.other_other (s : Side) : s.other.other = s := by
  cases s <;> rfl

theorem Side.eq_other {s t : Side} (ne : t ≠ s) : t = s.other := by
  cases s <;> cases t <;> first | rfl | exact absurd rfl ne

/-- An `LSocket` in use. -/
structure Peer where
  writer : LWriter
  out : Outgoing
  reader : LReader

/-- `wire s` has been sent by the side `s`, `written s` has been written there, and `taken s` is what
the client of the reader has got there. -/
structure Conversation where
  peer : Side → Peer
  wire : Side → List UInt8
  written : Side → List UInt8
  taken : Side → List UInt8

/-- What a side does, and how the stack answers: a call on the writer, the first `Next()` of the
reader, and `Read(Buffer, n)`. -/
inductive Act where
  | send (s : Side) (call : WriteCall) (answers : List Script)
  | start (s : Side) (replies : List Reply)
  | read (s : Side) (n : Nat) (replies : List Reply)

def Act.side : Act → Side
  | .send s _ _ => s
  | .start s _ => s
  | .read s _ _ => s

/-- The stack's answers to the next transmissions. -/
def Outgoing.answered (o : Outgoing) (answers : List Script) : Outgoing :=
  { o with conn := { o.conn with calls := answers } }

namespace Conversation

variable {c c' : Conversation}

/-- What a reader sees of the network. -/
def incoming (c : Conversation) (s : Side) (replies : List Reply) : Incoming :=
  ⟨(c.peer s).out.conn, c.wire s.other, replies⟩

/-- The writer of a side has been used. -/
def sent (c : Conversation) (s : Side) (q : LWriter × Outgoing) (bytes : List UInt8) : Conversation :=
  { c with
    peer := Function.update c.peer s { c.peer s with writer := q.1, out := q.2 }
    wire := Function.update c.wire s (c.wire s ++ q.2.received.drop (c.peer s).out.received.length)
    written := Function.update c.written s (c.written s ++ bytes) }

/-- The reader of a side has been used. -/
def got (c : Conversation) (s : Side) (q : LReader × Incoming) (bytes : List UInt8) : Conversation :=
  { c with
    peer := Function.update c.peer s
      { c.peer s with reader := q.1, out := { (c.peer s).out with conn := q.2.conn } }
    wire := Function.update c.wire s.other q.2.wire
    taken := Function.update c.taken s (c.taken s ++ bytes) }

def act (c : Conversation) : Act → Conversation
  | .send s call answers =>
    c.sent s (Writer.call writeBuffer call ((c.peer s).writer, (c.peer s).out.answered answers))
      (bytesWritten call.steps)
  | .start s replies => c.got s (next Incoming.readBuffer ((c.peer s).reader, c.incoming s replies)).2 []
  | .read s n replies =>
    let x := read Incoming.readBuffer n ((c.peer s).reader, c.incoming s replies)
    c.got s x.2 x.1

/-- A reader is started once, and before anything is read. -/
def Allowed (c : Conversation) : Act → Prop
  | .send _ _ _ => True
  | .start s _ => view (c.peer s).reader = .fresh
  | .read s _ _ => view (c.peer s).reader ≠ .fresh

/-- Both sockets are open, and nothing has happened. -/
structure Begins (c : Conversation) : Prop where
  writer : ∀ s, (c.peer s).writer = Writer.empty
  out : ∀ s, (c.peer s).out = ⟨.opened [], true, []⟩
  reader : ∀ s, ∃ buffer, (c.peer s).reader = construct buffer
  wire : ∀ s, c.wire s = []
  written : ∀ s, c.written s = []
  taken : ∀ s, c.taken s = []

/-- The direction from the side `s` to the other. -/
structure Flow (rel : List UInt8 → List UInt8 → Prop) (c : Conversation) (s : Side) : Prop where
  sent : rel ((c.peer s).out.received ++ (c.peer s).writer.pending) (c.written s)
  plain : Plain (c.peer s.other).reader
  passed : Cursor.Passed id (c.peer s).out.received (c.taken s.other) (view (c.peer s.other).reader, c.wire s)

/-- What a send is known to do with the bytes. -/
def Sends (rel : List UInt8 → List UInt8 → Prop) (c : Conversation) : Act → Prop
  | .send s _ answers =>
    ∃ Good, Good ((c.peer s).out.answered answers) ∧ Writer.Receives Outgoing.transmit Outgoing.received Good rel
  | _ => True

variable {rel : List UInt8 → List UInt8 → Prop}

theorem Begins.flow (cuts : Writer.Cuts rel) (h : c.Begins) (s : Side) : Flow rel c s := by
  obtain ⟨buffer, reader⟩ := h.reader s.other
  refine ⟨?_, ?_, ?_⟩
  · rw [h.out, h.writer, h.written]
    exact cuts.whole []
  · rw [reader]
    exact plain_construct buffer
  · rw [h.out, h.taken, h.wire, reader, view_construct]
    rfl

/-- A side's own sending. -/
theorem flow_sent (cuts : Writer.Cuts rel) {s : Side} (flow : Flow rel c s) {q : LWriter × Outgoing}
    {bytes : List UInt8} {Good : Outgoing → Prop} {answers : List Script}
    (handed : Writer.Handed Outgoing.received Good rel bytes
      ((c.peer s).writer, (c.peer s).out.answered answers) q) : Flow rel (c.sent s q bytes) s := by
  obtain ⟨kept, eq, cut⟩ := handed.handed
  have received : q.2.received = (c.peer s).out.received ++ kept := eq
  refine ⟨?_, ?_, ?_⟩
  · simp only [sent, Function.update_self]
    have behind := cuts.append flow.sent (cuts.whole bytes)
    have front := cuts.append (cuts.whole (c.peer s).out.received) cut
    rw [List.append_assoc] at behind
    rw [received, List.append_assoc]
    exact cuts.trans front behind
  · simp only [sent, Function.update_of_ne s.other_ne]
    exact flow.plain
  · simp only [sent, Function.update_self, Function.update_of_ne s.other_ne]
    rw [received, List.drop_left]
    exact Cursor.passed_append flow.passed kept

/-- The sending of the other side. -/
theorem flow_sent_other {s : Side} (flow : Flow rel c s.other) (q : LWriter × Outgoing) (bytes : List UInt8) :
    Flow rel (c.sent s q bytes) s.other := by
  refine ⟨?_, ?_, ?_⟩
  · simp only [sent, Function.update_of_ne s.other_ne]
    exact flow.sent
  · have plain := flow.plain
    rw [Side.other_other] at plain ⊢
    simp only [sent, Function.update_self]
    exact plain
  · have passed := flow.passed
    rw [Side.other_other] at passed ⊢
    simp only [sent, Function.update_self, Function.update_of_ne s.other_ne]
    exact passed

/-- The reading of the other side. -/
theorem flow_got {s : Side} (flow : Flow rel c s.other) {q : LReader × Incoming} {bytes : List UInt8}
    {Good : Bool → Incoming → Prop}
    (passing : Passing Incoming.wire Good (c.peer s.other).out.received (c.taken s ++ bytes) q) :
    Flow rel (c.got s q bytes) s.other := by
  refine ⟨?_, ?_, ?_⟩
  · simp only [got, Function.update_of_ne s.other_ne]
    exact flow.sent
  · rw [Side.other_other]
    simp only [got, Function.update_self]
    exact passing.plain
  · rw [Side.other_other]
    simp only [got, Function.update_self, Function.update_of_ne s.other_ne]
    exact Cursor.passed_queue.1 passing.passed

/-- A side's own reading. -/
theorem flow_got_other {s : Side} (flow : Flow rel c s) (q : LReader × Incoming) (bytes : List UInt8) :
    Flow rel (c.got s q bytes) s := by
  refine ⟨?_, ?_, ?_⟩
  · simp only [got, Function.update_self]
    exact flow.sent
  · simp only [got, Function.update_of_ne s.other_ne]
    exact flow.plain
  · simp only [got, Function.update_self, Function.update_of_ne s.other_ne, Function.update_of_ne s.other_ne.symm]
    exact flow.passed

/-- What the reader of a side is in the midst of. -/
theorem Flow.passing {s : Side} (flow : Flow rel c s.other) (Good : Bool → Incoming → Prop)
    (replies : List Reply) (good : Good (atEnd (c.peer s).reader) (c.incoming s replies)) :
    Passing Incoming.wire Good (c.peer s.other).out.received (c.taken s)
      ((c.peer s).reader, c.incoming s replies) := by
  have plain := flow.plain
  have passed := flow.passed
  rw [Side.other_other] at plain passed
  exact ⟨plain, Cursor.passed_queue.2 passed, good⟩

/-- The first `Next()` takes nothing. -/
theorem start_passing {Good : Bool → Incoming → Prop}
    (flows : ∀ i, Good false i → Good (Incoming.fetch i).1.isEmpty (Incoming.fetch i).2)
    {total taken : List UInt8} {p : LReader × Incoming} (h : Passing Incoming.wire Good total taken p)
    (fresh : view p.1 = .fresh) :
    Passing Incoming.wire Good total (taken ++ []) (next Incoming.readBuffer p).2 ∧
      view (next Incoming.readBuffer p).2.1 ≠ .fresh := by
  have moved := next_passing Incoming.refills Incoming.drains flows h
  rw [fresh] at moved
  exact moved

/-- **Every act keeps both directions.** -/
theorem flow_act (cuts : Writer.Cuts rel) (flow : ∀ s, Flow rel c s) (a : Act) (allowed : c.Allowed a)
    (sends : c.Sends rel a) (s : Side) : Flow rel (c.act a) s := by
  have anything : ∀ i : Incoming, True → True := fun _ h => h
  cases a with
  | send t call answers =>
    obtain ⟨Good, good, receives⟩ := sends
    have handed := Writer.handed_call (p := ((c.peer t).writer, (c.peer t).out.answered answers)) cuts receives
      good call
    by_cases same : s = t
    · subst same
      exact flow_sent cuts (flow s) handed
    · rw [Side.eq_other same]
      exact flow_sent_other (flow t.other) _ _
  | start t replies =>
    have passing := (flow t.other).passing (fun _ _ => True) replies trivial
    by_cases same : s = t
    · subst same
      exact flow_got_other (flow s) _ _
    · rw [Side.eq_other same]
      exact flow_got (flow t.other) (start_passing anything passing allowed).1
  | read t n replies =>
    have passing := (flow t.other).passing (fun _ _ => True) replies trivial
    by_cases same : s = t
    · subst same
      exact flow_got_other (flow s) _ _
    · rw [Side.eq_other same]
      exact flow_got (flow t.other)
        (read_passing Incoming.refills Incoming.drains anything n passing allowed).1

/-- A refused transmission loses its payload as a whole. -/
theorem sends_sublist (c : Conversation) (a : Act) : c.Sends List.Sublist a := by
  cases a with
  | start => exact trivial
  | read => exact trivial
  | send s call answers =>
    refine ⟨fun _ => True, trivial, fun payload o _ => ⟨trivial, ?_⟩⟩
    by_cases accepts : o.accepts = true
    · exact ⟨payload, if_pos accepts, List.Sublist.refl payload⟩
    · exact ⟨[], (if_neg accepts).trans (List.append_nil _).symm, List.nil_sublist payload⟩

/-! ## The sides -/

/-- What an act reads, `Good` being kept by what the stack does in a `Receive`, and `i` what the reader sees
behind it. -/
theorem act_reads (Good : Bool → Incoming → Prop)
    (flows : ∀ i, Good false i → Good (Incoming.fetch i).1.isEmpty (Incoming.fetch i).2)
    (flow : ∀ s, Flow rel c s) (s : Side) (replies : List Reply)
    (good : Good (atEnd (c.peer s).reader) (c.incoming s replies)) {a : Act} (allowed : c.Allowed a)
    (reads : a = .start s replies ∨ ∃ n, a = .read s n replies) :
    ∃ i : Incoming, Good (atEnd ((c.act a).peer s).reader) i ∧
      ((c.act a).peer s).out = { (c.peer s).out with conn := i.conn } := by
  have passing := (flow s.other).passing Good replies good
  rcases reads with rfl | ⟨n, rfl⟩
  · have moved := (start_passing flows passing allowed).1.good
    refine ⟨(next Incoming.readBuffer ((c.peer s).reader, c.incoming s replies)).2.2, ?_, ?_⟩
    · simp only [act, got, Function.update_self]
      exact moved
    · simp only [act, got, Function.update_self]
  · have moved := (read_passing Incoming.refills Incoming.drains flows n passing allowed).1.good
    refine ⟨(read Incoming.readBuffer n ((c.peer s).reader, c.incoming s replies)).2.2, ?_, ?_⟩
    · simp only [act, got, Function.update_self]
      exact moved
    · simp only [act, got, Function.update_self]

/-- The side that does nothing stays as it is. -/
theorem act_other (c : Conversation) {a : Act} {s : Side} (ne : s ≠ a.side) : (c.act a).peer s = c.peer s := by
  cases a with
  | send t call answers => exact Function.update_of_ne ne _ _
  | start t replies => exact Function.update_of_ne ne _ _
  | read t n replies => exact Function.update_of_ne ne _ _

/-! ## Transmissions that are accepted -/

/-- The child of a side exists. -/
structure Present (p : Peer) : Prop where
  child : p.out.conn.socket.child = true
  alive : p.out.alive = true

/-- The child of the reader's socket exists. -/
def HasChild (_ : Bool) (i : Incoming) : Prop := i.conn.socket.child = true

/-- In every transmission the event is created and the request accepted. -/
def Accepted : Act → Prop
  | .send _ _ answers => ∀ env ∈ answers, env.Asked
  | _ => True

/-- A socket whose next transmissions are accepted. -/
def Accepting (o : Outgoing) : Prop :=
  o.conn.socket.child = true ∧ o.alive = true ∧ ∀ env ∈ o.conn.calls, env.Asked

theorem accepting_receives : Writer.Receives Outgoing.transmit Outgoing.received Accepting Eq := by
  rintro payload o ⟨child, alive, asked⟩
  have next : (o.conn.calls.headD silence).Asked := by
    cases calls : o.conn.calls with
    | nil => exact awaiting_asked none none
    | cons env rest => exact asked env (calls ▸ List.mem_cons_self)
  have accepts : o.accepts = true := by
    simp only [Outgoing.accepts, child, alive, next.created, next.accepted, Bool.not_false, Bool.and_self]
  refine ⟨⟨child, alive, fun env mem => ?_⟩, payload, if_pos accepts, rfl⟩
  rw [Outgoing.transmit, Connection.transmit, child] at mem
  exact asked env (List.mem_of_mem_tail mem)

/-- Nothing has been lost, and both children exist. -/
def Whole (c : Conversation) : Prop := ∀ s, Flow Eq c s ∧ Present (c.peer s)

theorem present_act (h : c.Whole) (a : Act) (allowed : c.Allowed a) (accepted : Accepted a) (s : Side) :
    Present ((c.act a).peer s) := by
  have flow : ∀ s, Flow Eq c s := fun s => (h s).1
  have same : ∀ i, HasChild false i → HasChild (Incoming.fetch i).1.isEmpty (Incoming.fetch i).2 :=
    fun _ child => child
  by_cases own : s = a.side
  · subst own
    obtain ⟨child, alive⟩ := (h a.side).2
    cases a with
    | send t call answers =>
      have handed := Writer.handed_call (p := ((c.peer t).writer, (c.peer t).out.answered answers)) Writer.cuts_eq
        accepting_receives ⟨child, alive, accepted⟩ call
      obtain ⟨child', alive', -⟩ := handed.good
      simp only [act, sent, Act.side, Function.update_self]
      exact ⟨child', alive'⟩
    | start t replies =>
      obtain ⟨i, good, out⟩ := act_reads HasChild same flow t replies child
        allowed (.inl rfl)
      rw [Act.side] at alive ⊢
      exact ⟨by rw [out]; exact good, by rw [out]; exact alive⟩
    | read t n replies =>
      obtain ⟨i, good, out⟩ := act_reads HasChild same flow t replies child
        allowed (.inr ⟨n, rfl⟩)
      rw [Act.side] at alive ⊢
      exact ⟨by rw [out]; exact good, by rw [out]; exact alive⟩
  · rw [act_other c own]
    exact (h s).2

theorem whole_act (h : c.Whole) (a : Act) (allowed : c.Allowed a) (accepted : Accepted a) : (c.act a).Whole := by
  have sends : c.Sends Eq a := by
    cases a with
    | start => exact trivial
    | read => exact trivial
    | send t call answers =>
      obtain ⟨child, alive⟩ := (h t).2
      exact ⟨Accepting, ⟨child, alive, accepted⟩, accepting_receives⟩
  intro s
  exact ⟨flow_act Writer.cuts_eq (fun s => (h s).1) a allowed sends s, present_act h a allowed accepted s⟩

/-! ## Runs -/

/-- One side does something. -/
def Step (c : Conversation) (a : Act) (c' : Conversation) : Prop := c' = c.act a

theorem Begins.whole (h : c.Begins) : c.Whole := by
  intro s
  refine ⟨h.flow Writer.cuts_eq s, ?_, ?_⟩
  · rw [h.out]
    rfl
  · rw [h.out]

theorem flow_reach (h : Reach Step Allowed Begins c) (s : Side) : Flow List.Sublist c s := by
  have all : ∀ s, Flow List.Sublist c s := by
    refine h.invariant (fun c => ∀ s, Flow List.Sublist c s) (fun c start => start.flow Writer.cuts_sublist) ?_
    rintro c a c' flow allowed rfl
    exact flow_act Writer.cuts_sublist flow a allowed (sends_sublist c a)
  exact all s

theorem whole_reach (h : Reach Step (fun c a => c.Allowed a ∧ Accepted a) Begins c) : c.Whole := by
  refine h.invariant Whole (fun c start => start.whole) ?_
  rintro c a c' whole ⟨allowed, accepted⟩ rfl
  exact whole_act whole a allowed accepted

/-- Every call of the firmware succeeds, and segments arrive while something is on the way. -/
def Prompt : Act → Prop
  | .send _ _ answers => ∀ env ∈ answers, env.Succeeds
  | .start _ replies => ∃ arrivals : List Segment, replies = arrivals.map Segment.reply
  | .read _ _ replies => ∃ arrivals : List Segment, replies = arrivals.map Segment.reply

theorem Prompt.accepted {a : Act} (h : Prompt a) : Accepted a := by
  cases a with
  | send s call answers => exact fun env mem => ⟨(h env mem).createEvent, (h env mem).request⟩
  | start => exact trivial
  | read => exact trivial

/-- Two open sockets. -/
def opening : Conversation where
  peer _ := ⟨Writer.empty, ⟨.opened [], true, []⟩, construct fun _ => 0⟩
  wire _ := []
  written _ := []
  taken _ := []

theorem oneByte_fits : 1 ≤ readerBufferSize - 32 := by decide

theorem firstPoll_order : 1 ≤ 1 := Nat.le_refl 1

theorem firstPoll_inTime : 1 ≤ socketMaxTries := by decide

/-- A segment of one byte, which arrives in the first `Poll`. -/
def oneByte : Segment := ⟨1, 1, 1, Nat.one_pos, oneByte_fits, firstPoll_order, firstPoll_inTime⟩

/-- Two bytes have been sent. -/
def request : Conversation :=
  (opening.act (.send .near (.bytes [104, 105]) [])).act (.send .near .flush [prompt])

/-- The other side has started to read. -/
def greeting : Conversation := request.act (.start .far [oneByte.reply])

theorem prompt_succeeds : prompt.Succeeds where
  createEvent := efiError_success
  request := efiError_success
  poll _ := efiError_success
  completion k mem := by
    cases mem
    exact efiError_success
  closeEvent := efiError_success

theorem request_reached : Reach Step (fun c a => c.Allowed a ∧ Prompt a) Begins request := by
  have begins : opening.Begins :=
    ⟨fun _ => rfl, fun _ => rfl, fun _ => ⟨_, rfl⟩, fun _ => rfl, fun _ => rfl, fun _ => rfl⟩
  have sends : ∀ (c : Conversation) call answers, c.Allowed (.send .near call answers) := fun _ _ _ => trivial
  have written : Prompt (.send .near (.bytes [104, 105]) []) := fun _ mem => absurd mem List.not_mem_nil
  have flushed : Prompt (.send .near .flush [prompt]) := List.forall_mem_singleton.2 prompt_succeeds
  have first : Reach Step (fun c a => c.Allowed a ∧ Prompt a) Begins
      (opening.act (.send .near (.bytes [104, 105]) [])) := .next (.start begins) ⟨sends opening _ _, written⟩ rfl
  exact .next first ⟨sends _ _ _, flushed⟩ rfl

theorem greeting_reached : Reach Step (fun c a => c.Allowed a ∧ Prompt a) Begins greeting := by
  have starts : Prompt (.start .far [oneByte.reply]) := ⟨[oneByte], rfl⟩
  have fresh : request.Allowed (.start .far [oneByte.reply]) := view_construct fun _ => 0
  exact .next request_reached ⟨fresh, starts⟩ rfl

/-- **What a client has taken is the beginning of what the other side has sent**, in whatever order the
sides act and however the stack answers. As long as a reader is not at its end, what its client has
taken, what is in its buffer and what is on the way are all that the other side's child has accepted.
Of what is written there nothing is missing but payloads that the stack has refused. -/
theorem conversation_safe (h : Reach Step Allowed Begins c) (s : Side) :
    c.taken s.other <+: (c.peer s).out.received ∧
      (atEnd (c.peer s.other).reader = false →
        c.taken s.other ++ (unread (c.peer s.other).reader ++ c.wire s) = (c.peer s).out.received) ∧
      ((c.peer s).out.received ++ (c.peer s).writer.pending).Sublist (c.written s) ∧
      (Reach Step (fun c a => c.Allowed a ∧ Accepted a) Begins c →
        (c.peer s).out.received ++ (c.peer s).writer.pending = c.written s) := by
  have flow := flow_reach h s
  have passing : Passing id (fun _ _ => True) (c.peer s).out.received (c.taken s.other)
      ((c.peer s.other).reader, c.wire s) := ⟨flow.plain, flow.passed, trivial⟩
  exact ⟨flow.passed.isPrefix, passing.complete, flow.sent, fun accepted => (whole_reach accepted s).1.sent⟩

theorem greeting_safe :
    unread (greeting.peer .far).reader ++ greeting.wire .near = (greeting.peer .near).out.received ∧
      (greeting.peer .near).out.received ++ (greeting.peer .near).writer.pending = [104, 105] := by
  obtain ⟨-, complete, -, accepted⟩ := conversation_safe (greeting_reached.mono fun _ _ h => h.1) .near
  exact ⟨complete (by decide), accepted (greeting_reached.mono fun _ _ h => ⟨h.1, h.2.accepted⟩)⟩

/-! ## Nothing fails to arrive -/

/-- Nothing is pending on a socket that has not been read to its end. -/
def Settled (ended : Bool) (conn : Connection) : Prop :=
  ended = false → conn.socket = ⟨true, false⟩ ∧ conn.tcpEventStatus = 0

/-- A `Transmit` that succeeds leaves nothing pending. -/
theorem transmit_settled {socket : LSocket} {env : Script} {fuel : Nat} {v : Int} {r : Bool × Int}
    (succeeds : env.Succeeds) (zero : v = 0) (run : Net.transmit socket env fuel v = some r) : r.2 = 0 := by
  subst zero
  unfold Net.transmit at run
  split at run
  · cases run
    rfl
  · obtain ⟨r', ⟨fuel', ends⟩, balanced⟩ := awaitRequest_ends env
    have accepted : env.Accepted := ⟨succeeds.request, pollsWell_of_polls succeeds.poll⟩
    have first := awaitRequest_mono (Nat.le_max_left fuel fuel') run
    have second := awaitRequest_mono (Nat.le_max_right fuel fuel') ends
    rw [first] at second
    rw [Option.some.inj second]
    exact balanced.2 (.inr accepted)

/-- A socket all of whose calls succeed. -/
def Steady (ended : Bool) (o : Outgoing) : Prop := Working o ∧ Settled ended o.conn

theorem steady_receives (ended : Bool) :
    Writer.Receives Outgoing.transmit Outgoing.received (Steady ended) Eq := by
  rintro payload o ⟨working, settled⟩
  obtain ⟨working', all⟩ := outgoing_takes payload o working
  refine ⟨⟨working', fun more => ?_⟩, payload, all, rfl⟩
  obtain ⟨socket, zero⟩ := settled more
  obtain ⟨-, -, succeeds⟩ := working
  have next : (o.conn.calls.headD silence).Succeeds := by
    cases calls : o.conn.calls with
    | nil => exact silence_succeeds
    | cons env rest => exact succeeds env (calls ▸ List.mem_cons_self)
  exact ⟨socket, transmit_settled next zero o.conn.transmitted.2.1⟩

/-- A reader to which segments come. -/
def Bringing (ended : Bool) (i : Incoming) : Prop :=
  Settled ended i.conn ∧ ∃ arrivals : List Segment, i.replies = arrivals.map Segment.reply

theorem bringing_flows (i : Incoming) (h : Bringing false i) :
    Bringing (Incoming.fetch i).1.isEmpty (Incoming.fetch i).2 := by
  obtain ⟨settled, arrivals, replies⟩ := h
  obtain ⟨socket, zero⟩ := settled rfl
  have later : (Incoming.fetch i).2.replies = arrivals.tail.map Segment.reply := by
    show i.replies.tail = _
    rw [replies, List.map_tail]
  refine ⟨fun some => ?_, _, later⟩
  have chunk : (Incoming.fetch i).1 ≠ [] := by
    intro none
    rw [none] at some
    cases some
  have wire : i.wire ≠ [] := by
    intro none
    have front := Incoming.drains i chunk
    rw [none] at front
    exact chunk (List.append_eq_nil_iff.1 front).1
  match arrivals with
  | [] =>
    obtain ⟨x, returns, no⟩ := ending_refuses (e := .silent) nofun
    have asked : i.asked = .opened [Ending.silent.script] := by
      rw [Incoming.asked_opened socket zero, replies]
      rfl
    have returned := receive_fst returns
    rw [← asked] at returned
    have refused : i.received.result = false := (congrArg Received.result returned).trans no
    exact absurd (if_neg (Bool.eq_false_iff.1 refused)) chunk
  | a :: others =>
    obtain ⟨-, -, conn⟩ := Incoming.segment_arrives socket zero a replies wire
    show i.later.conn.socket = _ ∧ i.later.conn.tcpEventStatus = 0
    rw [conn]
    exact ⟨rfl, rfl⟩

/-- Nothing is lost, and nothing is pending. -/
def Ready (c : Conversation) : Prop :=
  c.Whole ∧ ∀ s, Settled (atEnd (c.peer s).reader) (c.peer s).out.conn

theorem settled_act (h : c.Ready) (a : Act) (allowed : c.Allowed a) (prompt : Prompt a) (s : Side) :
    Settled (atEnd ((c.act a).peer s).reader) ((c.act a).peer s).out.conn := by
  obtain ⟨whole, settled⟩ := h
  have flow : ∀ s, Flow Eq c s := fun s => (whole s).1
  by_cases own : s = a.side
  · subst own
    cases a with
    | send t call answers =>
      obtain ⟨child, alive⟩ := (whole t).2
      have steady : Steady (atEnd (c.peer t).reader) ((c.peer t).out.answered answers) :=
        ⟨⟨child, alive, prompt⟩, settled t⟩
      have handed := Writer.handed_call (p := ((c.peer t).writer, (c.peer t).out.answered answers)) Writer.cuts_eq
        (steady_receives (atEnd (c.peer t).reader)) steady call
      simp only [act, sent, Act.side, Function.update_self]
      exact handed.good.2
    | start t replies =>
      obtain ⟨i, good, out⟩ := act_reads Bringing bringing_flows flow t replies ⟨settled t, prompt⟩ allowed
        (.inl rfl)
      rw [Act.side, out]
      exact good.1
    | read t n replies =>
      obtain ⟨i, good, out⟩ := act_reads Bringing bringing_flows flow t replies ⟨settled t, prompt⟩ allowed
        (.inr ⟨n, rfl⟩)
      rw [Act.side, out]
      exact good.1
  · rw [act_other c own]
    exact settled s

theorem Begins.ready (h : c.Begins) : c.Ready := by
  refine ⟨h.whole, fun s _ => ?_⟩
  rw [h.out]
  exact ⟨rfl, rfl⟩

theorem ready_reach (h : Reach Step (fun c a => c.Allowed a ∧ Prompt a) Begins c) : c.Ready := by
  refine h.invariant Ready (fun c start => start.ready) ?_
  rintro c a c' ready ⟨allowed, prompt⟩ rfl
  exact ⟨whole_act ready.1 a allowed prompt.accepted, settled_act ready a allowed prompt⟩

/-- **What has been written and flushed arrives.** After any run in which every call of the firmware
succeeds and segments arrive, and from any point of the reading, the loop
`while (!AtEnd()) { use(Current()); Next(); }` ends if segments enough are still to come, and its client
has then taken all that the other side has written. -/
theorem conversation_delivers (h : Reach Step (fun c a => c.Allowed a ∧ Prompt a) Begins c) (s : Side)
    (flushed : (c.peer s).writer.pending = []) (started : view (c.peer s.other).reader ≠ .fresh)
    (more : atEnd (c.peer s.other).reader = false) (arrivals : List Segment)
    (enough : (c.wire s).length ≤ arrivals.length) :
    ∃ rest q, Loop.Leaves (useTurn Incoming.readBuffer)
        ([], (c.peer s.other).reader, c.incoming s.other (arrivals.map Segment.reply)) (rest, q) ∧
      c.taken s.other ++ rest = c.written s := by
  obtain ⟨whole, settled⟩ := ready_reach h
  obtain ⟨flow, -⟩ := whole s
  obtain ⟨socket, zero⟩ := settled s.other more
  have there : Flow Eq c s.other.other := by rwa [Side.other_other]
  have passing := there.passing (fun _ _ => True) (arrivals.map Segment.reply) trivial
  have flowing : (c.incoming s.other (arrivals.map Segment.reply)).Flowing := by
    refine ⟨socket, zero, arrivals, rfl, ?_⟩
    show (c.wire s.other.other).length ≤ arrivals.length
    rwa [Side.other_other]
  obtain ⟨rest, delivers, all⟩ := passing.delivers started more
    (fun i l => i.Flowing ∧ i.wire = l) ⟨flowing, rfl⟩
  obtain ⟨q, leaves, -⟩ := useTurn_leaves Incoming.refills Incoming.supplies delivers
  refine ⟨rest, q, leaves, ?_⟩
  have sent := flow.sent
  rw [flushed, List.append_nil] at sent
  rw [Side.other_other] at all
  exact all.trans sent

theorem greeting_delivered :
    ∃ q, Loop.Leaves (useTurn Incoming.readBuffer)
      ([], (greeting.peer .far).reader, greeting.incoming .far [oneByte.reply]) ([104, 105], q) := by
  obtain ⟨rest, q, leaves, all⟩ := conversation_delivers greeting_reached .near rfl (by decide) (by decide) [oneByte]
    (by decide)
  obtain rfl : rest = [104, 105] := all
  exact ⟨q, leaves⟩

end Conversation

end Lavoro.Net
