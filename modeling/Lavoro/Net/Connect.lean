import Lavoro.Lib.Loop
import Lavoro.Net.SocketReader

/-!
# What `connect` shows of a stream (`main.cpp`)

The command `connect` reads what the peer sends in text mode, up to the first NUL. Behind
every segment `Current()` looks at a byte that an earlier segment has left in the buffer, or
that was there from the start, and a NUL there ends the text early. At an end that the
request itself reports the 96 bytes in the buffer are shown once more.
-/

namespace Lavoro.Net
open Lib Reader

variable {σ : Type}

/-- One turn of `while (!Socket->Reader.AtEnd())`, with the units put into `szBuffer` so far. -/
def connectTurn (readBuffer : ReadBuffer σ) (x : List UInt8 × LReader × σ) :
    Turn (List UInt8 × LReader × σ) (List UInt8 × LReader × σ) :=
  if atEnd x.2.1 then .leave x
  else
    let p := (next readBuffer x.2).2
    let c := current readBuffer p
    if c.1 ≠ readerEof then
      let d := current readBuffer c.2
      .again (x.1 ++ [toByte d.1], d.2)
    else .leave (x.1, c.2)

/-- The loop ends, with `out` shown and the reader at its end. -/
def Shown (readBuffer : ReadBuffer σ) (x : List UInt8 × LReader × σ) (out : List UInt8) : Prop :=
  ∃ p, Loop.Leaves (connectTurn readBuffer) x (out, p) ∧ atEnd p.1 = true

section Turns

variable {readBuffer : ReadBuffer σ} {r : LReader} {s : σ} {out : List UInt8}

/-- A turn whose `Next()` comes to the end. -/
theorem shown_of_end (more : atEnd r = false) (ended : atEnd (next readBuffer (r, s)).2.1 = true) :
    Shown readBuffer (out, r, s) out := by
  have stays : current readBuffer (next readBuffer (r, s)).2 = (readerEof, (next readBuffer (r, s)).2) :=
    current_of_atEnd ended
  refine ⟨(next readBuffer (r, s)).2, (Loop.leaves_leave ?_).2 rfl, ended⟩
  simp [connectTurn, more, stays]

/-- A turn whose `Next()` comes to a byte. -/
theorem shown_of_next {r' : LReader} {s' : σ} {rest : List UInt8} (more : atEnd r = false)
    (h : Shows r') (step : (next readBuffer (r, s)).2 = (r', s'))
    (shown : Shown readBuffer (out ++ [r'.buffer.get r'.current], r', s') rest) :
    Shown readBuffer (out, r, s) rest := by
  have stays : current readBuffer (r', s') = (((r'.buffer.get r'.current).toNat : Int), r', s') :=
    currentStep_shows _ h
  have byte : ((r'.buffer.get r'.current).toNat : Int) ≠ readerEof := by
    unfold readerEof
    omega
  obtain ⟨p, leaves, ended⟩ := shown
  refine ⟨p, (Loop.leaves_again ?_).2 leaves, ended⟩
  simp [connectTurn, more, step, stays, byte]

/-- The rest of a chunk, `behind` being what is shown once it is used up. -/
theorem shown_textFrom (out behind : List UInt8) {k : Nat} (h : Shows r) (left : r.current + 1 + k = r.size)
    (used : ∀ out r', Used r' → r'.buffer = r.buffer → Shown readBuffer (out, r', s) (out ++ behind)) :
    Shown readBuffer (out, r, s) (out ++ textFrom r.buffer (r.current + 1) behind k) := by
  induction k generalizing r out with
  | zero =>
    unfold textFrom
    split
    · rename_i nul
      rw [List.append_nil]
      apply shown_of_end h.more
      rw [next_nul h nul]
      exact atEnd_markEnd _
    · rename_i byte
      obtain ⟨step, used'⟩ := next_last readBuffer s h left byte
      obtain ⟨p, leaves, ended⟩ := used out _ used' rfl
      have same : connectTurn readBuffer (out, r, s) = connectTurn readBuffer (out, stepped r, s) := by
        simp [connectTurn, h.more, used'.more, step]
      exact ⟨p, (Loop.leaves_of_turn_eq same).2 leaves, ended⟩
  | succ k ih =>
    unfold textFrom
    split
    · rename_i nul
      rw [List.append_nil]
      apply shown_of_end h.more
      rw [next_nul h nul]
      exact atEnd_markEnd _
    · rename_i byte
      obtain ⟨step, shows⟩ := next_inside readBuffer s h (by omega) byte
      apply shown_of_next h.more shows step
      have rest := ih (out ++ [r.buffer.get (r.current + 1)]) shows
        (by show r.current + 1 + 1 + k = r.size; omega) used
      rwa [List.append_assoc, List.singleton_append] at rest

/-- **What `connect` shows** of a source that hands out these chunks. -/
theorem shown_delivered {chunks : List Reported} (out : List UInt8)
    (serves : Serves readBuffer s chunks) (h : Used r) :
    Shown readBuffer (out, r, s) (out ++ delivered r.buffer chunks) := by
  induction chunks generalizing r s out with
  | nil =>
    rw [delivered, List.append_nil]
    exact shown_of_end h.more (nextStep_refused h (serves r h.more) _)
  | cons c chunks ih =>
    obtain ⟨⟨some, room⟩, s', stored, serves'⟩ := serves
    have refill := nextStep_used h some room (stored r h.more) (nextStep readBuffer currentFilled)
    obtain ⟨k, size⟩ : ∃ k, c.size = k + 1 := ⟨c.size - 1, by omega⟩
    rw [delivered, size, textFrom]
    split
    · rename_i nul
      rw [List.append_nil]
      apply shown_of_end h.more
      have step : (next readBuffer (r, s)).2 = (markEnd (refilled r c), s') := refill.trans (if_pos nul)
      rw [step]
      exact atEnd_markEnd _
    · rename_i byte
      have step : (next readBuffer (r, s)).2 = (refilled r c, s') := refill.trans (if_neg byte)
      have shows : Shows (refilled r c) := ⟨refilled_textual h.toTextual room, some, byte⟩
      apply shown_of_next h.more shows step
      have left : (refilled r c).current + 1 + k = (refilled r c).size := by
        show 0 + 1 + k = c.size
        omega
      have rest := shown_textFrom (out ++ [(refilled r c).buffer.get 0])
        (delivered (refilled r c).buffer chunks) shows left fun out r' used same => by
          have shown := ih out serves' used
          rwa [same] at shown
      rwa [List.append_assoc, List.singleton_append] at rest

theorem Shown.unique {x : List UInt8 × LReader × σ} {out out' : List UInt8}
    (h : Shown readBuffer x out) (h' : Shown readBuffer x out') : out = out' := by
  obtain ⟨p, leaves, -⟩ := h
  obtain ⟨p', leaves', -⟩ := h'
  exact congrArg Prod.fst (leaves.unique leaves')

end Turns

/-! ## The text of a feed -/

/-- The bytes of a stream before its first NUL. -/
def textOf (stream : List UInt8) : List UInt8 := stream.takeWhile fun byte => byte ≠ 0

/-- The reader of a new socket in text mode, on the connection on which `f` arrives, before
its first `Next()`; nothing has been shown. -/
def atStart (b : Buffer readerBufferSize) (f : Feed) : List UInt8 × LReader × Connection :=
  ([], setText (construct b), f.connection)

/-- `connect` shows the text of what arrives, and then reports the end. -/
def ShowsText (b : Buffer readerBufferSize) (f : Feed) : Prop :=
  Shown readBuffer (atStart b f) (textOf f.stream)

/-- No NUL in the buffer behind a segment hides a part of the text; and at an end reported by
the request no text is left in the buffer. -/
def HarmlessAt (ending : Ending) : Buffer readerBufferSize → List (List UInt8) → Prop
  | b, [] => ending = .fin → b.get 0 = 0
  | b, segment :: more =>
    0 ∈ segment ∨
      if b.get segment.length = 0 then ∀ byte ∈ more.flatten.head?, byte = 0
      else HarmlessAt ending (b.store segment) more

/-- The same of a feed. -/
def Harmless (b : Buffer readerBufferSize) (f : Feed) : Prop :=
  HarmlessAt f.ending b (f.segments.map Arrival.data)

theorem textOf_append (segment more : List UInt8) :
    textOf (segment ++ more) = if 0 ∈ segment then textOf segment else segment ++ textOf more := by
  induction segment with
  | nil => rfl
  | cons byte segment ih =>
    by_cases nul : byte = 0
    · simp [textOf, nul]
    · have head : (0 : UInt8) ∈ byte :: segment ↔ 0 ∈ segment := by
        simp [Ne.symm nul]
      have step (bytes : List UInt8) : textOf (byte :: bytes) = byte :: textOf bytes := by
        simp [textOf, nul]
      rw [List.cons_append, step, ih, step]
      simp only [head]
      split <;> rfl

theorem textOf_eq_nil_iff (stream : List UInt8) :
    textOf stream = [] ↔ ∀ byte ∈ stream.head?, byte = 0 := by
  cases stream with
  | nil => simp [textOf]
  | cons byte more =>
    by_cases nul : byte = 0 <;> simp [textOf, nul]

/-- What is shown of a segment that is in the buffer. -/
theorem textFrom_segment {b : Buffer readerBufferSize} {i : Nat} {segment : List UInt8}
    (behind : List UInt8) (stored : ∀ j (h : j < segment.length), b.get (i + j) = segment[j]) :
    textFrom b i behind segment.length =
      if 0 ∈ segment then textOf segment
      else segment ++ if b.get (i + segment.length) = 0 then [] else behind := by
  induction segment generalizing i with
  | nil => simp [textFrom]
  | cons byte segment ih =>
    have first : b.get i = byte := stored 0 (Nat.succ_pos _)
    have rest := ih (i := i + 1) fun j h => by
      have next := stored (j + 1) (Nat.succ_lt_succ h)
      rwa [show i + (j + 1) = i + 1 + j by omega] at next
    rw [List.length_cons, textFrom, first, rest]
    by_cases nul : byte = 0
    · simp [textOf, nul]
    · have head : (0 : UInt8) ∈ byte :: segment ↔ 0 ∈ segment := by
        simp [Ne.symm nul]
      have step : textOf (byte :: segment) = byte :: textOf segment := by
        simp [textOf, nul]
      rw [if_neg nul, step, show i + (segment.length + 1) = i + 1 + segment.length by omega]
      simp only [head]
      split <;> rfl

/-- What is shown when a segment arrives. -/
theorem delivered_segment {b : Buffer readerBufferSize} {segment : List UInt8}
    (fits : segment.length ≤ readerBufferSize - 32) (more : List Reported) :
    delivered b (⟨segment, segment.length⟩ :: more) =
      if 0 ∈ segment then textOf segment
      else segment ++ if b.get segment.length = 0 then [] else delivered (b.store segment) more := by
  have room : segment.length ≤ readerBufferSize := Nat.le_trans fits (by decide)
  have stored : ∀ j (h : j < segment.length), (b.store segment).get (0 + j) = segment[j] := by
    intro j h
    rw [Nat.zero_add]
    exact Buffer.get_store_of_lt h room
  have left : (b.store segment).get (0 + segment.length) = b.get segment.length := by
    rw [Nat.zero_add]
    exact Buffer.get_store_of_ge (Nat.le_refl _)
  rw [delivered, textFrom_segment _ stored, left]

/-- **The text is shown exactly when** no leftover byte hides or adds anything. -/
theorem delivered_text_iff (f : Feed) (b : Buffer readerBufferSize) :
    delivered b f.chunks = textOf f.stream ↔ Harmless b f := by
  obtain ⟨segments, ending⟩ := f
  unfold Feed.chunks Feed.stream Harmless
  simp only
  induction segments generalizing b with
  | nil =>
    cases ending with
    | fin =>
      simp only [List.map_nil, List.nil_append, List.flatten_nil, HarmlessAt, forall_const]
      simp only [delivered, Buffer.store_nil]
      simp [textFrom, textOf, readerBufferSize]
    | refused => simp [delivered, textOf, HarmlessAt]
    | aborted => simp [delivered, textOf, HarmlessAt]
    | silent => simp [delivered, textOf, HarmlessAt]
  | cons a segments ih =>
    simp only [List.map_cons, List.cons_append, List.flatten_cons, HarmlessAt]
    rw [delivered_segment a.fits, textOf_append]
    by_cases nul : 0 ∈ a.data
    · simp [nul]
    · simp only [nul, if_false, List.append_cancel_left_eq, false_or]
      by_cases left : b.get a.data.length = 0
      · rw [if_pos left, if_pos left, eq_comm, textOf_eq_nil_iff]
      · rw [if_neg left, if_neg left]
        exact ih (b.store a.data)

/-- What `connect` shows of a feed. -/
theorem shown_feed (f : Feed) (b : Buffer readerBufferSize) :
    Shown readBuffer (atStart b f) (delivered b f.chunks) := by
  have used : Used (setText (construct b)) := ⟨⟨rfl, Nat.zero_lt_succ 127⟩, rfl⟩
  exact shown_delivered [] (feed_serves f) used

/-- **`connect` shows the text of what arrives exactly when** no leftover byte of its buffer
hides or adds anything; then neither the segments nor the buffer make a difference. -/
theorem text_shown_iff (f : Feed) (b : Buffer readerBufferSize) :
    (ShowsText b f ↔ Harmless b f) ∧
      ∀ f' b', f'.stream = f.stream → Harmless b f → Harmless b' f' →
        ∀ out, Shown readBuffer (atStart b f) out ↔ Shown readBuffer (atStart b' f') out := by
  have shows (f : Feed) (b : Buffer readerBufferSize) : ShowsText b f ↔ Harmless b f := by
    rw [← delivered_text_iff]
    constructor
    · exact (shown_feed f b).unique
    · intro same
      have shown := shown_feed f b
      rwa [same] at shown
  refine ⟨shows f b, fun f' b' same harmless harmless' out => ?_⟩
  have first := (shows f b).2 harmless
  have second := (shows f' b').2 harmless'
  unfold ShowsText at second
  rw [same] at second
  constructor
  · exact fun shown => first.unique shown ▸ second
  · exact fun shown => second.unique shown ▸ first

/-- A segment that is there when it is asked for. -/
def atOnce (byte : UInt8) (more : List UInt8) (fits : more.length < readerBufferSize - 32) : Arrival where
  data := byte :: more
  moment := 0
  called := 0
  some := nofun
  fits
  order := Nat.le_refl 0
  inTime := Nat.zero_le _

theorem one_byte_fits : ([] : List UInt8).length < readerBufferSize - 32 := by decide

/-- Two bytes in two segments. -/
def cut : Feed := ⟨[atOnce 1 [] one_byte_fits, atOnce 2 [] one_byte_fits], .silent⟩

/-- The same in one segment. -/
def whole : Feed := ⟨[atOnce 1 [2] (by decide)], .silent⟩

/-- With no NUL in the buffer the two are shown alike. -/
theorem cut_shown_as_whole : ∀ out,
    Shown readBuffer (atStart (fun _ => 1) cut) out ↔
      Shown readBuffer (atStart (fun _ => 0) whole) out := by
  have harmless : Harmless (fun _ => 1) cut := (delivered_text_iff cut _).1 (by decide)
  have harmless' : Harmless (fun _ => 0) whole := (delivered_text_iff whole _).1 (by decide)
  exact (text_shown_iff cut (fun _ => 1)).2 whole (fun _ => 0) rfl harmless harmless'

/-- The second of two segments is not shown, the buffer having been zero. -/
theorem second_segment_not_shown :
    Shown readBuffer (atStart (fun _ => 0) cut) [1] ∧ ¬ ShowsText (fun _ => 0) cut := by
  have first : Shown readBuffer (atStart (fun _ => 0) cut) [1] := shown_feed cut _
  refine ⟨first, fun both => ?_⟩
  have same : [1] = textOf cut.stream := first.unique both
  exact absurd same (by decide)

end Lavoro.Net
