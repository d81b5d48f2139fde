import Lavoro.File.Reading
import Lavoro.File.Unbuffered
import Lavoro.Stream.Requests

/-!
# Seeking in a buffered file

`SetPosition` resets the reader, sends what the writer holds and moves the handle. A reader that
has found its end is not reset, so that it delivers nothing however far back the handle is moved;
every other reader delivers the content from the new position on. `Position` is where the handle
stands: in front of it are the bytes that the reader has in its buffer and has not shown, and behind
it belong those that the writer has not sent. So `SetPosition(Position())` leaves reading and writing
as they are only where there are none.
-/

namespace Lavoro
open Lib

variable {Node : Type} [DecidableEq Node]

namespace LFile

/-- A history of the file's reader. -/
def requests (fw : Firmware Node) (history : List Reader.Request) (s : LFile Node × World Node) :
    LFile Node × World Node :=
  s.1.onReader (Reader.requests (readBuffer fw) history (s.1.reader, s.1.handle, s.2))

/-- What a reader that has been started uses up in `while (!AtEnd()) { use(Current()); Next(); }`. -/
def Drains (fw : Firmware Node) (s : LFile Node × World Node) (l : List UInt8) : Prop :=
  ∃ q, Loop.Leaves (Reader.useTurn (readBuffer fw)) ([], s.1.reader, s.1.handle, s.2) (l, q)

/-- What the reader has not consumed: the rest of its buffer and what is behind the handle. -/
def left (s : LFile Node × World Node) : List UInt8 :=
  if Reader.atEnd s.1.reader then []
  else
    Reader.unread s.1.reader ++
      match s.1.handle with
      | none => []
      | some h => (s.2.content h.node).drop h.position

end LFile

/-- A file that is open on `n`, which holds `c`, and has only been read. -/
structure Browses (n : Node) (c : List UInt8) (s : LFile Node × World Node) : Prop where
  plain : Reader.Plain s.1.reader
  handle : ∃ pos, s.1.handle = some ⟨n, pos⟩ ∧ pos ≤ c.length
  content : s.2.content n = c
  idle : s.1.writer.pending = []

section Browses

variable {fw : Firmware Node} {n : Node} {c : List UInt8} {s : LFile Node × World Node}

omit [DecidableEq Node] in
/-- Reading moves the handle inside its file. -/
theorem read_inside (fw : Firmware Node) (k : Nat) (x : Option (Handle Node) × World Node)
    (h : (∃ pos, x.1 = some ⟨n, pos⟩ ∧ pos ≤ c.length) ∧ x.2.content n = c) :
    (∃ pos, (Efi.read fw k x).2.2.1 = some ⟨n, pos⟩ ∧ pos ≤ c.length) ∧ (Efi.read fw k x).2.2.2.content n = c := by
  obtain ⟨x1, w⟩ := x
  obtain ⟨⟨pos, rfl, inside⟩, content⟩ := h
  unfold Efi.read
  simp only at content ⊢
  split
  · exact ⟨⟨pos, rfl, inside⟩, content⟩
  · refine ⟨⟨_, rfl, ?_⟩, content⟩
    rw [content, List.length_take, List.length_drop]
    omega

omit [DecidableEq Node] in
theorem browses_requests (fw : Firmware Node) (history : List Reader.Request) (h : Browses n c s) :
    Browses n c (LFile.requests fw history s) := by
  let Inside (x : Option (Handle Node) × World Node) : Prop :=
    (∃ pos, x.1 = some ⟨n, pos⟩ ∧ pos ≤ c.length) ∧ x.2.content n = c
  let Inv (p : LReader × Option (Handle Node) × World Node) : Prop := Inside p.2
  have refill : ∀ r x, Inside x → Inside (LFile.readBuffer fw (r, x)).2.2 := LFile.readBuffer_keeps (read_inside fw)
  have shown : ∀ p, Inv p → Inv (Reader.current (LFile.readBuffer fw) p).2 := fun p h =>
    Reader.current_keeps refill h
  have moved : ∀ p, Inv p → Inv (Reader.next (LFile.readBuffer fw) p).2 := fun p h => Reader.next_keeps refill h
  have inside : Inv (Reader.requests (LFile.readBuffer fw) history (s.1.reader, s.1.handle, s.2)) :=
    Reader.requests_keep shown moved history ⟨h.handle, h.content⟩
  have plain := Reader.plain_requests (p := (s.1.reader, s.1.handle, s.2))
    (Reader.fileReadBuffer_refills (Efi.read_fits fw)) history h.plain
  exact ⟨plain, inside.1, inside.2, h.idle⟩

/-- A file that has just been opened. -/
theorem browses_construct (well : Readable fw) {path : Str16} (named : path ≠ []) (create : Bool)
    {w : World Node} (there : w.file (fw.nodeOf path) = some c) :
    Browses (fw.nodeOf path) c (LFile.construct fw path create w) := by
  rw [construct_eq named, openFile_present path create (well.opens w.opens) there]
  refine ⟨Reader.plain_construct _, ⟨0, rfl, Nat.zero_le _⟩, ?_, rfl⟩
  exact congrArg (Option.getD · []) there

omit [DecidableEq Node] in
/-- A reader at its end delivers nothing. -/
theorem delivers_atEnd {fw : Firmware Node} (ended : Reader.atEnd s.1.reader = true) :
    Reader.Delivers (HoldsFile fw n c) (s.1.reader, s.1.handle, s.2) [] := by
  refine ⟨Reader.Plain.of_atEnd ended, ?_, ?_⟩
  · rw [Reader.view_ended ended]
    exact nofun
  · rw [Reader.view_ended ended]
    rfl

omit [DecidableEq Node] in
/-- The loop uses what the reader delivers. -/
theorem drains_iff {l l' : List UInt8}
    (h : Reader.Delivers (HoldsFile fw n c) (s.1.reader, s.1.handle, s.2) l) :
    LFile.Drains fw s l' ↔ l' = l := by
  obtain ⟨q, leaves, -⟩ := Reader.useTurn_leaves (Reader.fileReadBuffer_refills (Efi.read_fits fw))
    (readable_supplies fw n c) h
  constructor
  · rintro ⟨q', leaves'⟩
    exact congrArg Prod.fst (Loop.Leaves.unique leaves' leaves)
  · rintro rfl
    exact ⟨q, leaves⟩

omit [DecidableEq Node] in
theorem left_eq (h : Browses n c s) (more : Reader.atEnd s.1.reader = false) {pos : Nat}
    (handle : s.1.handle = some ⟨n, pos⟩) : LFile.left s = Reader.unread s.1.reader ++ c.drop pos := by
  simp [LFile.left, more, handle, h.content]

omit [DecidableEq Node] in
/-- **A reader that has been started delivers what it has not consumed.** -/
theorem left_delivers (well : Readable fw) (h : Browses n c s) (started : Reader.view s.1.reader ≠ .fresh) :
    Reader.Delivers (HoldsFile fw n c) (s.1.reader, s.1.handle, s.2) (LFile.left s) := by
  obtain ⟨pos, handle, inside⟩ := h.handle
  cases more : Reader.atEnd s.1.reader with
  | true =>
    rw [LFile.left, if_pos more]
    exact delivers_atEnd more
  | false =>
    have unused : s.1.reader.current ≠ s.1.reader.size := fun used => started (Reader.view_fresh more used)
    have within := h.plain.inside more
    refine ⟨h.plain, started, ?_⟩
    rw [left_eq h more handle, Reader.unread_of_lt (by omega), Reader.view_here more (by omega), handle]
    exact ⟨_, rfl, holdsFile_at well.reads h.content inside⟩

/-- The reader behind `SetPosition(p)` and `Next()`. -/
theorem seek_delivers (well : Readable fw) (h : Browses n c s) {p : Nat} (inside : p ≤ c.length)
    (small : c.length < 18446744073709551616) :
    Reader.Delivers (HoldsFile fw n c) ((LFile.next fw (LFile.setPosition fw p s)).1.reader,
        (LFile.next fw (LFile.setPosition fw p s)).1.handle, (LFile.next fw (LFile.setPosition fw p s)).2)
      (if Reader.atEnd s.1.reader then [] else c.drop p) := by
  obtain ⟨f, w⟩ := s
  obtain ⟨pos, handle, -⟩ := h.handle
  have content : w.content n = c := h.content
  have moved := setPosition_idle (p := p) h.idle handle (well.seeks w.seeks) (by rwa [content])
    (by rwa [content])
  have refills := Reader.fileReadBuffer_refills (Efi.read_fits fw)
  rw [moved]
  cases more : Reader.atEnd f.reader with
  | true =>
    -- `Reset()` does nothing at the end, nor does `Next()`
    have kept : Reader.reset f.reader = f.reader := by simp [Reader.reset, more]
    have stays : LFile.next fw (⟨f.reader, Writer.empty, some ⟨n, p⟩⟩, { w with seeks := w.seeks + 1 }) =
        (⟨f.reader, Writer.empty, some ⟨n, p⟩⟩, { w with seeks := w.seeks + 1 }) := by
      simp only [LFile.next, Reader.next_of_atEnd (p := (f.reader, _)) more]
      rfl
    rw [kept, stays]
    exact delivers_atEnd more
  | false =>
    obtain ⟨plain, fresh⟩ := Reader.plain_reset h.plain more
    have holds := holdsFile_at (w := { w with seeks := w.seeks + 1 }) well.reads content inside
    exact Reader.delivers_fresh refills (readable_supplies fw n c) plain fresh holds

end Browses

/-- **Seeking re-reads**, unless the reader has found the end before. -/
theorem seek_rereads_iff {fw : Firmware Node} (well : Readable fw) {path : Str16} (named : path ≠ [])
    (create : Bool) {w : World Node} {c : List UInt8} (there : w.file (fw.nodeOf path) = some c)
    (small : c.length < 18446744073709551616) (history : List Reader.Request) {p : Nat} (inside : p ≤ c.length) :
    LFile.Drains fw (LFile.next fw (LFile.setPosition fw p
        (LFile.requests fw history (LFile.construct fw path create w)))) (c.drop p) ↔
      (Reader.atEnd (LFile.requests fw history (LFile.construct fw path create w)).1.reader = false ∨
        p = c.length) := by
  have browses := browses_requests fw history (browses_construct well named create there)
  rw [drains_iff (seek_delivers well browses inside small)]
  cases Reader.atEnd (LFile.requests fw history (LFile.construct fw path create w)).1.reader with
  | false => exact iff_of_true rfl (.inl rfl)
  | true =>
    rw [if_pos rfl, List.drop_eq_nil_iff]
    exact ⟨fun le => .inr (Nat.le_antisymm inside le), fun h => h.elim nofun fun eq => Nat.le_of_eq eq.symm⟩

/-- Back to the second byte from the middle of the file. -/
theorem seek_rereads_middle :
    LFile.Drains flawless (LFile.next flawless (LFile.setPosition flawless 1
      (LFile.requests flawless [.next] (LFile.construct flawless [1] false
        (World.start fun _ => some [65, 66, 67]))))) [66, 67] :=
  (seek_rereads_iff flawless_readable (by decide) false (c := [65, 66, 67]) rfl (by decide) [.next]
    (by decide)).2 (.inl (by decide))

/-- Back to the only byte of the file, when its end has been found: nothing is delivered. -/
theorem seek_behind_end :
    ¬ LFile.Drains flawless (LFile.next flawless (LFile.setPosition flawless 0
      (LFile.requests flawless [.next, .next] (LFile.construct flawless [1] false
        (World.start fun _ => some [65]))))) [65] := by
  have opened := browses_construct (w := World.start fun _ => some [65]) flawless_readable
    (List.cons_ne_nil 1 []) false rfl
  have browses := browses_requests flawless [.next, .next] opened
  have ended : Reader.atEnd (LFile.requests flawless [.next, .next] (LFile.construct flawless [1] false
      (World.start fun _ => some [65]))).1.reader = true := by decide
  rw [drains_iff (seek_delivers flawless_readable browses (Nat.zero_le _) (by decide)), ended]
  decide

/-! ## `Position` -/

namespace LFile

/-- `SetPosition(Position())` and `Next()` get to the first byte not yet consumed. -/
def KeepsReading (fw : Firmware Node) (status : EfiStatus) (s : LFile Node × World Node) : Prop :=
  Drains fw (next fw (setPosition fw (position status s.1) s)) (left s)

/-- Behind `SetPosition(Position())` a byte lands in the file `n` where it would have landed before. -/
def KeepsWriting (fw : Firmware Node) (status : EfiStatus) (n : Node) (s : LFile Node × World Node) : Prop :=
  ∀ ch, (flush fw (write fw ch (setPosition fw (position status s.1) s))).2.file n =
    (flush fw (write fw ch s)).2.file n

end LFile

section Position

variable {fw : Firmware Node} {n : Node} {c : List UInt8} {s : LFile Node × World Node} {u : Unbuffered}

omit [DecidableEq Node] in
theorem position_eq {status : EfiStatus} (fine : efiError status = false) {f : LFile Node} {pos : Nat}
    (handle : f.handle = some ⟨n, pos⟩) : LFile.position status f = pos := by
  simp [LFile.position, handle, fine]

theorem unread_eq_nil {r : LReader} (plain : Reader.Plain r) (more : Reader.atEnd r = false) :
    Reader.unread r = [] ↔ r.current = r.size := by
  have inside := plain.inside more
  rw [← List.length_eq_zero_iff, Reader.unread, List.length_map, List.length_range']
  omega

/-- `SetPosition(Position())` of a file that is read gets to the bytes that are not in the reader's buffer. -/
theorem reread_iff (well : Readable fw) (h : Browses n c s) (small : c.length < 18446744073709551616)
    {status : EfiStatus} (fine : efiError status = false) :
    LFile.KeepsReading fw status s ↔
      (Reader.atEnd s.1.reader = true ∨ s.1.reader.current = s.1.reader.size) := by
  obtain ⟨pos, handle, inside⟩ := h.handle
  rw [LFile.KeepsReading, position_eq fine handle, drains_iff (seek_delivers well h inside small)]
  cases more : Reader.atEnd s.1.reader with
  | true =>
    refine iff_of_true ?_ (.inl rfl)
    rw [LFile.left, if_pos more]
    rfl
  | false =>
    have same : LFile.left s = c.drop pos ↔ Reader.unread s.1.reader = [] := by
      rw [left_eq h more handle]
      exact List.append_left_eq_self
    simp only [Bool.false_eq_true, if_false, false_or]
    rw [same, unread_eq_nil h.plain more]

/-- Writing keeps the offset inside the file. -/
theorem offset_write {u : Unbuffered} (inside : u.offset ≤ u.content.length) (ch : UInt8) :
    (u.write ch).offset ≤ (u.write ch).content.length := by
  show u.offset + 1 ≤ (overwrite 0 u.content u.offset [ch]).length
  rw [length_overwrite inside]
  exact Nat.le_max_right _ _

theorem offset_writes (calls : List WriteCall) {u : Unbuffered} (inside : u.offset ≤ u.content.length) :
    (Unbuffered.run (calls.map .write) u).offset ≤ (Unbuffered.run (calls.map .write) u).content.length := by
  have bytes : ∀ (l : List UInt8) (v : Unbuffered), v.offset ≤ v.content.length →
      (l.foldl Unbuffered.write v).offset ≤ (l.foldl Unbuffered.write v).content.length := by
    intro l
    induction l with
    | nil => exact fun v h => h
    | cons b l ih => exact fun v h => ih _ (offset_write h b)
  induction calls generalizing u with
  | nil => exact inside
  | cons call calls ih => exact ih (bytes _ _ inside)

/-- A byte written at two places of a file makes two files, if it is not what stands there. -/
theorem write_elsewhere {content : List UInt8} {p q : Nat} (front : p < q) (inside : q ≤ content.length) :
    ∃ ch, overwrite 0 content p [ch] ≠ overwrite 0 content q [ch] := by
  have lt : p < content.length := by omega
  refine ⟨content[p] + 1, fun same => ?_⟩
  have here : (overwrite 0 content p [content[p] + 1])[p]? = _ := getElem?_overwrite_first (Nat.le_of_lt lt)
  have there : (overwrite 0 content q [content[p] + 1])[p]? = _ := getElem?_overwrite_before inside front
  rw [← same, here, List.getElem?_eq_getElem lt] at there
  have value := Option.some.inj there
  have one : (1 : UInt8) = 0 := by
    have cancel : content[p] + 1 = content[p] + 0 := by rw [value, UInt8.add_zero]
    exact UInt8.add_right_inj _ |>.1 cancel
  exact absurd one (by decide)

/-- `SetPosition(Position())` of a file that is written gets in front of the bytes in the writer's buffer. -/
theorem rewrite_iff (well : Writable fw) (h : Buffers n (s.1.writer, s.1.handle, s.2) u)
    (inside : u.offset ≤ u.content.length) (small : u.content.length < 18446744073709551616)
    {status : EfiStatus} (fine : efiError status = false) :
    LFile.KeepsWriting fw status n s ↔ s.1.writer.pending = [] := by
  have files : ∀ (t : LFile Node × World Node) (v : Unbuffered) (ch : UInt8),
      Buffers n (t.1.writer, t.1.handle, t.2) v →
      (LFile.flush fw (LFile.write fw ch t)).2.file n = some (v.write ch).content := by
    intro t v ch buffers
    obtain ⟨pos, old, -, there, same⟩ := flush_buffers well (write_buffers well ch buffers)
    rw [same]
    exact there
  obtain ⟨pos, old, handle, there, rfl⟩ := h
  have placed := setPosition_buffers (s := s) well pos ⟨pos, old, handle, there, rfl⟩
  have written := fun ch => files s _ ch ⟨pos, old, handle, there, rfl⟩
  rw [LFile.KeepsWriting, position_eq fine handle]
  simp only [files _ _ _ placed, written, Option.some.injEq, Unbuffered.write, Unbuffered.seek] at inside small ⊢
  constructor
  · intro same
    apply Classical.byContradiction
    intro some'
    have pos' := List.length_pos_iff.2 some'
    have low : pos ≠ 18446744073709551615 := by omega
    obtain ⟨ch, differ⟩ := write_elsewhere (p := pos) (by omega) inside
    have here := same ch
    rw [if_neg low] at here
    exact differ here
  · intro empty ch
    rw [empty] at inside small ⊢
    simp only [overwrite_nil, List.length_nil, Nat.add_zero] at inside small ⊢
    split
    · rw [show old.length = pos by omega]
    · rfl

/-- A file that has just been opened, and its unbuffered form. -/
theorem buffers_construct (well : Readable fw) {path : Str16} (named : path ≠ []) (create : Bool)
    {w : World Node} (there : w.file (fw.nodeOf path) = some c) :
    Buffers (fw.nodeOf path) ((LFile.construct fw path create w).1.writer,
      (LFile.construct fw path create w).1.handle, (LFile.construct fw path create w).2) ⟨c, 0⟩ := by
  rw [construct_eq named, openFile_present path create (well.opens w.opens) there]
  exact buffers_idle (f := ⟨Reader.construct (fw.heap w.opens), Writer.empty, some ⟨fw.nodeOf path, 0⟩⟩) rfl rfl there

end Position

/-- **`Position` and `SetPosition` are inverse** for a reader exactly where it has nothing unread in its
buffer, and for a writer where it has nothing unsent. -/
theorem position_setPosition_iff {fw : Firmware Node} (well : Readable fw) (writable : Writable fw)
    {path : Str16} (named : path ≠ []) (create : Bool) {w : World Node} {c : List UInt8}
    (there : w.file (fw.nodeOf path) = some c) (small : c.length < 18446744073709551616) {status : EfiStatus}
    (fine : efiError status = false) :
    (∀ history, LFile.KeepsReading fw status (LFile.requests fw history (LFile.construct fw path create w)) ↔
      (Reader.atEnd (LFile.requests fw history (LFile.construct fw path create w)).1.reader = true ∨
        (LFile.requests fw history (LFile.construct fw path create w)).1.reader.current =
          (LFile.requests fw history (LFile.construct fw path create w)).1.reader.size)) ∧
    ∀ calls : List WriteCall,
      (Unbuffered.run (calls.map .write) ⟨c, 0⟩).content.length < 18446744073709551616 →
      (LFile.KeepsWriting fw status (fw.nodeOf path)
          (LFile.outputs fw (calls.map .write) (LFile.construct fw path create w)) ↔
        (LFile.outputs fw (calls.map .write) (LFile.construct fw path create w)).1.writer.pending = []) := by
  constructor
  · intro history
    exact reread_iff well (browses_requests fw history (browses_construct well named create there)) small fine
  · intro calls bound
    have written := outputs_buffers writable (calls.map .write) (buffers_construct well named create there)
    exact rewrite_iff writable written (offset_writes calls (Nat.zero_le _)) bound fine

/-- A file that has only been opened, and one whose bytes have been flushed. -/
theorem position_setPosition_idle :
    LFile.KeepsReading flawless efiSuccess
        (LFile.requests flawless [] (LFile.construct flawless [1] true (World.start fun _ => some [65, 66]))) ∧
      LFile.KeepsWriting flawless efiSuccess [1] (LFile.outputs flawless
        ([.byte 67, .flush].map .write) (LFile.construct flawless [1] true (World.start fun _ => some [65, 66]))) := by
  have both := position_setPosition_iff (w := World.start fun _ => some [65, 66]) flawless_readable
    flawless_writable (List.cons_ne_nil 1 []) true rfl (by decide) (show efiError efiSuccess = false from rfl)
  exact ⟨(both.1 []).2 (.inr rfl), (both.2 [.byte 67, .flush] (by decide)).2 (by decide)⟩

/-- With a byte of the file in the reader's buffer the handle is ahead of the reader. -/
theorem position_ahead :
    ¬ LFile.KeepsReading flawless efiSuccess
      (LFile.requests flawless [.next] (LFile.construct flawless [1] false
        (World.start fun _ => some [65, 66]))) := by
  have opened := browses_construct (w := World.start fun _ => some [65, 66]) flawless_readable
    (List.cons_ne_nil 1 []) false rfl
  rw [reread_iff flawless_readable (browses_requests flawless [.next] opened) (by decide) rfl]
  decide

end Lavoro
