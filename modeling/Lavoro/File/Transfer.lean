import Lavoro.File.LFile
import Lavoro.Stream.Deliver

/-!
# What a file delivers and what reaches it

Under a `Firmware` whose calls may fail, the buffered reader delivers the bytes that
the reads hand out before the first failing one (`readable`), and the buffered writer
sends its bytes in blocks of 128, of each of which the firmware stores a part
(`landing`). `readable_supplies` and `Written` carry these through the code.
-/

namespace Lavoro
open Lib

/-- How many bytes an answered read hands out at most. -/
def ReadAnswer.span : ReadAnswer → Nat
  | .fails => 0
  | .gives more => min (readerBufferSize - 1) (more + 1)

theorem ReadAnswer.span_pos (more : Nat) : 0 < (ReadAnswer.gives more).span :=
  Nat.lt_min.2 ⟨by decide, Nat.succ_pos more⟩

/-- What the reads from the `k`-th on deliver of the unread bytes of a file. -/
def readable (reads : Nat → ReadAnswer) (k : Nat) : List UInt8 → List UInt8
  | [] => []
  | a :: l =>
    match reads k with
    | .fails => []
    | .gives more =>
      (a :: l).take (ReadAnswer.gives more).span ++
        readable reads (k + 1) ((a :: l).drop (ReadAnswer.gives more).span)
termination_by l => l.length
decreasing_by
  have pos := ReadAnswer.span_pos more
  simp only [List.length_drop, List.length_cons]
  omega

theorem readable_fails {reads : Nat → ReadAnswer} {k : Nat} (h : reads k = .fails) (l : List UInt8) :
    readable reads k l = [] := by
  cases l <;> simp [readable, h]

theorem readable_gives {reads : Nat → ReadAnswer} {k more : Nat} (h : reads k = .gives more)
    (l : List UInt8) :
    readable reads k l = l.take (ReadAnswer.gives more).span ++
      readable reads (k + 1) (l.drop (ReadAnswer.gives more).span) := by
  cases l with
  | nil => simp [readable]
  | cons a l => rw [readable, h]

/-- Reads that do not fail deliver everything. -/
theorem readable_all {reads : Nat → ReadAnswer} (never : ∀ k, reads k ≠ .fails) (k : Nat)
    (l : List UInt8) : readable reads k l = l := by
  induction k, l using readable.induct reads with
  | case1 k => simp [readable]
  | case2 k a l fails => exact absurd fails (never k)
  | case3 k a l more gives ih => rw [readable_gives gives, ih, List.take_append_drop]

/-- Only a prefix is delivered. -/
theorem prefix_readable (reads : Nat → ReadAnswer) (k : Nat) (l : List UInt8) :
    readable reads k l <+: l := by
  induction k, l using readable.induct reads with
  | case1 k => simp [readable]
  | case2 k a l fails => simp [readable_fails fails]
  | case3 k a l more gives ih =>
    obtain ⟨t, ht⟩ := ih
    refine ⟨t, ?_⟩
    rw [readable_gives gives, List.append_assoc, ht, List.take_append_drop]

section Reading

variable {Node : Type}

/-- A handle on the file `n`, whose content was `c` when it was opened: of what the reads
deliver in all, `l` is what lies behind the handle's position, and the file has not been
changed there. -/
def HoldsFile (fw : Firmware Node) (n : Node) (c : List UInt8)
    (s : Option (Handle Node) × World Node) (l : List UInt8) : Prop :=
  ∃ h, s.1 = some h ∧ h.node = n ∧ h.position ≤ (readable fw.reads 0 c).length ∧
    l = (readable fw.reads 0 c).drop h.position ∧
    l = readable fw.reads s.2.reads (c.drop h.position) ∧
    (s.2.content n).drop h.position = c.drop h.position

theorem fileFetch_fails {fw : Firmware Node} {h : Handle Node} {w : World Node}
    (fails : fw.reads w.reads = .fails) :
    (Reader.fileFetch (Efi.read fw) (some h, w)).1 = [] := by
  simp [Reader.fileFetch, Efi.read, fails]

theorem fileFetch_gives {fw : Firmware Node} {h : Handle Node} {w : World Node} {more : Nat}
    (gives : fw.reads w.reads = .gives more) :
    Reader.fileFetch (Efi.read fw) (some h, w) =
      (((w.content h.node).drop h.position).take (ReadAnswer.gives more).span,
        some { h with position := h.position +
          (((w.content h.node).drop h.position).take (ReadAnswer.gives more).span).length },
        { w with reads := w.reads + 1 }) := by
  simp [Reader.fileFetch, Efi.read, gives, ReadAnswer.span]

/-- The file may change under its reader in front of the handle's position. -/
theorem HoldsFile.transfer {fw : Firmware Node} {n : Node} {c l : List UInt8} {k : Nat}
    {x : Option (Handle Node)} {w w' : World Node} (h : HoldsFile fw n c (x, w) l)
    (behind : l.length < (readable fw.reads 0 c).length - k) (reads : w'.reads = w.reads)
    (same : ∀ q, k < q → (w'.content n).drop q = c.drop q) : HoldsFile fw n c (x, w') l := by
  obtain ⟨a, ha, node, inside, total, here, -⟩ := h
  have far := congrArg List.length total
  rw [List.length_drop] at far
  refine ⟨a, ha, node, inside, total, ?_, same _ (by omega)⟩
  rw [here, ← reads]

theorem drop_length_take {α : Type} (l : List α) (n : Nat) : l.drop (l.take n).length = l.drop n := by
  rcases Nat.le_total n l.length with le | ge
  · rw [List.length_take, Nat.min_eq_left le]
  · rw [List.take_of_length_le ge, List.drop_length, List.drop_eq_nil_of_le ge]

/-- **The firmware supplies the reader with the readable part of the file.** -/
theorem readable_supplies (fw : Firmware Node) (n : Node) (c : List UInt8) :
    Cursor.Supplies (Reader.fileFetch (Efi.read fw)) (HoldsFile fw n c) where
  chunk := by
    rintro ⟨-, w⟩ l ⟨h, rfl, rfl, inside, total, here, same⟩ some
    match answer : fw.reads w.reads with
    | .fails => exact absurd (fileFetch_fails answer) some
    | .gives more =>
      simp only at here same
      rw [fileFetch_gives answer, same] at some ⊢
      rw [readable_gives answer] at here
      generalize hb : (c.drop h.position).take (ReadAnswer.gives more).span = bytes at *
      have used : (c.drop h.position).drop bytes.length =
          (c.drop h.position).drop (ReadAnswer.gives more).span := by
        rw [← hb, drop_length_take]
      have behind : (readable fw.reads 0 c).drop (h.position + bytes.length) =
          readable fw.reads (w.reads + 1) ((c.drop h.position).drop bytes.length) := by
        rw [← List.drop_drop, ← total, here, List.drop_left, used]
      have lengths := congrArg List.length (total.symm.trans here)
      simp only [List.length_drop, List.length_append] at lengths
      refine ⟨_, ?_, _, rfl, rfl, ?_, rfl, ?_, ?_⟩
      · rw [behind, used, ← here]
      · show h.position + bytes.length ≤ _
        omega
      · show _ = readable fw.reads (w.reads + 1) (c.drop (h.position + bytes.length))
        rw [behind, List.drop_drop]
      · show (w.content h.node).drop (h.position + bytes.length) = c.drop (h.position + bytes.length)
        rw [← List.drop_drop, same, List.drop_drop]
  last := by
    rintro ⟨-, w⟩ l ⟨h, rfl, rfl, inside, total, here, same⟩ none
    simp only at here same
    match answer : fw.reads w.reads with
    | .fails => exact here.trans (readable_fails answer _)
    | .gives more =>
      rw [fileFetch_gives answer, same] at none
      have pos := ReadAnswer.span_pos more
      have used : c.drop h.position = [] := by
        rcases List.take_eq_nil_iff.1 none with zero | used
        · omega
        · exact used
      rw [here, used]
      simp [readable]

end Reading

/-! ## Writing -/

/-- What the writes from the `k`-th on store of a sequence of payloads. -/
def landed (writes : Nat → WriteAnswer) (k : Nat) : List (List UInt8) → List UInt8
  | [] => []
  | b :: rest => (writes k).stored b ++ landed writes (k + 1) rest

theorem landed_snoc (writes : Nat → WriteAnswer) (k : Nat) (blocks : List (List UInt8))
    (b : List UInt8) :
    landed writes k (blocks ++ [b]) =
      landed writes k blocks ++ (writes (k + blocks.length)).stored b := by
  induction blocks generalizing k with
  | nil => simp [landed]
  | cons x rest ih =>
    rw [List.cons_append, landed, ih, landed, List.append_assoc, List.length_cons,
      Nat.add_right_comm, Nat.add_assoc]

theorem WriteAnswer.length_stored_le (a : WriteAnswer) (b : List UInt8) :
    (a.stored b).length ≤ b.length := by
  cases a with
  | stores => exact Nat.le_refl _
  | fails after => exact List.length_take_le' _ _

theorem length_landed_le (writes : Nat → WriteAnswer) (k : Nat) (blocks : List (List UInt8)) :
    (landed writes k blocks).length ≤ blocks.flatten.length := by
  induction blocks generalizing k with
  | nil => exact Nat.le_refl _
  | cons b rest ih =>
    have first := (writes k).length_stored_le b
    have others := ih (k + 1)
    simp only [landed, List.flatten_cons, List.length_append]
    omega

/-- The payloads in which the writer sends `out`. -/
def blocksOf : List UInt8 → List (List UInt8)
  | [] => []
  | a :: l => (a :: l).take writerBufferSize :: blocksOf ((a :: l).drop writerBufferSize)
termination_by l => l.length
decreasing_by
  simp only [List.length_drop, List.length_cons, writerBufferSize]
  omega

/-- What the writes from the `k`-th on store of the bytes `out` given to the writer. -/
def landing (writes : Nat → WriteAnswer) (k : Nat) (out : List UInt8) : List UInt8 :=
  landed writes k (blocksOf out)

theorem blocksOf_full {b l : List UInt8} (full : b.length = writerBufferSize) :
    blocksOf (b ++ l) = b :: blocksOf l := by
  cases b with
  | nil => cases full
  | cons a b =>
    rw [List.cons_append, blocksOf, ← List.cons_append, ← full, List.take_left, List.drop_left]

theorem blocksOf_short {b : List UInt8} (some : b ≠ []) (short : b.length ≤ writerBufferSize) :
    blocksOf b = [b] := by
  cases b with
  | nil => exact absurd rfl some
  | cons a b =>
    rw [blocksOf, List.take_of_length_le short, List.drop_eq_nil_of_le short, blocksOf]

theorem blocksOf_flatten {blocks : List (List UInt8)} {pending : List UInt8}
    (full : ∀ b ∈ blocks, b.length = writerBufferSize) (some : pending ≠ [])
    (short : pending.length ≤ writerBufferSize) :
    blocksOf (blocks.flatten ++ pending) = blocks ++ [pending] := by
  induction blocks with
  | nil => exact blocksOf_short some short
  | cons b rest ih =>
    rw [List.flatten_cons, List.append_assoc, blocksOf_full (full b (by simp)),
      ih fun x hx => full x (by simp [hx]), List.cons_append]

section Writing

variable {Node : Type} [DecidableEq Node] {fw : Firmware Node} {d : Node}
variable {old out : List UInt8} {f : LFile Node} {w : World Node}

/-- The writer of `f` has been given `out`; `blocks` are the payloads sent so far to the
file `d`, which held `old` when it was opened. -/
structure Written (fw : Firmware Node) (d : Node) (old out : List UInt8)
    (blocks : List (List UInt8)) (f : LFile Node) (w : World Node) : Prop where
  full : ∀ b ∈ blocks, b.length = writerBufferSize
  sent : out = blocks.flatten ++ f.writer.pending
  waits : f.writer.pending = [] → out = []
  handle : f.handle = some ⟨d, (landed fw.writes 0 blocks).length⟩
  count : w.writes = blocks.length
  file : w.file d = some (overwrite 0 old 0 (landed fw.writes 0 blocks))

/-- What one payload does to the file. -/
theorem write_landed {blocks : List (List UInt8)} {b : List UInt8}
    (count : w.writes = blocks.length)
    (file : w.file d = some (overwrite 0 old 0 (landed fw.writes 0 blocks))) :
    Efi.write fw b (some ⟨d, (landed fw.writes 0 blocks).length⟩, w) =
      (some ⟨d, (landed fw.writes 0 (blocks ++ [b])).length⟩,
        { w.setFile d (some (overwrite 0 old 0 (landed fw.writes 0 (blocks ++ [b])))) with
          writes := w.writes + 1 }) := by
  have joined : overwrite 0 (overwrite 0 old 0 (landed fw.writes 0 blocks))
      (0 + (landed fw.writes 0 blocks).length) ((fw.writes blocks.length).stored b) =
      overwrite 0 old 0 (landed fw.writes 0 blocks ++ (fw.writes blocks.length).stored b) :=
    overwrite_append
  rw [Nat.zero_add] at joined
  simp only [Efi.write, count, file, Option.map_some, landed_snoc, Nat.zero_add, List.length_append,
    joined]

omit [DecidableEq Node] in
theorem Written.block_full {blocks : List (List UInt8)} (h : Written fw d old out blocks f w)
    (full : f.writer.pending.length = writerBufferSize) :
    ∀ b ∈ blocks ++ [f.writer.pending], b.length = writerBufferSize := by
  intro b hb
  rcases List.mem_append.1 hb with hb | hb
  · exact h.full b hb
  · rw [List.mem_singleton.1 hb, full]

omit [DecidableEq Node] in
/-- What lies behind the bytes given to the writer is still the old content. -/
theorem Written.drop {blocks : List (List UInt8)} (h : Written fw d old out blocks f w) {q : Nat}
    (behind : out.length ≤ q) : (w.content d).drop q = old.drop q := by
  have small := length_landed_le fw.writes 0 blocks
  have sent := congrArg List.length h.sent
  rw [List.length_append] at sent
  rw [World.content, h.file, Option.getD_some]
  exact drop_overwrite (Nat.zero_le _) (by omega)

omit [DecidableEq Node] in
theorem Written.reads {blocks : List (List UInt8)} (h : Written fw d old out blocks f w) (k : Nat) :
    Written fw d old out blocks f { w with reads := k } :=
  ⟨h.full, h.sent, h.waits, h.handle, h.count, h.file⟩

/-- One `Write(ch)`, with or without a flush of the full buffer. -/
theorem written_write (ch : UInt8) {blocks : List (List UInt8)} (h : Written fw d old out blocks f w) :
    ∃ blocks', Written fw d old (out ++ [ch]) blocks' (LFile.write fw ch (f, w)).1
      (LFile.write fw ch (f, w)).2 := by
  by_cases full : f.writer.pending.length = writerBufferSize
  · refine ⟨blocks ++ [f.writer.pending], ?_⟩
    rw [LFile.write_full full, h.handle, write_landed h.count h.file]
    exact {
      full := h.block_full full
      sent := by rw [h.sent, List.flatten_append, List.flatten_singleton]
      waits := nofun
      handle := rfl
      count := by simp [h.count]
      file := World.setFile_file_same _ _ _ }
  · obtain ⟨writer, pending, room⟩ := LFile.write_room fw ch w full
    refine ⟨blocks, ?_⟩
    rw [room]
    exact {
      full := h.full
      sent := by rw [h.sent, List.append_assoc, ← pending]
      waits := by simp [pending]
      handle := h.handle
      count := h.count
      file := h.file }

/-- **After the last `Flush()` the file is what landed of the blocks, over what it held.** -/
theorem written_flush {blocks : List (List UInt8)} (h : Written fw d old out blocks f w) :
    (LFile.flush fw (f, w)).2.file d = some (overwrite 0 old 0 (landing fw.writes 0 out)) := by
  unfold landing
  by_cases empty : f.writer.pending = []
  · have nothing := h.waits empty
    have none : blocks = [] := by
      cases blocks with
      | nil => rfl
      | cons b rest =>
        have full := h.full b (by simp)
        have sent := h.sent
        rw [nothing, empty, List.append_nil, List.flatten_cons, eq_comm, List.append_eq_nil_iff] at sent
        rw [sent.1] at full
        cases full
    have file := h.file
    rw [none] at file
    rw [LFile.flush_none empty, file, nothing, blocksOf]
  · rw [LFile.flush_some empty, h.handle, write_landed h.count h.file, h.sent,
      blocksOf_flatten h.full empty f.writer.bound]
    exact World.setFile_file_same _ _ _

end Writing

end Lavoro
