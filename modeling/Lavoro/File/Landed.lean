import Lavoro.File.Transfer

/-!
# When a buffered copy is whole

How many bytes the reads deliver of a file depends only on its length (`delivered`), and
so do the sizes of the payloads in which the writer sends them. Two conditions on the
firmware's answers to these payloads say what the file keeps: `AllStored` is storing all
of them, and `NoShift`, under which a payload cut short is followed by nothing, is
storing a prefix whatever the bytes are.
-/

namespace Lavoro
open Lib

/-- How many bytes the reads from the `k`-th on deliver of a file with `n` unread bytes. -/
def delivered (reads : Nat → ReadAnswer) (k : Nat) : Nat → Nat
  | 0 => 0
  | n + 1 =>
    match reads k with
    | .fails => 0
    | .gives more =>
      min (ReadAnswer.gives more).span (n + 1) +
        delivered reads (k + 1) (n + 1 - (ReadAnswer.gives more).span)
termination_by n => n
decreasing_by
  have pos := ReadAnswer.span_pos more
  omega

theorem length_readable (reads : Nat → ReadAnswer) (k : Nat) (l : List UInt8) :
    (readable reads k l).length = delivered reads k l.length := by
  induction k, l using readable.induct reads with
  | case1 k => simp [readable, delivered]
  | case2 k a l fails => simp [readable_fails fails, delivered, fails]
  | case3 k a l more gives ih =>
    rw [readable_gives gives, List.length_append, ih, List.length_take, List.length_drop,
      List.length_cons, delivered, gives]

theorem readable_eq_take (reads : Nat → ReadAnswer) (k : Nat) (l : List UInt8) :
    readable reads k l = l.take (delivered reads k l.length) := by
  rw [← length_readable]
  exact List.prefix_iff_eq_take.1 (prefix_readable reads k l)

theorem delivered_le (reads : Nat → ReadAnswer) (k n : Nat) : delivered reads k n ≤ n := by
  have short := (prefix_readable reads k (List.replicate n 0)).length_le
  rw [length_readable, List.length_replicate] at short
  exact short

/-- The size of the `i`-th payload in which `r` bytes are sent. -/
def blockSize (r i : Nat) : Nat := min writerBufferSize (r - writerBufferSize * i)

/-- How many bytes of a payload a write answered so stores. -/
def WriteAnswer.kept : WriteAnswer → Nat → Nat
  | .stores, size => size
  | .fails after, size => min after size

/-- The writes from the `k`-th on store every payload of `r` bytes whole. -/
def AllStored (writes : Nat → WriteAnswer) (k r : Nat) : Prop :=
  ∀ i, (writes (k + i)).kept (blockSize r i) = blockSize r i

/-- Behind a payload cut short nothing is stored. -/
def NoShift (writes : Nat → WriteAnswer) (k r : Nat) : Prop :=
  ∀ i j, i < j → (writes (k + i)).kept (blockSize r i) < blockSize r i →
    (writes (k + j)).kept (blockSize r j) = 0

theorem blockSize_zero (r : Nat) : blockSize r 0 = min writerBufferSize r := by
  simp [blockSize]

theorem blockSize_succ (r i : Nat) : blockSize r (i + 1) = blockSize (r - writerBufferSize) i := by
  unfold blockSize writerBufferSize
  omega

@[simp] theorem blockSize_none (i : Nat) : blockSize 0 i = 0 := by
  unfold blockSize
  omega

@[simp] theorem WriteAnswer.kept_zero (a : WriteAnswer) : a.kept 0 = 0 := by
  cases a with
  | stores => rfl
  | fails after => exact Nat.min_zero after

theorem WriteAnswer.kept_le (a : WriteAnswer) (size : Nat) : a.kept size ≤ size := by
  cases a with
  | stores => exact Nat.le_refl size
  | fails after => exact Nat.min_le_right after size

theorem WriteAnswer.stored_eq_take (a : WriteAnswer) (b : List UInt8) :
    a.stored b = b.take (a.kept b.length) := by
  cases a with
  | stores => exact b.take_length.symm
  | fails after =>
    simp only [stored, kept]
    rw [List.take_eq_take_min]

variable {writes : Nat → WriteAnswer}

theorem landing_nil (writes : Nat → WriteAnswer) (k : Nat) : landing writes k [] = [] := by
  rw [landing, blocksOf, landed]

/-- The first payload, and what follows it. -/
theorem landing_step (writes : Nat → WriteAnswer) (k : Nat) (out : List UInt8) :
    landing writes k out =
      (out.take writerBufferSize).take ((writes k).kept (blockSize out.length 0)) ++
        landing writes (k + 1) (out.drop writerBufferSize) := by
  cases out with
  | nil => simp [landing_nil]
  | cons a l =>
    rw [landing, blocksOf, landed, WriteAnswer.stored_eq_take, List.length_take, blockSize_zero]
    rfl

/-- A condition on every payload is one on the first and one on those behind it. -/
theorem forall_blocks {P : Nat → Nat → Prop} {r : Nat} :
    (∀ i, P i (blockSize r i)) ↔
      P 0 (blockSize r 0) ∧ ∀ i, P (i + 1) (blockSize (r - writerBufferSize) i) := by
  constructor
  · intro h
    refine ⟨h 0, fun i => ?_⟩
    rw [← blockSize_succ]
    exact h (i + 1)
  · rintro ⟨first, others⟩ i
    cases i with
    | zero => exact first
    | succ i =>
      rw [blockSize_succ]
      exact others i

theorem allStored_step {k r : Nat} :
    AllStored writes k r ↔
      (writes k).kept (blockSize r 0) = blockSize r 0 ∧
        AllStored writes (k + 1) (r - writerBufferSize) := by
  unfold AllStored
  rw [forall_blocks (P := fun i size => (writes (k + i)).kept size = size)]
  simp only [Nat.add_zero, Nat.add_assoc, Nat.add_comm 1]

theorem length_landing_step (writes : Nat → WriteAnswer) (k : Nat) (out : List UInt8) :
    (landing writes k out).length =
      (writes k).kept (blockSize out.length 0) +
        (landing writes (k + 1) (out.drop writerBufferSize)).length := by
  have le := (writes k).kept_le (blockSize out.length 0)
  rw [blockSize_zero] at le ⊢
  rw [landing_step, List.length_append, List.length_take, List.length_take, blockSize_zero,
    Nat.min_eq_left le]

theorem length_landing_le (writes : Nat → WriteAnswer) (k : Nat) (out : List UInt8) :
    (landing writes k out).length ≤ out.length := by
  induction out using blocksOf.induct generalizing k with
  | case1 => simp [landing_nil]
  | case2 a l ih =>
    have first := (writes k).kept_le (blockSize (a :: l).length 0)
    have others := ih (k + 1)
    rw [length_landing_step]
    rw [blockSize_zero] at first ⊢
    rw [List.length_drop] at others
    omega

/-- All of `out` has landed when every payload was stored whole. -/
theorem length_landing_eq_iff (k : Nat) (out : List UInt8) :
    (landing writes k out).length = out.length ↔ AllStored writes k out.length := by
  induction out using blocksOf.induct generalizing k with
  | case1 => simp [landing_nil, AllStored]
  | case2 a l ih =>
    have first := (writes k).kept_le (blockSize (a :: l).length 0)
    have others := length_landing_le writes (k + 1) ((a :: l).drop writerBufferSize)
    have rest := ih (k + 1)
    rw [allStored_step, length_landing_step]
    rw [List.length_drop] at rest others
    rw [← rest]
    rw [blockSize_zero] at first ⊢
    omega

theorem landing_all {k : Nat} {out : List UInt8} (h : AllStored writes k out.length) :
    landing writes k out = out := by
  induction out using blocksOf.induct generalizing k with
  | case1 => exact landing_nil writes k
  | case2 a l ih =>
    obtain ⟨first, others⟩ := allStored_step.1 h
    rw [← List.length_drop] at others
    rw [landing_step, first, ih others, blockSize_zero, ← List.length_take, List.take_length,
      List.take_append_drop]

/-- Nothing has landed when nothing of any payload was stored. -/
theorem landing_eq_nil_iff (k : Nat) (out : List UInt8) :
    landing writes k out = [] ↔ ∀ i, (writes (k + i)).kept (blockSize out.length i) = 0 := by
  induction out using blocksOf.induct generalizing k with
  | case1 => simp [landing_nil]
  | case2 a l ih =>
    have rest := ih (k + 1)
    rw [List.length_drop] at rest
    rw [forall_blocks (P := fun i size => (writes (k + i)).kept size = 0), ← List.length_eq_zero_iff,
      length_landing_step, Nat.add_eq_zero_iff, List.length_eq_zero_iff, rest]
    simp only [Nat.add_zero, Nat.add_assoc, Nat.add_comm 1]

theorem mem_of_mem_landing {k : Nat} {out : List UInt8} {x : UInt8} (h : x ∈ landing writes k out) :
    x ∈ out := by
  induction out using blocksOf.induct generalizing k with
  | case1 =>
    rw [landing_nil] at h
    exact h
  | case2 a l ih =>
    rw [landing_step] at h
    rcases List.mem_append.1 h with front | behind
    · exact List.mem_of_mem_take (List.mem_of_mem_take front)
    · exact List.mem_of_mem_drop (ih behind)

/-- The condition `NoShift`, payload by payload. -/
theorem noShift_step {k r : Nat} :
    NoShift writes k r ↔
      ((writes k).kept (blockSize r 0) < blockSize r 0 →
        ∀ i, (writes (k + 1 + i)).kept (blockSize (r - writerBufferSize) i) = 0) ∧
      NoShift writes (k + 1) (r - writerBufferSize) := by
  have index : ∀ i, k + 1 + i = k + (i + 1) := fun i => by omega
  constructor
  · intro h
    refine ⟨fun short i => ?_, fun i j lt short => ?_⟩
    · rw [index, ← blockSize_succ]
      exact h 0 (i + 1) (Nat.succ_pos i) short
    · rw [index, ← blockSize_succ] at short ⊢
      exact h (i + 1) (j + 1) (Nat.succ_lt_succ lt) short
  · rintro ⟨first, others⟩ i j lt short
    obtain ⟨j, rfl⟩ : ∃ m, j = m + 1 := ⟨j - 1, by omega⟩
    rw [← index, blockSize_succ]
    cases i with
    | zero => exact first short j
    | succ i =>
      rw [← index, blockSize_succ] at short
      exact others i j (Nat.lt_of_succ_lt_succ lt) short

/-- **Under `NoShift` a prefix lands.** -/
theorem prefix_landing {k : Nat} {out : List UInt8} (h : NoShift writes k out.length) :
    landing writes k out <+: out := by
  induction out using blocksOf.induct generalizing k with
  | case1 => simp [landing_nil]
  | case2 a l ih =>
    obtain ⟨first, others⟩ := noShift_step.1 h
    rw [landing_step]
    rcases Nat.lt_or_eq_of_le ((writes k).kept_le (blockSize (a :: l).length 0)) with short | whole
    · have nothing := first short
      rw [← List.length_drop] at nothing
      rw [(landing_eq_nil_iff _ _).2 nothing, List.append_nil]
      rw [List.take_take]
      exact List.take_prefix _ _
    · rw [← List.length_drop] at others
      rw [whole, blockSize_zero, ← List.length_take, List.take_length]
      obtain ⟨t, ht⟩ := ih others
      exact ⟨t, by rw [List.append_assoc, ht, List.take_append_drop]⟩

/-- A first payload and what is behind it, put together. -/
theorem split_first {r : Nat} {b rest : List UInt8} (first : b.length = min writerBufferSize r)
    (others : rest.length = r - writerBufferSize) :
    (b ++ rest).take writerBufferSize = b ∧ (b ++ rest).drop writerBufferSize = rest := by
  rcases Nat.le_total writerBufferSize r with le | ge
  · rw [Nat.min_eq_left le] at first
    exact ⟨List.take_left' first, List.drop_left' first⟩
  · have none : rest = [] := by
      apply List.eq_nil_of_length_eq_zero
      omega
    rw [none, List.append_nil]
    exact ⟨List.take_of_length_le (by omega), List.drop_eq_nil_of_le (by omega)⟩

/-- Ones do not stand where there should be more zeros. -/
theorem nil_of_shifted {a b : Nat} {l rest : List UInt8} (short : a < b) (ones : ∀ x ∈ l, x = 1)
    (h : List.replicate a 0 ++ l <+: List.replicate b 0 ++ rest) : l = [] := by
  cases l with
  | nil => rfl
  | cons x l =>
    obtain ⟨t, ht⟩ := h
    have one : x = 1 := ones x List.mem_cons_self
    have clash := congrArg (fun l => l[a]?) ht
    simp [List.getElem?_append, short, one] at clash

/-- **Without `NoShift` some bytes land in a wrong place.** -/
theorem noShift_of_prefixes {k r : Nat}
    (h : ∀ out : List UInt8, out.length = r → landing writes k out <+: out) : NoShift writes k r := by
  induction r using Nat.strongRecOn generalizing k with
  | ind r ih =>
    by_cases empty : r = 0
    · rintro i j - short
      rw [empty, blockSize_none] at short
      exact absurd short (Nat.not_lt_zero _)
    · have size : 0 < writerBufferSize := by decide
      have sum : min writerBufferSize r + (r - writerBufferSize) = r := by omega
      rw [noShift_step]
      rcases Nat.lt_or_eq_of_le ((writes k).kept_le (blockSize r 0)) with short | whole
      · -- zeros in the first payload, ones behind it
        obtain ⟨front, behind⟩ := split_first
          (List.length_replicate (n := min writerBufferSize r) (a := (0 : UInt8)))
          (List.length_replicate (n := r - writerBufferSize) (a := 1))
        have long : (List.replicate (min writerBufferSize r) (0 : UInt8) ++
            List.replicate (r - writerBufferSize) 1).length = r := by
          simp only [List.length_append, List.length_replicate, sum]
        obtain ⟨t, ht⟩ := h _ long
        rw [landing_step, long, front, behind, List.take_replicate, blockSize_zero] at ht
        rw [blockSize_zero] at short
        rw [Nat.min_eq_left (Nat.le_of_lt short)] at ht
        have nothing : landing writes (k + 1) (List.replicate (r - writerBufferSize) 1) = [] :=
          nil_of_shifted short (fun x mem => List.eq_of_mem_replicate (mem_of_mem_landing mem)) ⟨t, ht⟩
        have zero := (landing_eq_nil_iff _ _).1 nothing
        rw [List.length_replicate] at zero
        exact ⟨fun _ => zero, fun _ j _ _ => zero j⟩
      · refine ⟨fun short => absurd whole (Nat.ne_of_lt short), ih _ (by omega) fun out others => ?_⟩
        obtain ⟨front, behind⟩ := split_first
          (List.length_replicate (n := min writerBufferSize r) (a := (0 : UInt8))) others
        have long : (List.replicate (min writerBufferSize r) (0 : UInt8) ++ out).length = r := by
          simp only [List.length_append, List.length_replicate, others, sum]
        have landed := h _ long
        rw [landing_step, long, front, behind, whole, blockSize_zero, List.take_replicate,
          Nat.min_self] at landed
        exact (List.prefix_append_right_inj _).1 landed

end Lavoro
