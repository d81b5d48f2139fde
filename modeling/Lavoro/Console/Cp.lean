import Lavoro.Console.Copy

/-!
# The command `cp`

On a file system whose calls all succeed, `cp` writes every byte of the source over the
first bytes of the destination. The destination is opened for creation without being
truncated, so what it held behind the source's length stays. Both paths that are put together are taken to be
shorter than `MAX_PATH`.
-/

namespace Lavoro.Console
open Lib

/-- No call of the file system fails; `Read` may still hand out any number of bytes. -/
structure Works {Node : Type} (fw : Firmware Node) : Prop where
  opens : ∀ i, fw.opens i = .granted
  reads : ∀ i, fw.reads i ≠ .fails
  writes : ∀ i, fw.writes i = .stores

variable {Node : Type} [DecidableEq Node] {fw : Firmware Node}

omit [DecidableEq Node] in
theorem Works.readable_eq (h : Works fw) (k : Nat) (l : List UInt8) : readable fw.reads k l = l :=
  readable_all h.reads k l

omit [DecidableEq Node] in
theorem Works.landed_eq (h : Works fw) (k : Nat) (blocks : List (List UInt8)) :
    landed fw.writes k blocks = blocks.flatten := by
  induction blocks generalizing k with
  | nil => rfl
  | cons b rest ih => rw [landed, h.writes k, ih, List.flatten_cons, WriteAnswer.stored]

theorem flatten_blocksOf (l : List UInt8) : (blocksOf l).flatten = l := by
  induction l using blocksOf.induct with
  | case1 => simp [blocksOf]
  | case2 a l ih => rw [blocksOf, List.flatten_cons, ih, List.take_append_drop]

/-- The run of `cp` on the typed line ends, no call went through a missing handle, and then
the destination holds what the source held, which it still holds. -/
def CopiesExactly (fw : Firmware Node) (szCurrentPath szLine : Str16)
    (file : Node → Option (List UInt8)) : Prop :=
  ∃ w, (∃ fuel, cp fw szCurrentPath szLine fuel (World.start file) = some w) ∧ w.trapped = false ∧
    w.file (fw.nodeOf (cpDestination szCurrentPath szLine)) =
      file (fw.nodeOf (cpSource szCurrentPath szLine)) ∧
    w.file (fw.nodeOf (cpSource szCurrentPath szLine)) =
      file (fw.nodeOf (cpSource szCurrentPath szLine))

theorem cp_unique {szCurrentPath szLine : Str16} {w : World Node} {fuel fuel' : Nat} {r r' : World Node}
    (h : cp fw szCurrentPath szLine fuel w = some r)
    (h' : cp fw szCurrentPath szLine fuel' w = some r') : r = r' := by
  obtain ⟨st, run, rfl⟩ := Option.map_eq_some_iff.1 h
  obtain ⟨st', run', rfl⟩ := Option.map_eq_some_iff.1 h'
  rw [copyFile_unique run run']

/-- **What `cp` does** when every call succeeds. -/
theorem cp_result (works : Works fw) (szCurrentPath szLine : Str16)
    (file : Node → Option (List UInt8)) {c : List UInt8}
    (source : file (fw.nodeOf (cpSource szCurrentPath szLine)) = some c) :
    ∃ w, (∃ fuel, cp fw szCurrentPath szLine fuel (World.start file) = some w) ∧ w.trapped = false ∧
      w.file (fw.nodeOf (cpDestination szCurrentPath szLine)) = some (c ++
        ((World.start file).content (fw.nodeOf (cpDestination szCurrentPath szLine))).drop c.length) ∧
      ∀ n, n ≠ fw.nodeOf (cpDestination szCurrentPath szLine) → w.file n = file n := by
  obtain ⟨st, ⟨fuel, run⟩, done⟩ := copyFile_granted (cpSource_ne_nil _ _)
    (cpDestination_ne_nil _ _) (works.opens 0) (works.opens 1) source
  refine ⟨st.world, ⟨fuel, ?_⟩, done.trapped, ?_, done.frame⟩
  · rw [cp]
    exact congrArg (Option.map _) run
  · have copy := done.copy
    rw [works.readable_eq, landing, works.landed_eq, flatten_blocksOf, overwrite_zero] at copy
    exact copy

/-- **When `cp` copies exactly**, with paths that fit `szPath`: the destination was not longer than the source. -/
theorem cp_exact_iff (works : Works fw) (szCurrentPath szLine : Str16)
    {file : Node → Option (List UInt8)} {c : List UInt8}
    (source : file (fw.nodeOf (cpSource szCurrentPath szLine)) = some c)
    (distinct : fw.nodeOf (cpSource szCurrentPath szLine) ≠
      fw.nodeOf (cpDestination szCurrentPath szLine)) :
    CopiesExactly fw szCurrentPath szLine file ↔
      ∀ old, file (fw.nodeOf (cpDestination szCurrentPath szLine)) = some old →
        old.length ≤ c.length := by
  obtain ⟨w, ⟨fuel, run⟩, trapped, copy, frame⟩ := cp_result works szCurrentPath szLine file source
  have kept := (frame _ distinct).trans source
  constructor
  · rintro ⟨w', ⟨fuel', run'⟩, -, exact', -⟩ old there
    obtain rfl : w = w' := cp_unique run run'
    rw [copy, source, Option.some.injEq] at exact'
    have rest := List.append_cancel_left (exact'.trans (List.append_nil c).symm)
    rw [World.content_start, there, Option.getD_some, List.drop_eq_nil_iff] at rest
    exact rest
  · intro fits
    refine ⟨w, ⟨fuel, run⟩, trapped, ?_, kept.trans source.symm⟩
    have rest : ((World.start file).content
        (fw.nodeOf (cpDestination szCurrentPath szLine))).drop c.length = [] := by
      rw [List.drop_eq_nil_iff, World.content_start]
      cases there : file (fw.nodeOf (cpDestination szCurrentPath szLine)) with
      | none => exact Nat.zero_le _
      | some old => exact fits old there
    rw [copy, source, rest, List.append_nil]

theorem flawless_works : Works flawless := ⟨fun _ => rfl, fun _ => nofun, fun _ => rfl⟩

/-- The line `cp a b` typed in the root directory. -/
def cpLine : Str16 := [99, 112, 32, 97, 32, 98, 0]

/-- The file `a` of one byte and the file `b` of two. -/
def shortAndLong : Str16 → Option (List UInt8) := fun n =>
  if n = [92, 97] then some [1] else if n = [92, 98] then some [2, 3] else none

theorem cp_exact_absent :
    CopiesExactly flawless [92] cpLine (fun n => if n = [92, 97] then some [1] else none) := by
  apply (cp_exact_iff flawless_works [92] cpLine (c := [1]) (by decide) (by decide)).2
  intro old there
  cases there

/-- The second byte of `b` outlives the copy of `a` over it. -/
theorem cp_keeps_old_tail : ¬ CopiesExactly flawless [92] cpLine shortAndLong := by
  rintro ⟨w, ⟨fuel, run⟩, -, copied, -⟩
  obtain ⟨w', ⟨fuel', run'⟩, -, copy, -⟩ :=
    cp_result flawless_works [92] cpLine shortAndLong (c := [1]) (by decide)
  obtain rfl : w = w' := cp_unique run run'
  exact absurd (copied.symm.trans copy) (by decide)

end Lavoro.Console
