import Lavoro.Console.Mv

/-!
# When `mv` loses no data

Whether a run of `mv` loses data depends on the bytes in the files only by accident. What
decides it is the pattern of the firmware's answers, whether both paths name one file, and
the two lengths: `MvSafe`. For every such pattern `mv_keeps_iff` says that all contents are
kept exactly under it. The paths that are put together are taken to be shorter than `MAX_PATH`.
-/

namespace Lavoro.Console
open Lib

variable {Node : Type} [DecidableEq Node] {fw : Firmware Node}

/-- The patterns of answers under which no content is lost. `same` says that both paths
name one file, `n` is the length of the source, `m` that of the destination if there is one. -/
inductive MvSafe (fw : Firmware Node) (same : Prop) (n : Nat) (m : Option Nat) : Prop where
  /-- The first read goes through a NULL handle. -/
  | noSource (refused : fw.opens 0 ≠ .granted)
  /-- The first write goes through a NULL handle. -/
  | noDestination (refused : fw.opens 1 ≠ .granted) (some : 0 < delivered fw.reads 0 n)
  | notDeleted (refused : fw.opens 1 ≠ .granted) (stays : fw.deletes 0 = false)
  | bothEmpty (distinct : ¬ same) (source : n = 0) (destination : m = some 0)
  | overItself (opened : fw.opens 1 = .granted) (stays : fw.deletes 0 = false)
      (inPlace : same → NoShift fw.writes 0 (delivered fw.reads 0 n))
  | moved (opened : fw.opens 1 = .granted) (distinct : ¬ same) (readAll : delivered fw.reads 0 n = n)
      (storedAll : AllStored fw.writes 0 n) (fits : ∀ k, m = some k → k ≤ n)

/-- The files `s` and `d` have the lengths `n` and `m`. -/
structure Sized (file : Node → Option (List UInt8)) (s d : Node) (n : Nat) (m : Option Nat) : Prop where
  source : ∃ c, file s = some c ∧ c.length = n
  destination : s ≠ d → (file d).map List.length = m

/-- Two files with given contents, where the first wins. -/
def placed (s d : Node) (c : List UInt8) (old : Option (List UInt8)) : Node → Option (List UInt8) :=
  fun x => if x = s then some c else if x = d then old else none

theorem placed_source (s d : Node) (c : List UInt8) (old : Option (List UInt8)) :
    placed s d c old s = some c := if_pos rfl

theorem placed_destination {s d : Node} (c : List UInt8) (old : Option (List UInt8)) (ne : s ≠ d) :
    placed s d c old d = old := by
  rw [placed, if_neg (Ne.symm ne), if_pos rfl]

theorem placed_sized (s d : Node) (c : List UInt8) {m : Option Nat} {old : List UInt8}
    (size : old.length = m.getD 0) : Sized (placed s d c (m.map fun _ => old)) s d c.length m where
  source := ⟨c, placed_source s d c _, rfl⟩
  destination ne := by
    rw [placed_destination c _ ne]
    cases m with
    | none => rfl
    | some k => exact congrArg some size

omit [DecidableEq Node] in
/-- The length of what a destination held, absent or not. -/
theorem Sized.length_getD {file : Node → Option (List UInt8)} {s d : Node} {n : Nat} {m : Option Nat}
    (h : Sized file s d n m) (ne : s ≠ d) : ((file d).getD []).length = m.getD 0 := by
  rw [← h.destination ne]
  cases file d <;> rfl

section Patterns

variable {szCurrentPath szLine : Str16} {n : Nat} {m : Option Nat}

/-- The bytes delivered of a content fill up the reads of its length. -/
theorem readable_eq_nil_iff {reads : Nat → ReadAnswer} {c : List UInt8} :
    readable reads 0 c = [] ↔ delivered reads 0 c.length = 0 := by
  rw [← length_readable, List.length_eq_zero_iff]

/-- A destination that cannot be opened. -/
theorem keepsData_noDestination {file : Node → Option (List UInt8)} {c : List UInt8}
    (open0 : fw.opens 0 = .granted) (open1 : fw.opens 1 ≠ .granted)
    (source : file (fw.nodeOf (mvSource szCurrentPath szLine)) = some c) :
    KeepsData fw szCurrentPath szLine file ↔
      (readable fw.reads 0 c = [] → fw.deletes 0 = true →
        fw.nodeOf (mvSource szCurrentPath szLine) ≠ fw.nodeOf (mvDestination szCurrentPath szLine) ∧
        file (fw.nodeOf (mvDestination szCurrentPath szLine)) = some c) := by
  obtain ⟨st, ⟨fuel, run⟩, handle, files, none, fine⟩ :=
    copyFile_noDestination (mvSource_ne_nil _ _) (mvDestination_ne_nil _ _) open0 open1 source
  obtain ⟨trapped, after⟩ := delete_result fw handle none
  rw [keepsData_iff (mv_of_copyFile run) source, trapped, fine, after, after, files, source]
  cases fw.deletes 0 with
  | false => simp
  | true =>
    by_cases same : fw.nodeOf (mvDestination szCurrentPath szLine) =
        fw.nodeOf (mvSource szCurrentPath szLine)
    · simp [same]
    · simp [same, Ne.symm same]

/-- Both files opened. -/
theorem keepsData_opened {file : Node → Option (List UInt8)} {c : List UInt8}
    (open0 : fw.opens 0 = .granted) (open1 : fw.opens 1 = .granted)
    (source : file (fw.nodeOf (mvSource szCurrentPath szLine)) = some c) :
    KeepsData fw szCurrentPath szLine file ↔
      if fw.nodeOf (mvSource szCurrentPath szLine) = fw.nodeOf (mvDestination szCurrentPath szLine) then
        fw.deletes 0 = false ∧ landing fw.writes 0 (readable fw.reads 0 c) <+: c
      else
        fw.deletes 0 = true → overwrite 0
          ((file (fw.nodeOf (mvDestination szCurrentPath szLine))).getD []) 0
          (landing fw.writes 0 (readable fw.reads 0 c)) = c := by
  obtain ⟨st, ⟨fuel, run⟩, done⟩ :=
    copyFile_granted (mvSource_ne_nil _ _) (mvDestination_ne_nil _ _) open0 open1 source
  obtain ⟨trapped, after⟩ := delete_result fw done.source done.deletes
  have copy := done.copy
  rw [keepsData_iff (mv_of_copyFile run) source, trapped, done.trapped, after, after]
  by_cases same : fw.nodeOf (mvSource szCurrentPath szLine) =
      fw.nodeOf (mvDestination szCurrentPath szLine)
  · rw [if_pos same]
    rw [← same] at copy ⊢
    rw [copy, World.content_start, source, Option.getD_some, overwrite_zero]
    have front : landing fw.writes 0 (readable fw.reads 0 c) ++
        c.drop (landing fw.writes 0 (readable fw.reads 0 c)).length = c ↔
        landing fw.writes 0 (readable fw.reads 0 c) <+: c := by
      rw [List.prefix_iff_eq_append]
    cases fw.deletes 0 with
    | false => simpa using front
    | true => simp
  · rw [if_neg same, copy, done.frame _ same, source, World.content_start]
    cases fw.deletes 0 with
    | false => simp
    | true => simp [Ne.symm same]

omit [DecidableEq Node] in
/-- Over another file: the copy is exact for all contents when everything was read and
stored and the destination was not longer. -/
theorem overwrite_all_iff :
    (∀ c old : List UInt8, c.length = n → old.length = m.getD 0 →
        overwrite 0 old 0 (landing fw.writes 0 (readable fw.reads 0 c)) = c) ↔
      delivered fw.reads 0 n = n ∧ AllStored fw.writes 0 n ∧ m.getD 0 ≤ n := by
  constructor
  · intro exact'
    have copied := exact' (List.replicate n 0) (List.replicate (m.getD 0) 1) (by simp) (by simp)
    rw [overwrite_zero] at copied
    have landed := length_landing_le fw.writes 0 (readable fw.reads 0 (List.replicate n 0))
    have read := delivered_le fw.reads 0 n
    rw [length_readable, List.length_replicate] at landed
    have lengths := congrArg List.length copied
    simp only [List.length_append, List.length_drop, List.length_replicate] at lengths
    -- what is left of the old content would be a one among the zeros
    have none : (List.replicate (m.getD 0) (1 : UInt8)).drop
        (landing fw.writes 0 (readable fw.reads 0 (List.replicate n 0))).length = [] := by
      rw [List.eq_nil_iff_forall_not_mem]
      intro x mem
      have one := List.eq_of_mem_replicate (List.mem_of_mem_drop mem)
      have zero := List.eq_of_mem_replicate (copied ▸ List.mem_append_right _ mem)
      rw [one] at zero
      exact absurd zero (by decide)
    rw [List.drop_eq_nil_iff, List.length_replicate] at none
    have readAll : delivered fw.reads 0 n = n := by omega
    refine ⟨readAll, ?_, by omega⟩
    have all : (landing fw.writes 0 (readable fw.reads 0 (List.replicate n 0))).length =
        (readable fw.reads 0 (List.replicate n 0)).length := by
      rw [length_readable, List.length_replicate]
      omega
    have stored := (length_landing_eq_iff 0 _).1 all
    rw [length_readable, List.length_replicate, readAll] at stored
    exact stored
  · rintro ⟨readAll, storedAll, fits⟩ c old rfl short
    have whole : readable fw.reads 0 c = c := by
      rw [readable_eq_take, readAll, List.take_length]
    rw [whole, landing_all storedAll, overwrite_zero, List.drop_eq_nil_of_le (by omega), List.append_nil]

omit [DecidableEq Node] in
/-- Over itself: a prefix lands whatever the bytes are. -/
theorem landing_prefixes_iff :
    (∀ c : List UInt8, c.length = n → landing fw.writes 0 (readable fw.reads 0 c) <+: c) ↔
      NoShift fw.writes 0 (delivered fw.reads 0 n) := by
  constructor
  · intro front
    refine noShift_of_prefixes fun out long => ?_
    have le := delivered_le fw.reads 0 n
    have size : (out ++ List.replicate (n - delivered fw.reads 0 n) 0).length = n := by
      simp only [List.length_append, List.length_replicate]
      omega
    have read : readable fw.reads 0 (out ++ List.replicate (n - delivered fw.reads 0 n) 0) = out := by
      rw [readable_eq_take, size, List.take_left' long]
    have landed := front _ size
    rw [read] at landed
    have short := length_landing_le fw.writes 0 out
    exact List.prefix_of_prefix_length_le landed (List.prefix_append _ _) short
  · rintro noShift c rfl
    rw [← length_readable] at noShift
    exact (prefix_landing noShift).trans (prefix_readable _ _ _)

/-- The patterns in which the destination cannot be opened. -/
theorem keeps_noDestination_iff (open0 : fw.opens 0 = .granted) (open1 : fw.opens 1 ≠ .granted) :
    (∀ file : Node → Option (List UInt8),
        Sized file (fw.nodeOf (mvSource szCurrentPath szLine))
          (fw.nodeOf (mvDestination szCurrentPath szLine)) n m →
        KeepsData fw szCurrentPath szLine file) ↔
      MvSafe fw (fw.nodeOf (mvSource szCurrentPath szLine) =
        fw.nodeOf (mvDestination szCurrentPath szLine)) n m := by
  constructor
  · intro keeps
    by_cases read : 0 < delivered fw.reads 0 n
    · exact .noDestination open1 read
    cases gone : fw.deletes 0 with
    | false => exact .notDeleted open1 gone
    | true =>
      have size : (List.replicate (m.getD 0) (1 : UInt8)).length = m.getD 0 := List.length_replicate
      have sized := placed_sized (fw.nodeOf (mvSource szCurrentPath szLine))
        (fw.nodeOf (mvDestination szCurrentPath szLine)) (List.replicate n 0) size
      rw [List.length_replicate] at sized
      have none : readable fw.reads 0 (List.replicate n 0) = [] := by
        rw [readable_eq_nil_iff, List.length_replicate]
        omega
      obtain ⟨distinct, copied⟩ := (keepsData_noDestination open0 open1
        (placed_source _ _ _ _)).1 (keeps _ sized) none gone
      rw [placed_destination _ _ distinct] at copied
      obtain ⟨k, rfl, equal⟩ := Option.map_eq_some_iff.1 copied
      have length := congrArg List.length equal
      rw [List.length_replicate, List.length_replicate, Option.getD_some] at length
      subst length
      cases k with
      | zero => exact .bothEmpty distinct rfl rfl
      | succ k => exact absurd (List.cons.inj equal).1 (by decide)
  · intro safe file sized
    obtain ⟨c, source, rfl⟩ := sized.source
    refine (keepsData_noDestination open0 open1 source).2 fun none gone => ?_
    cases safe with
    | noSource refused => exact absurd open0 refused
    | noDestination _ some => exact absurd (readable_eq_nil_iff.1 none) (Nat.ne_of_gt some)
    | notDeleted _ stays => exact absurd (stays.symm.trans gone) Bool.false_ne_true
    | bothEmpty distinct empty destination =>
      refine ⟨distinct, ?_⟩
      have there := sized.destination distinct
      rw [destination, Option.map_eq_some_iff] at there
      obtain ⟨old, there, zero⟩ := there
      rw [there, List.eq_nil_of_length_eq_zero zero, List.eq_nil_of_length_eq_zero empty]
    | overItself opened => exact absurd opened open1
    | moved opened => exact absurd opened open1

/-- Both files opened: what keeps every content is one of the safe patterns. -/
theorem safe_of_keeps (open0 : fw.opens 0 = .granted) (open1 : fw.opens 1 = .granted)
    (keeps : ∀ file : Node → Option (List UInt8),
      Sized file (fw.nodeOf (mvSource szCurrentPath szLine))
        (fw.nodeOf (mvDestination szCurrentPath szLine)) n m → KeepsData fw szCurrentPath szLine file) :
    MvSafe fw (fw.nodeOf (mvSource szCurrentPath szLine) =
      fw.nodeOf (mvDestination szCurrentPath szLine)) n m := by
  have given (c old : List UInt8) (long : c.length = n) (size : old.length = m.getD 0) :=
    (keepsData_opened open0 open1 (placed_source _ _ _ _)).1 (keeps _ (long ▸ placed_sized _ _ c size))
  by_cases same : fw.nodeOf (mvSource szCurrentPath szLine) = fw.nodeOf (mvDestination szCurrentPath szLine)
  · simp only [if_pos same] at given
    have size : (List.replicate (m.getD 0) (1 : UInt8)).length = m.getD 0 := List.length_replicate
    have stays := (given (List.replicate n 0) _ List.length_replicate size).1
    exact .overItself open1 stays fun _ =>
      landing_prefixes_iff.1 fun c long => (given c _ long size).2
  · simp only [if_neg same, placed_destination _ _ same] at given
    cases gone : fw.deletes 0 with
    | false => exact .overItself open1 gone fun same' => absurd same' same
    | true =>
      have exact' : ∀ c old : List UInt8, c.length = n → old.length = m.getD 0 →
          overwrite 0 old 0 (landing fw.writes 0 (readable fw.reads 0 c)) = c := by
        intro c old long size
        have held : (m.map fun _ => old).getD [] = old := by
          cases m with
          | none => exact (List.eq_nil_of_length_eq_zero size).symm
          | some k => rfl
        rw [← held]
        exact given c old long size gone
      obtain ⟨readAll, storedAll, fits⟩ := overwrite_all_iff.1 exact'
      refine .moved open1 same readAll storedAll ?_
      rintro k rfl
      exact fits

/-- Both files opened: the safe patterns keep every content. -/
theorem keeps_of_safe (open0 : fw.opens 0 = .granted) (open1 : fw.opens 1 = .granted)
    (safe : MvSafe fw (fw.nodeOf (mvSource szCurrentPath szLine) =
      fw.nodeOf (mvDestination szCurrentPath szLine)) n m) {file : Node → Option (List UInt8)}
    (sized : Sized file (fw.nodeOf (mvSource szCurrentPath szLine))
      (fw.nodeOf (mvDestination szCurrentPath szLine)) n m) :
    KeepsData fw szCurrentPath szLine file := by
  obtain ⟨c, source, rfl⟩ := sized.source
  rw [keepsData_opened open0 open1 source]
  cases safe with
  | noSource refused => exact absurd open0 refused
  | noDestination refused => exact absurd open1 refused
  | notDeleted refused => exact absurd open1 refused
  | bothEmpty distinct empty destination =>
    rw [if_neg distinct]
    intro _
    have none := sized.length_getD distinct
    rw [destination, Option.getD_some] at none
    have c_nil := List.eq_nil_of_length_eq_zero empty
    rw [List.eq_nil_of_length_eq_zero none, c_nil]
    simp [readable, landing_nil]
  | overItself _ stays inPlace =>
    by_cases same : fw.nodeOf (mvSource szCurrentPath szLine) =
        fw.nodeOf (mvDestination szCurrentPath szLine)
    · rw [if_pos same]
      exact ⟨stays, landing_prefixes_iff.2 (inPlace same) c rfl⟩
    · rw [if_neg same]
      intro gone
      exact absurd (stays.symm.trans gone) Bool.false_ne_true
  | moved _ distinct readAll storedAll fits =>
    rw [if_neg distinct]
    intro _
    have short : m.getD 0 ≤ c.length := by
      cases m with
      | none => exact Nat.zero_le _
      | some k => exact fits k rfl
    exact overwrite_all_iff.2 ⟨readAll, storedAll, short⟩ c _ rfl (sized.length_getD distinct)

/-- **When `mv` keeps the data**, for every pattern of answers, every pair of paths that fit `szPath` and
every pair of lengths, whatever the contents. -/
theorem mv_keeps_iff (fw : Firmware Node) (szCurrentPath szLine : Str16) (n : Nat) (m : Option Nat) :
    (∀ file : Node → Option (List UInt8),
        Sized file (fw.nodeOf (mvSource szCurrentPath szLine))
          (fw.nodeOf (mvDestination szCurrentPath szLine)) n m →
        KeepsData fw szCurrentPath szLine file) ↔
      MvSafe fw (fw.nodeOf (mvSource szCurrentPath szLine) =
        fw.nodeOf (mvDestination szCurrentPath szLine)) n m := by
  by_cases open0 : fw.opens 0 = .granted
  · by_cases open1 : fw.opens 1 = .granted
    · exact ⟨safe_of_keeps open0 open1, fun safe _ => keeps_of_safe open0 open1 safe⟩
    · exact keeps_noDestination_iff open0 open1
  · exact iff_of_true (fun _ _ => keepsData_noSource open0) (.noSource open0)

end Patterns

/-- The line `mv a b` typed in the root directory. -/
def mvLine : Str16 := [109, 118, 32, 97, 32, 98, 0]

/-- A file system that has no room left. -/
def fullDisk : Firmware Str16 := { flawless with writes := fun _ => .fails 0 }

/-- The only file is `a`, of one byte. -/
def onlyA : Str16 → Option (List UInt8) := fun n => if n = [92, 97] then some [1] else none

/-- The byte of `a` is not written to `b`, and `a` is deleted. -/
theorem mv_loses_data_on_full_disk : ¬ KeepsData fullDisk [92] mvLine onlyA := by
  rintro ⟨w, ⟨fuel, run⟩, kept⟩
  have ends : (mv fullDisk [92] mvLine 2 (World.start onlyA)).map
      (fun w => (w.trapped, w.file [92, 97], w.file [92, 98])) = some (false, none, some []) := by
    decide
  obtain ⟨w', run', after⟩ := Option.map_eq_some_iff.1 ends
  obtain rfl : w = w' := mv_unique run run'
  simp only [Prod.mk.injEq] at after
  rcases kept after.1 with source | destination
  · exact absurd (source.symm.trans after.2.1) (by decide)
  · exact absurd (destination.symm.trans after.2.2) (by decide)

end Lavoro.Console
