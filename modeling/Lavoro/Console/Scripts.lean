import Lavoro.Console.Sessions

/-!
# Scripts made on the console

A batch file can be made on the console itself: `addline` writes one line of it after the other, each
with the carriage return and the line feed that `ReadLine` takes off again. Running it is then the same
as typing its lines.
-/

namespace Lavoro.Console
open Lib

variable {Node : Type} [DecidableEq Node]

/-- The bytes of lines, as `addline` writes them. -/
def linesBytes (lines : List Str16) : List UInt8 := lines.flatMap fun line => line.map UInt16.toUInt8 ++ [13, 10]

/-- A line whose units are bytes, and none of them ends it. -/
def Storable (line : Str16) : Prop := ∀ u ∈ line, u ≠ 0 ∧ u ≠ 10 ∧ u.toNat < 256

instance (line : Str16) : Decidable (Storable line) := List.decidableBAll _ line

/-! ## Lines of bytes -/

theorem linesOf_feed {front : List UInt8} (clean : 10 ∉ front) (rest : List UInt8) :
    linesOf (front ++ 10 :: rest) = front :: linesOf rest := by
  induction front with
  | nil => rw [List.nil_append, linesOf, if_pos rfl]
  | cons b front ih =>
    obtain ⟨other, clean⟩ := not_or.1 (mt List.mem_cons.2 clean)
    rw [List.cons_append, linesOf, if_neg (Ne.symm other), ih clean]

theorem Storable.bytes {line : Str16} (h : Storable line) :
    (line.map UInt16.toUInt8).map UInt8.toUInt16 = line ∧ 10 ∉ line.map UInt16.toUInt8 := by
  have units := bytes_of_small fun u mem => (h u mem).2.2
  refine ⟨units, fun feed => ?_⟩
  have mem : (10 : UInt16) ∈ (line.map UInt16.toUInt8).map UInt8.toUInt16 := List.mem_map.2 ⟨10, feed, rfl⟩
  rw [units] at mem
  exact (h 10 mem).2.1 rfl

theorem Storable.clean {line : Str16} (h : Storable line) : 0 ∉ line := fun mem => (h 0 mem).1 rfl

/-- **The lines of a file that `addline` has written** are those that it was given. -/
theorem fileLines_linesBytes {lines : List Str16} (h : ∀ line ∈ lines, Storable line) :
    fileLines (linesBytes lines) = lines := by
  induction lines with
  | nil => rfl
  | cons line lines ih =>
    obtain ⟨first, others⟩ := List.forall_mem_cons.1 h
    obtain ⟨units, clean⟩ := first.bytes
    have front : (10 : UInt8) ∉ line.map UInt16.toUInt8 ++ [13] := by
      simpa using clean
    have split : linesBytes (line :: lines) = (line.map UInt16.toUInt8 ++ [13]) ++ 10 :: linesBytes lines := by
      simp [linesBytes]
    have text : lineText (line.map UInt16.toUInt8 ++ [13]) = line := by
      have ended : (line.map UInt16.toUInt8 ++ [13]).map UInt8.toUInt16 = line ++ [13] := by
        rw [List.map_append, units]
        rfl
      rw [lineText, ended, List.getLast?_concat, if_pos rfl, List.dropLast_concat]
    have rest := ih others
    unfold fileLines at rest ⊢
    rw [split, linesOf_feed front, List.map_cons, text, rest]

/-! ## Writing and running -/

section Scripts

variable {nodeOf : Str16 → Node} {open' : List Node} {d : Disk Node} {path : Str16}

/-- The jobs that write lines to a file. -/
def writing (path : Str16) (lines : List Str16) : List Job := lines.map fun line => .order (.addline path line)

omit [DecidableEq Node] in
theorem Disk.ext {d d' : Disk Node} (path : d.szCurrentPath = d'.szCurrentPath) (file : d.file = d'.file) : d = d' := by
  cases d
  cases d'
  cases path
  cases file
  rfl

theorem Disk.content_write (d : Disk Node) (n : Node) (c : List UInt8) : (d.write n (some c)).content n = c := by
  simp [Disk.content, Disk.write]

theorem Disk.write_write (d : Disk Node) (n : Node) (c c' : Option (List UInt8)) :
    (d.write n c).write n c' = d.write n c' :=
  Disk.ext rfl (Function.update_idem _ _ _)

/-- **Lines written one after the other** stand behind what the file held. -/
theorem writing_runs (entries : Node → List DirEntry) (first : d.First path) {lines : List Str16} (some' : lines ≠ [])
    (storable : ∀ line ∈ lines, Storable line)
    (short : ∀ line ∈ lines, (Order.addline path line).line.length < maxPath)
    (other : d.named nodeOf path ∉ open') :
    Runs nodeOf entries open' d (writing path lines)
      (d.write (d.named nodeOf path) (some (d.content (d.named nodeOf path) ++ linesBytes lines))) := by
  induction lines generalizing d with
  | nil => exact absurd rfl some'
  | cons line lines ih =>
    obtain ⟨here, storable⟩ := List.forall_mem_cons.1 storable
    obtain ⟨fits, short⟩ := List.forall_mem_cons.1 short
    have stay : ∀ n ∈ open', (d.follow nodeOf (.addline path line)).file n = d.file n := by
      intro n mem
      have apart : n ≠ d.named nodeOf path := by
        rintro rfl
        exact other mem
      exact Function.update_of_ne apart _ _
    refine .order ⟨first, here.clean⟩ fits stay ?_
    have bytes : linesBytes (line :: lines) = line.map UInt16.toUInt8 ++ [13, 10] ++ linesBytes lines := rfl
    by_cases last : lines = []
    · subst last
      rw [bytes, linesBytes, List.flatMap_nil, List.append_nil, ← List.append_assoc]
      exact .done
    · have later : (d.follow nodeOf (.addline path line)).First path := ⟨⟨first.clean, first.fits⟩, first.one⟩
      have moved := ih later last storable short other
      have same : (d.follow nodeOf (.addline path line)).named nodeOf path = d.named nodeOf path := rfl
      rw [same, Disk.follow, Disk.content_write, Disk.write_write] at moved
      rw [bytes, ← List.append_assoc, ← List.append_assoc]
      exact moved

end Scripts

/-- **Running a script is typing it.** The lines of jobs are written to an empty or a new file, which the jobs
leave alone: the console arrives at one disk, whether the file is then run or the lines are typed. -/
theorem script_refines {env : Environment Node} (well : Healthy env.fw) {d d' : Disk Node} {path : Str16}
    (first : d.First path) (empty : d.content (d.named env.fw.nodeOf path) = []) {jobs : List Job} (some' : jobs ≠ [])
    (storable : ∀ job ∈ jobs, Storable job.line)
    (short : ∀ job ∈ jobs, (Order.addline path job.line).line.length < maxPath)
    (runs : Runs env.fw.nodeOf env.entries [d.named env.fw.nodeOf path]
      (d.write (d.named env.fw.nodeOf path) (some (linesBytes (jobs.map Job.line)))) jobs d')
    {stop : Command} (stops : stop = .quit ∨ stop = .end_) (others : List Str16)
    {x : ConsoleRun Node} (stands : Stands d x.state) (top : x.state.batches = []) :
    (x.typed = (writing path (jobs.map Job.line) ++ [Job.batch path]).map Job.line ++ stop.name :: others →
        Arrives env d' stop others x) ∧
      (x.typed = (writing path (jobs.map Job.line) ++ jobs).map Job.line ++ stop.name :: others →
        Arrives env d' stop others x) := by
  have lines : ∀ line ∈ jobs.map Job.line, Storable line := List.forall_mem_map.2 storable
  let written := d.write (d.named env.fw.nodeOf path) (some (linesBytes (jobs.map Job.line)))
  have wrote : Runs env.fw.nodeOf env.entries [] d (writing path (jobs.map Job.line)) written := by
    have wrote := writing_runs env.entries first (mt List.map_eq_nil_iff.1 some') lines
      (List.forall_mem_map.2 short) (List.not_mem_nil : d.named env.fw.nodeOf path ∉ [])
    rwa [empty, List.nil_append] at wrote
  have script : Script (linesBytes (jobs.map Job.line)) jobs := by
    have read := fileLines_linesBytes lines
    refine ⟨fun none => ?_, [], by rw [read, List.append_nil], .none⟩
    rw [none] at read
    exact some' (List.map_eq_nil_iff.1 read.symm)
  have fits : (Job.batch path).line.length < maxPath := by
    obtain ⟨job, mem⟩ := List.exists_mem_of_ne_nil _ some'
    have long := short job mem
    have names : Command.batch.name.length = 5 ∧ Command.addline.name.length = 7 := by decide
    simp only [Order.line, Job.line, List.length_append, List.length_cons, names] at long ⊢
    omega
  have there : written.file (written.named env.fw.nodeOf path) = some (linesBytes (jobs.map Job.line)) :=
    Function.update_self _ _ _
  have argument : written.Argument path := ⟨first.clean, first.fits⟩
  have batch : Runs env.fw.nodeOf env.entries [] written [Job.batch path] d' :=
    .batch argument fits there script runs .done
  exact ⟨session_refines well (wrote.append batch) stands top stops,
    session_refines well (wrote.append (runs.mono (List.nil_subset _))) stands top stops⟩

/-- `addline a mkdir b`, `batch a` and `end` on an empty disk. -/
theorem script_makes :
    Arrives flawlessEnvironment
      (((⟨[backslash], fun _ => none⟩ : Disk Str16).write [92, 97]
        (some (linesBytes [(Order.mkdir [98]).line]))).follow id (.mkdir [98])) .end_ []
      ⟨[], [(Order.addline [97] (Order.mkdir [98]).line).line, (Job.batch [97]).line, Command.end_.name],
        consoleOver fun _ => none⟩ := by
  let d : Disk Str16 := ⟨[backslash], fun _ => none⟩
  let written := d.write [92, 97] (some (linesBytes [(Order.mkdir [98]).line]))
  have runs : Runs id flawlessEnvironment.entries [[92, 97]] written [.order (.mkdir [98])]
      (written.follow id (.mkdir [98])) := by
    refine .order ⟨by decide, by decide⟩ (by decide) (fun n mem => ?_) .done
    rw [List.mem_singleton.1 mem]
    rfl
  have healthy : Healthy flawlessEnvironment.fw := flawless_healthy
  have first : d.First [97] := ⟨⟨by decide, by decide⟩, by decide⟩
  have some' : [Job.order (.mkdir [98])] ≠ [] := List.cons_ne_nil _ _
  have storable : Storable (Job.order (.mkdir [98])).line := by decide
  exact (script_refines healthy first rfl some' (List.forall_mem_singleton.2 storable)
    (List.forall_mem_singleton.2 (by decide)) runs (.inr rfl) [] (consoleOver_stands _) rfl).1 rfl

end Lavoro.Console
