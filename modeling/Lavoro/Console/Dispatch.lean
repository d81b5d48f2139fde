import Lavoro.Console.Path
import Mathlib.Data.List.TakeWhile

/-!
# Which command a line runs

`ConsoleMode` compares `szLine` with one name after the other, some with `StrCmp` as a whole
and the others with `StrnCmp` in their first units only. `dispatch` is the branch of the
chain that is taken, and `named` the command that a word names.
-/

namespace Lavoro.Console

/-- `StrCmp`; behind the units there is a NUL. -/
def strCmp : Str16 → Str16 → Int
  | [], s2 => 0 - (s2.headD 0).toNat
  | c :: s1, s2 => if c ≠ 0 ∧ c = s2.headD 0 then strCmp s1 s2.tail else c.toNat - (s2.headD 0).toNat

/-- `StrnCmp`. -/
def strnCmp : Str16 → Str16 → Nat → Int
  | _, _, 0 => 0
  | [], s2, _ + 1 => 0 - (s2.headD 0).toNat
  | c :: s1, s2, len + 1 =>
    if c ≠ 0 ∧ c = s2.headD 0 then strnCmp s1 s2.tail len else c.toNat - (s2.headD 0).toNat

/-- A string literal. -/
def units (literal : List Char) : Str16 := literal.map fun c => UInt16.ofNat c.toNat

inductive Command where
  | box
  | pyramids
  | antTSP
  | ls
  | cd
  | cwd
  | cat
  | connect
  | accept
  | filldemo
  | printmodes
  | quit
  | end_
  | rm
  | cp
  | mv
  | addline
  | mkdir
  | batch
  deriving Repr, DecidableEq

/-- How the chain compares the line with a name: as a whole, or its first units only. -/
inductive Compare where
  | whole
  | start
  deriving Repr, DecidableEq

namespace Command

def name : Command → Str16
  | .box => units ['A', 'C', 'M', '/', 'B', 'o', 'x']
  | .pyramids => units ['A', 'C', 'M', '/', 'P', 'y', 'r', 'a', 'm', 'i', 'd', 's']
  | .antTSP => units ['A', 'n', 't', 'T', 'S', 'P']
  | .ls => units ['l', 's']
  | .cd => units ['c', 'd']
  | .cwd => units ['c', 'w', 'd']
  | .cat => units ['c', 'a', 't']
  | .connect => units ['c', 'o', 'n', 'n', 'e', 'c', 't']
  | .accept => units ['a', 'c', 'c', 'e', 'p', 't']
  | .filldemo => units ['f', 'i', 'l', 'l', 'd', 'e', 'm', 'o']
  | .printmodes => units ['p', 'r', 'i', 'n', 't', 'm', 'o', 'd', 'e', 's']
  | .quit => units ['q', 'u', 'i', 't']
  | .end_ => units ['e', 'n', 'd']
  | .rm => units ['r', 'm']
  | .cp => units ['c', 'p']
  | .mv => units ['m', 'v']
  | .addline => units ['a', 'd', 'd', 'l', 'i', 'n', 'e']
  | .mkdir => units ['m', 'k', 'd', 'i', 'r']
  | .batch => units ['b', 'a', 't', 'c', 'h']

def compare : Command → Compare
  | .box => .whole
  | .pyramids => .whole
  | .antTSP => .whole
  | .ls => .whole
  | .cd => .start
  | .cwd => .whole
  | .cat => .start
  | .connect => .start
  | .accept => .start
  | .filldemo => .start
  | .printmodes => .start
  | .quit => .whole
  | .end_ => .whole
  | .rm => .start
  | .cp => .start
  | .mv => .start
  | .addline => .start
  | .mkdir => .start
  | .batch => .start

/-- The commands in the order of the chain. -/
def chain : List Command :=
  [.box, .pyramids, .antTSP, .ls, .cd, .cwd, .cat, .connect, .accept, .filldemo, .printmodes, .quit,
    .end_, .rm, .cp, .mv, .addline, .mkdir, .batch]

/-- The test of a branch; `StrnCmp` is called with the length of the name. -/
def test (szLine : Str16) (c : Command) : Bool :=
  match c.compare with
  | .whole => strCmp szLine c.name = 0
  | .start => strnCmp szLine c.name c.name.length = 0

end Command

/-- The branch of the chain that a line takes, if it takes one. -/
def dispatch (szLine : Str16) : Option Command := Command.chain.find? (Command.test szLine)

/-- The first word of a line. -/
def firstWord (line : Str16) : Str16 := (line.dropWhile (· = space)).takeWhile (· ≠ space)

/-- The command of this name. -/
def named (word : Str16) : Option Command := Command.chain.find? fun c => c.name = word

/-- A line that runs what its first word names: a command that is compared as a whole stands alone
on it, the name of one that is not stands at its start, and where the word names no command the
line does not start with such a name either. -/
def RunsAsNamed (line : Str16) : Prop :=
  match named (firstWord line) with
  | some c => (c.compare = .whole → line = c.name) ∧ (c.compare = .start → line.head? ≠ some space)
  | none => ∀ c ∈ Command.chain, c.compare = .start → ¬ c.name <+: line

/-! ## The tests -/

theorem strAt_zero (mem : Str16) : strAt mem 0 = mem.takeWhile (· ≠ 0) := by
  rw [strAt, List.drop_zero]

/-- The difference of two units is zero only where they are equal. -/
theorem sub_eq_zero_iff {c d : UInt16} : (c.toNat : Int) - d.toNat = 0 ↔ c = d := by
  rw [← UInt16.toNat_inj]
  omega

theorem strCmp_eq_zero_iff {mem name : Str16} (clean : 0 ∉ name) :
    strCmp mem name = 0 ↔ strAt mem 0 = name := by
  rw [strAt_zero]
  induction mem generalizing name with
  | nil =>
    cases name with
    | nil => simp [strCmp]
    | cons d name =>
      have set : 0 ≠ d := fun zero => clean (zero ▸ List.mem_cons_self)
      simpa [strCmp, set] using sub_eq_zero_iff (c := 0) (d := d)
  | cons c mem ih =>
    cases name with
    | nil =>
      rw [strCmp, if_neg (fun both => both.1 both.2)]
      by_cases ends : c = 0 <;> simp [ends, ← UInt16.toNat_inj]
    | cons d name =>
      have set : d ≠ 0 := fun zero => clean (zero ▸ List.mem_cons_self)
      have rest := ih fun mem => clean (List.mem_cons_of_mem _ mem)
      by_cases same : c = d
      · subst same
        simpa [strCmp, set] using rest
      · have apart : ¬ (c.toNat : Int) - d.toNat = 0 := mt sub_eq_zero_iff.1 same
        by_cases ends : c = 0 <;> simp_all [strCmp]

/-- `StrnCmp` with the length of a name tests the start of the line. -/
theorem strnCmp_eq_zero_iff {mem name : Str16} (clean : 0 ∉ name) :
    strnCmp mem name name.length = 0 ↔ name <+: strAt mem 0 := by
  rw [strAt_zero]
  induction mem generalizing name with
  | nil =>
    cases name with
    | nil => simp [strnCmp]
    | cons d name =>
      have set : 0 ≠ d := fun zero => clean (zero ▸ List.mem_cons_self)
      simpa [strnCmp, set] using sub_eq_zero_iff (c := 0) (d := d)
  | cons c mem ih =>
    cases name with
    | nil => simp [strnCmp]
    | cons d name =>
      have set : d ≠ 0 := fun zero => clean (zero ▸ List.mem_cons_self)
      have rest := ih fun mem => clean (List.mem_cons_of_mem _ mem)
      by_cases same : c = d
      · subst same
        simpa [strnCmp, set, List.cons_prefix_cons] using rest
      · have apart : ¬ (c.toNat : Int) - d.toNat = 0 := mt sub_eq_zero_iff.1 same
        by_cases ends : c = 0 <;> simp_all [strnCmp, List.cons_prefix_cons, Ne.symm same]

theorem test_iff (mem : Str16) (c : Command) : c.test mem = true ↔
    match c.compare with
    | .whole => strAt mem 0 = c.name
    | .start => c.name <+: strAt mem 0 := by
  have clean : 0 ∉ c.name := by cases c <;> decide
  unfold Command.test
  cases c.compare with
  | whole => simpa using strCmp_eq_zero_iff clean
  | start => simpa using strnCmp_eq_zero_iff clean

/-! ## The table -/

theorem mem_chain (c : Command) : c ∈ Command.chain := by
  cases c <;> decide

theorem name_injective {c d : Command} (same : c.name = d.name) : c = d := by
  revert same
  cases c <;> cases d <;> decide

/-- A name that is compared at the start of the line starts no other name. -/
theorem name_of_start {c d : Command} (start : c.compare = .start) (begins : c.name <+: d.name) : c = d := by
  revert start begins
  cases c <;> cases d <;> decide

theorem name_word (c : Command) : c.name ≠ [] ∧ space ∉ c.name := by
  cases c <;> decide

/-- No line passes the tests of two commands. -/
theorem test_unique {mem : Str16} {c d : Command} (hc : c.test mem = true) (hd : d.test mem = true) : c = d := by
  rw [test_iff] at hc hd
  cases kind : c.compare <;> cases kind' : d.compare <;> simp only [kind, kind'] at hc hd
  · exact name_injective (hc.symm.trans hd)
  · exact (name_of_start kind' (hc ▸ hd)).symm
  · exact name_of_start kind (hd ▸ hc)
  · obtain begins | begins := List.prefix_or_prefix_of_prefix hc hd
    · exact name_of_start kind begins
    · exact (name_of_start kind' begins).symm

/-- A search of the chain for what only one command has. -/
theorem find_chain {p : Command → Bool} (unique : ∀ {c d}, p c = true → p d = true → c = d) (c : Command) :
    Command.chain.find? p = some c ↔ p c = true := by
  refine ⟨List.find?_some, fun holds => ?_⟩
  obtain ⟨d, found⟩ := Option.isSome_iff_exists.1
    (List.find?_isSome.2 ⟨c, mem_chain c, holds⟩)
  rw [found, unique holds (List.find?_some found)]

theorem dispatch_eq_some_iff {mem : Str16} {c : Command} : dispatch mem = some c ↔ c.test mem = true :=
  find_chain test_unique c

theorem named_eq_some_iff {word : Str16} {c : Command} : named word = some c ↔ c.name = word := by
  have search := find_chain (p := fun c => decide (c.name = word))
    (fun hc hd => name_injective ((of_decide_eq_true hc).trans (of_decide_eq_true hd).symm)) c
  rw [named, search, decide_eq_true_iff]

theorem dispatch_eq_none_iff {mem : Str16} : dispatch mem = none ↔ ∀ c : Command, c.test mem = false := by
  simp [dispatch, mem_chain]

/-- What is behind the NUL chooses no command. -/
theorem dispatch_congr {mem mem' : Str16} (same : strAt mem 0 = strAt mem' 0) : dispatch mem = dispatch mem' := by
  have tests : Command.test mem = Command.test mem' := by
    funext c
    rw [Bool.eq_iff_iff, test_iff, test_iff, same]
  rw [dispatch, tests, dispatch]

/-! ## The first word -/

/-- A word that stands alone. -/
theorem firstWord_word {word : Str16} (clean : space ∉ word) : firstWord word = word := by
  have set : ∀ u ∈ word, u ≠ space := fun u mem same => clean (same ▸ mem)
  have kept : word.dropWhile (· = space) = word := by
    cases word with
    | nil => rfl
    | cons u word => exact List.dropWhile_cons_of_neg (by simpa using set u List.mem_cons_self)
  rw [firstWord, kept]
  exact List.takeWhile_eq_self_iff.2 (by simpa using set)

/-- The name of a command stands at the start of a line exactly if the line does not start with a
space, where its first word is that name. -/
theorem name_prefix_iff {line : Str16} {c : Command} (word : firstWord line = c.name) :
    c.name <+: line ↔ line.head? ≠ some space := by
  obtain ⟨long, clean⟩ := name_word c
  constructor
  · rintro ⟨rest, rfl⟩ blank
    obtain ⟨u, name, shape⟩ := List.exists_cons_of_ne_nil long
    rw [shape] at blank clean
    exact clean (Option.some.inj blank ▸ List.mem_cons_self)
  · intro first
    have kept : line.dropWhile (· = space) = line := by
      cases line with
      | nil => rfl
      | cons u line => exact List.dropWhile_cons_of_neg (by simpa using first)
    rw [← word, firstWord, kept]
    exact List.takeWhile_prefix _

/-- **A line runs the command that its first word names** exactly in these cases. -/
theorem dispatch_named_iff (mem : Str16) :
    dispatch mem = named (firstWord (strAt mem 0)) ↔ RunsAsNamed (strAt mem 0) := by
  unfold RunsAsNamed
  cases name : named (firstWord (strAt mem 0)) with
  | some c =>
    have word := named_eq_some_iff.1 name
    rw [dispatch_eq_some_iff, test_iff]
    cases kind : c.compare with
    | whole => simp [kind]
    | start => simpa [kind] using name_prefix_iff word.symm
  | none =>
    have unnamed : ∀ c : Command, firstWord (strAt mem 0) ≠ c.name := fun c same => by
      rw [named_eq_some_iff.2 same.symm] at name
      cases name
    rw [dispatch_eq_none_iff]
    constructor
    · intro none c _ kind begins
      have runs : c.test mem = true := (test_iff mem c).2 (by rw [kind]; exact begins)
      rw [none c] at runs
      cases runs
    · intro none c
      refine Bool.eq_false_iff.2 fun runs => ?_
      have runs := (test_iff mem c).1 runs
      cases kind : c.compare with
      | whole =>
        rw [kind] at runs
        exact unnamed c ((congrArg firstWord runs).trans (firstWord_word (name_word c).2))
      | start =>
        rw [kind] at runs
        exact none c (mem_chain c) kind runs

/-- `rmx a` deletes, though no command has the name `rmx`. -/
theorem rmx_runs_rm :
    let line := units ['r', 'm', 'x', ' ', 'a']
    named (firstWord (strAt line 0)) = none ∧ dispatch line = some .rm := by
  decide

end Lavoro.Console
