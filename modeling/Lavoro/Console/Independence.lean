import Lavoro.Console.Leftover

/-!
# Commands that depend on their line only

A line that is not self-contained makes its command read what an older line has left: on a file
system of one file, two leftovers of one unit are told apart by the files asked for, by what is
written to them, by the current path or by the remote address.
-/

namespace Lavoro.Console
open Lib

/-- What two runs have in common: the current path, the files, and where a connection goes. -/
structure Same {Node : Type} (st st' : ConsoleState Node) : Prop where
  szCurrentPath : st.szCurrentPath.str = st'.szCurrentPath.str
  opened : st.opened = st'.opened
  world : st.world = st'.world
  remoteAddress : st.remoteAddress = st'.remoteAddress
  remotePort : st.remotePort = st'.remotePort

theorem Agree.same {Node : Type} {st st' : ConsoleState Node} (h : Agree st st') : Same st st' := by
  obtain ⟨base, line, rest, rest', -, rfl, rfl⟩ := h
  exact ⟨rfl, rfl, rfl, rfl, rfl⟩

/-- The command of the line does the same whatever the units behind its NUL are, up to the end of
`szLine`; behind it stands `behind`. -/
def Independent (line : Str16) : Prop :=
  ∀ (Node : Type) [DecidableEq Node] (env : Environment Node) (turns : Nat) (st : ConsoleState Node)
    (left left' behind : Str16), left.length = 255 - line.length → left'.length = 255 - line.length →
    Same (ConsoleState.exec env turns (st.holding (line ++ 0 :: (left ++ behind)))).1
      (ConsoleState.exec env turns (st.holding (line ++ 0 :: (left' ++ behind)))).1

/-! ## A leftover of one unit -/

/-- A file system of one file, whose calls do not fail. -/
def oneFile : Firmware Unit where
  nodeOf _ := ()
  opens _ := .granted
  reads _ := .gives 126
  writes _ := .stores
  deletes _ := true
  seeks _ := true
  heap _ _ := 0

def oneFileEnvironment : Environment Unit where
  fw := oneFile
  entries _ := []
  szBuffer := ⟨[], false⟩
  gop := true

/-- The console at its start, with the current path `\`. -/
def fresh : ConsoleState Unit where
  szLine := ⟨0, []⟩
  szPath := blank
  szCurrentPath := blank.copy [backslash]
  remoteAddress := [0, 0, 0, 0]
  remotePort := 0
  batches := []
  opened := []
  world := World.start fun _ => none

/-- A unit that a leftover may start with. -/
structure Plain (u : UInt16) : Prop where
  set : u ≠ 0
  apart : u ≠ space
  relative : u ≠ backslash

/-- A leftover that holds this unit. -/
def leftover (u : UInt16) (n : Nat) : Str16 := u :: List.replicate n 0

section Dependence

variable {u : UInt16} {n : Nat} {line : Str16}

theorem strAt_leftover (set : u ≠ 0) : strAt (leftover u n) 0 = [u] := by
  rw [strAt_zero, leftover, List.takeWhile_cons_of_pos (by simpa using set)]
  cases n <;> simp [List.replicate_succ]

theorem space_not_mem_leftover (apart : u ≠ space) : space ∉ leftover u n := by
  intro mem
  obtain same | zero := List.mem_cons.1 mem
  · exact apart same.symm
  · exact absurd (List.eq_of_mem_replicate zero) (by decide)

theorem fresh_path : fresh.szCurrentPath.str = [backslash] ∧ fresh.szCurrentPath.Terminated :=
  CString.Field.copy_sound (b := blank) (show 1 < 256 by decide)

/-- The path of an argument in the current path `\`. -/
theorem locate_fresh (szPath : PathBuffer) {arg : Str16} (clean : 0 ∉ arg) (short : arg.length < 255) :
    (locate szPath fresh.szCurrentPath arg).str = resolve [backslash] arg := by
  obtain ⟨path, ends⟩ := fresh_path
  have fits : Fits fresh.szCurrentPath.str arg := by
    rw [path, Fits, resolve]
    split
    · simp only [List.length_append, List.length_singleton]
      split <;> simp_all [maxPath]
      all_goals omega
    · exact Nat.lt_succ_of_lt short
  rw [← path]
  exact (locate_sound clean ends fits).1

/-- The path of a leftover. -/
theorem locate_unit (szPath : PathBuffer) (h : Plain u) :
    (locate szPath fresh.szCurrentPath [u]).str = [backslash, u] := by
  have clean : 0 ∉ [u] := by simpa using Ne.symm h.set
  have relative : ([u] : Str16).head? ≠ some backslash := by simpa using h.relative
  rw [locate_fresh szPath clean (by decide : 1 < 255), resolve, if_pos relative]
  rfl

/-- The state in which the line stands in front of the leftover. -/
def behindLine (line : Str16) (u : UInt16) (n : Nat) : ConsoleState Unit :=
  fresh.holding (line ++ 0 :: leftover u n)

theorem name_le_of_dispatch (clean : 0 ∉ line) {c : Command} (runs : dispatch line = some c)
    (start : c.compare = .start) : c.name.length ≤ line.length := by
  have begins := (test_iff line c).1 (dispatch_eq_some_iff.1 runs)
  rw [start, strAt_clean clean, List.drop_zero] at begins
  exact begins.length_le

/-- A bare command finds its argument in the leftover. -/
theorem bare_path (h : Plain u) {i : Nat} (bare : i = line.length + 1) (n : Nat) :
    ((behindLine line u n).locateAt i).szPath.str = [backslash, u] := by
  have arg : strAt (line ++ 0 :: leftover u n) i = [u] := by rw [bare, strAt_behind, strAt_leftover h.set]
  show (locate blank fresh.szCurrentPath (strAt (line ++ 0 :: leftover u n) i)).str = _
  rw [arg, locate_unit blank h]

theorem bare_asks (h : Plain u) {i : Nat} (bare : i = line.length + 1) (n : Nat) (mode : OpenMode) :
    (((behindLine line u n).locateAt i).asks ((behindLine line u n).locateAt i).szPath.str mode).opened =
      [([backslash, u], mode)] := by
  rw [bare_path h bare]
  rfl

theorem bare_cd (h : Plain u) (bare : 3 = line.length + 1) (n : Nat) :
    (behindLine line u n).cd.szCurrentPath.str = [backslash, u] := by
  have path := bare_path h bare n
  have room : (CString.text 0 ((behindLine line u n).locateAt 3).szPath.units).length < maxPath := by
    show ((behindLine line u n).locateAt 3).szPath.str.length < maxPath
    rw [path]
    exact (by decide : 2 < 256)
  exact (CString.Field.copy_sound room).1.trans path

/-- Without a space there is nothing to cut, in the line or behind it. -/
theorem cutFrom_leftover {cut : Str16 → Str16} (cuts : Cuts cut) (h : Plain u) {i : Nat}
    (one : space ∉ line.drop i) (n : Nat) :
    cutFrom cut i (line ++ 0 :: leftover u n) = line ++ 0 :: leftover u n := by
  apply cutFrom_uncut cuts
  rw [List.drop_append, List.mem_append, not_or]
  refine ⟨one, fun mem => ?_⟩
  obtain zero | behind := List.mem_cons.1 (List.mem_of_mem_drop mem)
  · exact absurd zero (by decide)
  · exact space_not_mem_leftover h.apart behind

/-- The second argument is then the leftover. -/
theorem second_argument (clean : 0 ∉ line) (set : u ≠ 0) (n : Nat) :
    strAt (line ++ 0 :: leftover u n) (strLen (line ++ 0 :: leftover u n) + 1) = [u] := by
  rw [strLen, strAt_line clean, strAt_behind, strAt_leftover set]

theorem single_copy {cut : Str16 → Str16} (cuts : Cuts cut) (clean : 0 ∉ line) (h : Plain u)
    (one : space ∉ line.drop 3) (n turns : Nat) (mode : OpenMode)
    (last : LFile Unit × World Unit → LFile Unit × World Unit) :
    ∃ src, ((behindLine line u n).copyFiles oneFile turns cut mode last).1.opened =
      [(src, mode), ([backslash, u], .createFile)] := by
  have uncut := cutFrom_leftover cuts h one n
  have second := second_argument clean h.set n
  refine ⟨((behindLine line u n).locateAt 3).szPath.str, ?_⟩
  rw [ConsoleState.copyFiles, ConsoleState.finish_opened]
  simp only [behindLine, ConsoleState.holding, ConsoleState.locateAt, ConsoleState.asks, uncut, second,
    locate_unit _ h]
  rfl

/-- `addline` to a file that is not there yet. -/
theorem addline_oneFile {path : Str16} (named : path ≠ []) (u : UInt16) :
    (addline oneFile 1 path [u] (World.start fun _ => none)).state.file () = some [u.toUInt8, 13, 10] := by
  have same : ∀ w, LFile.construct oneFile path true w = LFile.construct oneFile [backslash] true w := fun w => by
    rw [construct_eq named, construct_eq (List.cons_ne_nil _ _)]
    rfl
  rw [addline, same]
  rfl

theorem addText_path (clean : 0 ∉ line) (h : Plain u) (name : 7 ≤ line.length) (short : line.length < 255)
    (n : Nat) : (locate blank fresh.szCurrentPath (strAt (line ++ 0 :: leftover u n) 8)).str ≠ [] := by
  by_cases inside : 8 ≤ line.length
  · have arg : strAt (line ++ 0 :: leftover u n) 8 = line.drop 8 := by
      rw [strAt_append inside, strAt_clean clean]
    rw [arg, locate_fresh blank (fun mem => clean (List.mem_of_mem_drop mem)) (by rw [List.length_drop]; omega)]
    exact resolve_ne_nil _ _
  · rw [show 8 = line.length + 1 by omega, strAt_behind, strAt_leftover h.set, locate_unit blank h]
    exact List.cons_ne_nil _ _

theorem single_addText (clean : 0 ∉ line) (h : Plain u) (one : space ∉ line.drop 8) (name : 7 ≤ line.length)
    (short : line.length < 255) (n : Nat) :
    ((behindLine line u n).addText oneFile 1).1.world.file () = some [u.toUInt8, 13, 10] := by
  have uncut := cutFrom_leftover cutFirst_cuts h one n
  have second := second_argument clean h.set n
  rw [ConsoleState.addText, ConsoleState.finish_world]
  simp only [behindLine, ConsoleState.holding, ConsoleState.locateAt, uncut, second]
  exact addline_oneFile (addText_path clean h name short n) u

/-! ## The numbers of `connect` -/

theorem numbers_leftover (line : Str16) (few : gaps (line.drop 8) < 4)
    (name : 7 ≤ line.length) : ∃ front m, ∀ rest, numbers 4 ((line ++ 0 :: rest).drop 8) =
      (front ++ (numbers m rest).1, (numbers m rest).2) := by
  by_cases inside : 8 ≤ line.length
  · obtain ⟨front, same⟩ := numbers_behind few
    exact ⟨front, _, fun rest => by rw [List.drop_append_of_le_length inside, same]⟩
  · refine ⟨[], 4, fun rest => ?_⟩
    have bare : 8 = line.length + 1 := by omega
    rw [bare, ← List.drop_drop, List.drop_left, List.drop_succ_cons, List.drop_zero]
    rfl

/-- Two leftovers that are different numbers. -/
theorem numbers_differ (m n : Nat) :
    (numbers m (leftover 49 n)).1 ≠ (numbers m (leftover 50 n)).1 ∨
      port 0 (numbers m (leftover 49 n)).2 ≠ port 0 (numbers m (leftover 50 n)).2 := by
  have one : (number (leftover 49 n)).1 = 1 := by cases n <;> rfl
  have two : (number (leftover 50 n)).1 = 2 := by cases n <;> rfl
  cases m with
  | zero =>
    refine .inr ?_
    simp only [numbers, port, one, two]
    exact (by decide : UInt16.ofNat 1 ≠ UInt16.ofNat 2)
  | succ m =>
    refine .inl ?_
    simp only [numbers, one, two]
    intro same
    exact absurd (List.cons.inj same).1 (by decide)

end Dependence

/-! ## The condition is exact -/

theorem behindLine_dispatch (line : Str16) (u : UInt16) (n : Nat) :
    dispatch (behindLine line u n).szLine.units = dispatch line :=
  dispatch_congr (strAt_append (Nat.zero_le _) _)

theorem plain_one : Plain 49 := ⟨by decide, by decide, by decide⟩

theorem plain_two : Plain 50 := ⟨by decide, by decide, by decide⟩

section Apart

variable {line : Str16} {n : Nat}

/-- The files asked for by a bare command tell two leftovers apart. -/
theorem bare_apart {i : Nat} (bare : i = line.length + 1) (n : Nat) (mode : OpenMode) :
    (((behindLine line 49 n).locateAt i).asks ((behindLine line 49 n).locateAt i).szPath.str mode).opened ≠
      (((behindLine line 50 n).locateAt i).asks ((behindLine line 50 n).locateAt i).szPath.str mode).opened := by
  rw [bare_asks plain_one bare, bare_asks plain_two bare]
  cases mode <;> decide

theorem cd_apart (bare : 3 = line.length + 1) (n : Nat) :
    (behindLine line 49 n).cd.szCurrentPath.str ≠ (behindLine line 50 n).cd.szCurrentPath.str := by
  rw [bare_cd plain_one bare, bare_cd plain_two bare]
  decide

/-- So do those of a copy with one argument. -/
theorem copy_apart {cut : Str16 → Str16} (cuts : Cuts cut) (clean : 0 ∉ line) (one : space ∉ line.drop 3)
    (n turns : Nat) (mode : OpenMode) (last : LFile Unit × World Unit → LFile Unit × World Unit) :
    ((behindLine line 49 n).copyFiles oneFile turns cut mode last).1.opened ≠
      ((behindLine line 50 n).copyFiles oneFile turns cut mode last).1.opened := by
  obtain ⟨src, first⟩ := single_copy cuts clean plain_one one n turns mode last
  obtain ⟨src', second⟩ := single_copy cuts clean plain_two one n turns mode last
  rw [first, second]
  simp

/-- What `addline` without a text writes does. -/
theorem addText_apart (clean : 0 ∉ line) (one : space ∉ line.drop 8) (name : 7 ≤ line.length)
    (short : line.length < 255) (n : Nat) :
    ((behindLine line 49 n).addText oneFile 1).1.world ≠ ((behindLine line 50 n).addText oneFile 1).1.world := by
  intro same
  have file := congrFun (congrArg World.file same) ()
  rw [single_addText clean plain_one one name short n, single_addText clean plain_two one name short n] at file
  exact absurd file (by decide)

/-- The address or the port of a `connect` with too few numbers does. -/
theorem connect_apart (few : gaps (line.drop 8) < 4) (name : 7 ≤ line.length) (n : Nat) :
    (behindLine line 49 n).connect.remoteAddress ≠ (behindLine line 50 n).connect.remoteAddress ∨
      (behindLine line 49 n).connect.remotePort ≠ (behindLine line 50 n).connect.remotePort := by
  obtain ⟨front, m, read⟩ := numbers_leftover line few name
  simp only [ConsoleState.connect, behindLine, ConsoleState.holding, read]
  obtain address | remotePort := numbers_differ m n
  · exact .inl fun same => address (List.append_cancel_left same)
  · exact .inr remotePort

/-- A line that is not self-contained tells two leftovers apart. -/
theorem leftover_matters (clean : 0 ∉ line) (short : line.length < 255) (reads : ¬ SelfContained line) (n : Nat) :
    ¬ Same (ConsoleState.exec oneFileEnvironment 1 (behindLine line 49 n)).1
      (ConsoleState.exec oneFileEnvironment 1 (behindLine line 50 n)).1 := by
  intro same
  unfold SelfContained at reads
  have opened := same.opened
  unfold ConsoleState.exec at same opened
  simp only [behindLine_dispatch] at same opened
  cases command : dispatch line with
  | none => simp [command] at reads
  | some c =>
    have name := @name_le_of_dispatch line clean c command
    simp only [command] at reads same opened
    cases c with
    | box => exact reads trivial
    | pyramids => exact reads trivial
    | antTSP => exact reads trivial
    | ls => exact reads trivial
    | cwd => exact reads trivial
    | accept => exact reads trivial
    | filldemo => exact reads trivial
    | printmodes => exact reads trivial
    | quit => exact reads trivial
    | end_ => exact reads trivial
    | cd =>
      have name : 2 ≤ line.length := name rfl
      exact cd_apart (by omega) n same.szCurrentPath
    | cat =>
      have name : 3 ≤ line.length := name rfl
      rw [ConsoleState.finish_opened, ConsoleState.finish_opened] at opened
      exact bare_apart (by omega) n .read opened
    | connect =>
      obtain address | remotePort := connect_apart (Nat.lt_of_not_le reads) (name rfl) n
      · exact address same.remoteAddress
      · exact remotePort same.remotePort
    | rm =>
      have name : 2 ≤ line.length := name rfl
      rw [ConsoleState.finish_opened, ConsoleState.finish_opened] at opened
      exact bare_apart (by omega) n .readWrite opened
    | cp => exact copy_apart cutFirst_cuts clean reads n 1 _ _ opened
    | mv => exact copy_apart cutAll_cuts clean reads n 1 _ _ opened
    | addline => exact addText_apart clean reads (name rfl) short n same.world
    | mkdir =>
      have name : 5 ≤ line.length := name rfl
      rw [ConsoleState.finish_opened, ConsoleState.finish_opened] at opened
      exact bare_apart (by omega) n .createDirectory opened
    | batch =>
      have name : 5 ≤ line.length := name rfl
      exact bare_apart (by omega) n .read opened

end Apart

theorem not_independent {line : Str16} (clean : 0 ∉ line) (short : line.length < 255)
    (reads : ¬ SelfContained line) : ¬ Independent line := by
  intro independent
  have length : ∀ u, (leftover u (254 - line.length)).length = 255 - line.length := by
    intro u
    rw [leftover, List.length_cons, List.length_replicate]
    omega
  have same := independent Unit oneFileEnvironment 1 fresh _ _ [] (length 49) (length 50)
  rw [List.append_nil, List.append_nil] at same
  exact leftover_matters clean short reads _ same

/-- **Commands depend on their line only** exactly if it holds all their arguments, or fills
`szLine`; and two runs that start at the line and go on over lines that hold their arguments,
those of a batch included, end alike. -/
theorem commands_depend_on_their_line (line : Str16) (clean : 0 ∉ line) :
    (Independent line ↔ SelfContained line ∨ 255 ≤ line.length) ∧
      ∀ (Node : Type) [DecidableEq Node] (env : Environment Node) (turns : Nat) (typed : List Str16)
        (st : ConsoleState Node) (rest rest' : Str16),
        ConsoleState.SelfContainedRun env turns typed (st.holding (line ++ 0 :: rest)) →
        Same (ConsoleState.run env turns typed (st.holding (line ++ 0 :: rest))).1
          (ConsoleState.run env turns typed (st.holding (line ++ 0 :: rest'))).1 := by
  refine ⟨⟨fun independent => ?_, fun condition => ?_⟩, ?_⟩
  · by_cases self : SelfContained line
    · exact .inl self
    · refine .inr (Nat.le_of_not_lt fun short => ?_)
      exact not_independent clean short self independent
  · intro Node _ env turns st left left' behind length length'
    obtain self | full := condition
    · exact (ConsoleState.exec_agrees self _ _).1.same
    · obtain rfl : left = [] := List.eq_nil_of_length_eq_zero (by omega)
      obtain rfl : left' = [] := List.eq_nil_of_length_eq_zero (by omega)
      exact ⟨rfl, rfl, rfl, rfl, rfl⟩
  · intro Node _ env turns typed st rest rest' self
    exact (ConsoleState.run_agrees typed ⟨st, line, rest, rest', clean, rfl, rfl⟩ self).1.same

/-- `rm a` does the same whatever stands behind it. -/
theorem rm_argument_independent : Independent (units ['r', 'm', ' ', 'a']) :=
  (commands_depend_on_their_line _ (by decide)).1.2 (.inl (show 3 ≤ 4 by decide))

/-- `rm` alone does not. -/
theorem rm_reads_leftover : ¬ Independent (units ['r', 'm']) :=
  not_independent (by decide) (by decide) (show ¬ 3 ≤ 2 by decide)

end Lavoro.Console
