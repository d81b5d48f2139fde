import Lavoro.Console.Arguments
import Lavoro.Console.Independence
import Lavoro.Console.Turns
import Lavoro.File.ReadLine

/-!
# The lines that a batch file runs (`ConsoleMode`)

`ConsoleMode(BatchFileName)` takes a line off its file at the head of its loop, and the line goes to
the dispatch chain. As long as every command returns and the file still holds what it held, these are
the lines of the file up to its first `quit` or `end`, whatever the commands do to the line, to the
paths and to other files: the reader and the handle are the call's own. A file that a command of its
own changes is read as far as the reader had got, and then as it is by then. The lines are taken to fit
`szLine`; for one that is longer `ReadLine` writes behind it, and a `LineBuffer` has no such end.
-/

namespace Lavoro.Console
open Lib

variable {Node : Type} [DecidableEq Node]

/-- The lines up to the first `quit` or `end`, and that one. -/
def upToStop : List Str16 → List Str16
  | [] => []
  | line :: more =>
    if dispatch line = some .quit ∨ dispatch line = some .end_ then [line] else line :: upToStop more

theorem upToStop_stop {line : Str16} (stop : dispatch line = some .quit ∨ dispatch line = some .end_)
    (more : List Str16) : upToStop (line :: more) = [line] := if_pos stop

theorem upToStop_line {line : Str16} (other : ¬ (dispatch line = some .quit ∨ dispatch line = some .end_))
    (more : List Str16) : upToStop (line :: more) = line :: upToStop more := if_neg other

/-- The line stands in `szLine`, with its NUL, inside the array. -/
def Shows (line : Str16) (d : Dispatched) : Prop := line.length < maxPath ∧ (line ++ [0]) <+: d.szLine

instance (line : Str16) (d : Dispatched) : Decidable (Shows line d) :=
  inferInstanceAs (Decidable (_ ∧ _))

/-- The call returns, and the lines that it has dispatched itself are those of the content, each once
and in their order, up to the first `quit` or `end`. -/
def RunsLines (env : Environment Node) (content : List UInt8) (x : ConsoleRun Node) : Prop :=
  ∃ turns y result new, x.session env turns = (y, some result) ∧ y.dispatched = x.dispatched ++ new ∧
    List.Forall₂ Shows (upToStop (fileLines content)) (new.filter fun d => d.depth = x.depth)

/-- Whenever the call comes to read a line, the file holds the content, and the reads succeed. -/
structure Undisturbed (env : Environment Node) (n : Node) (content : List UInt8) (x : ConsoleRun Node) :
    Prop where
  holds : ∀ y, ConsoleRun.Reached env x y → y.state.world.file n = some content
  reads : ∀ y turns, ConsoleRun.Reached env x y →
    Fine env.fw y.state.world (y.state.readNext env.fw turns []).1.world

namespace ConsoleRun

/-- The innermost open file is `n`, which holds `c`, and `l` is still to be read. -/
def Feeds (fw : Firmware Node) (n : Node) (c l : List UInt8) (x : ConsoleRun Node) : Prop :=
  ∃ batch outer, x.state.batches = batch :: outer ∧ Ahead fw.calm n c l (batch, x.state.world)

/-- The call of `x` at the head of its loop, with `l` still to be read. -/
structure AtHead (env : Environment Node) (x : ConsoleRun Node) (n : Node) (c l : List UInt8)
    (y : ConsoleRun Node) : Prop where
  reached : Reached env x y
  depth : y.depth = x.depth
  feeds : Feeds env.fw n c l y
  before : y.state.szLine.before ≠ 13
  some' : l ≠ []

section Lines

variable {env : Environment Node} {n : Node} {c l : List UInt8} {x y z : ConsoleRun Node}

omit [DecidableEq Node] in
theorem Feeds.atBatchEnd {fw : Firmware Node} (h : Feeds fw n c l x) : x.state.atBatchEnd = true ↔ l = [] := by
  obtain ⟨batch, outer, top, ahead⟩ := h
  rw [ConsoleState.atBatchEnd, top]
  exact ahead.atEnd

/-- **A line is read.** -/
theorem AtHead.read (h : AtHead env x n c l y) (calm : Undisturbed env n c x) :
    ∃ turns z, y.read env.fw turns = some z ∧
      (lineText (firstLine l) ++ [0]) <+: z.state.szLine.units ∧ Feeds env.fw n c (restOf l) z := by
  obtain ⟨batch, outer, top, ahead⟩ := h.feeds
  obtain ⟨turns, s', left, ahead'⟩ := readLine_ahead ahead
  have fine := calm.reads y turns h.reached
  have same : LFile.readLine env.fw turns (batch, y.state.world) =
      LFile.readLine env.fw.calm turns (batch, y.state.world) := by
    apply LFile.readLine_calm
    unfold ConsoleState.readNext at fine
    rw [top] at fine
    simp only at fine
    split at fine
    · rename_i s again
      rw [again]
      exact fine
    · rename_i s left
      rw [left]
      exact fine
  rw [left] at same
  have line : (y.state.readNext env.fw turns []) =
      ({ y.state with
        szLine := y.state.szLine.put (lineText (firstLine l))
        batches := s'.1 :: outer
        world := s'.2 }, .next) := by
    rw [ConsoleState.readNext, top]
    simp only [same, LineBuffer.readInto_text h.before]
  refine ⟨turns, { y with state := (y.state.readNext env.fw turns []).1 }, ?_, ?_, s'.1, outer, ?_, ?_⟩
  · rw [ConsoleRun.read, top]
    simp only [line]
  · rw [line]
    exact ⟨_, List.append_assoc _ _ _⟩
  · rw [line]
  · rw [line]
    exact ahead'

/-- The dispatch chain sees the line. -/
theorem dispatch_shown {line mem : Str16} (shown : (line ++ [0]) <+: mem) : dispatch mem = dispatch line := by
  obtain ⟨rest, rfl⟩ := shown
  rw [List.append_assoc]
  exact dispatch_congr (strAt_append (Nat.zero_le _) rest)

omit [DecidableEq Node] in
/-- The line of a file ends its session exactly if it is `quit` or `end`. -/
theorem works_shown {line : Str16} (shown : (line ++ [0]) <+: z.state.szLine.units) :
    Works z ↔ ¬ (dispatch line = some .quit ∨ dispatch line = some .end_) := by
  rw [Works, dispatch_shown shown, not_or]

/-- The head of the loop behind a round that goes on. -/
theorem AtHead.next {u : ConsoleRun Node} {new : List Dispatched} (h : AtHead env x n c l y)
    (calm : Undisturbed env n c x) (first : LineRead y z) (feeds : Feeds env.fw n c (restOf l) z)
    (round : Round env z (u, .goesOn) new) (rounds : Rounds env y u) : AtHead env x n c (restOf l) u := by
  obtain ⟨batches, -, more, -⟩ := round.goesOn rfl
  have reached : Reached env x u := h.reached.tail rounds
  have level := first.depth.trans h.depth
  refine ⟨reached, (congrArg List.length batches).trans level, ?_, ?_, ?_⟩
  · obtain ⟨batch, outer, top, ahead⟩ := feeds
    refine ⟨batch, outer, batches.trans top, ahead.moved ?_⟩
    rw [World.content, calm.holds u reached]
    rfl
  · rw [first.before.trans round.before h.before]
    exact h.before
  · intro none'
    rw [feeds.atBatchEnd.2 none'] at more
    cases more

/-- **A round** dispatches the line at the head; the call returns behind a `quit` or an `end`, and
behind the last line. -/
theorem AtHead.round (h : AtHead env x n c l y) (calm : Undisturbed env n c x) (returns : CommandsReturn env x)
    (gop : env.gop = true) :
    ∃ turns z u outcome inner, y.read env.fw turns = some z ∧
      z.command env turns (session env turns) = (u, outcome) ∧
      u.dispatched = y.dispatched ++ ⟨x.depth, z.state.szLine.units⟩ :: inner ∧
      (∀ d ∈ inner, x.depth < d.depth) ∧ (lineText (firstLine l) ++ [0]) <+: z.state.szLine.units ∧
      (outcome = .goesOn ∧ Works z ∧ AtHead env x n c (restOf l) u ∨
        ∃ b, outcome = .returned b ∧ (¬ Works z ∨ Works z ∧ restOf l = [])) := by
  obtain ⟨turns, z, line, shown, feeds⟩ := h.read calm
  obtain ⟨turns', ended⟩ := returns y turns z h.reached line
  have line := read_more (Nat.le_max_left turns turns') line
  have same := command_session_more (Nat.le_max_right turns turns') ended
  rw [← same] at ended
  generalize max turns turns' = turns at line ended
  obtain ⟨new, round⟩ := command_session_round env turns z
  have first := read_lineRead line
  have level := first.depth.trans h.depth
  cases ran : z.command env turns (session env turns) with
  | mk u outcome =>
    rw [ran] at round ended
    obtain ⟨inner, rfl, deeper⟩ := round.line
    have logged := round.dispatched
    rw [first.dispatched, level] at logged
    rw [level] at deeper
    refine ⟨turns, z, u, outcome, inner, line, ran, logged, deeper, shown, ?_⟩
    cases outcome with
    | goesOn => exact .inl ⟨rfl, (round.goesOn rfl).2.1, h.next calm first feeds round ⟨turns, z, line, ran⟩⟩
    | returned b =>
      obtain ⟨-, why, -⟩ := round.returned b rfl
      refine .inr ⟨b, rfl, ?_⟩
      rcases why with (quit | end_ | off) | ⟨works, last⟩
      · exact .inl fun works => works.1 quit
      · exact .inl fun works => works.2 end_
      · rw [gop] at off
        cases off
      · exact .inr ⟨works, feeds.atBatchEnd.1 last⟩
    | unfinished => exact absurd rfl ended

omit [DecidableEq Node] in
/-- Of the lines of a round only the first is of the call itself. -/
theorem own_lines (units : Str16) {inner : List Dispatched} (deeper : ∀ d ∈ inner, x.depth < d.depth)
    (rest : List Dispatched) :
    (⟨x.depth, units⟩ :: inner ++ rest).filter (fun d => d.depth = x.depth) =
      ⟨x.depth, units⟩ :: rest.filter fun d => d.depth = x.depth := by
  have none' : inner.filter (fun d => d.depth = x.depth) = [] :=
    List.filter_eq_nil_iff.2 fun d mem => by simpa using Nat.ne_of_gt (deeper d mem)
  simp [none']

/-- **A call at its head** runs the lines that are left. -/
theorem AtHead.runs (calm : Undisturbed env n c x) (returns : CommandsReturn env x) (gop : env.gop = true)
    (short : ∀ line ∈ fileLines l, line.length < maxPath) (h : AtHead env x n c l y) :
    ∃ turns u result new, y.session env turns = (u, some result) ∧ u.dispatched = y.dispatched ++ new ∧
      List.Forall₂ Shows (upToStop (fileLines l)) (new.filter fun d => d.depth = x.depth) := by
  induction lines : linesOf l generalizing l y with
  | nil =>
    rw [linesOf_cons h.some'] at lines
    cases lines
  | cons line more ih =>
    rw [linesOf_cons h.some'] at lines
    obtain ⟨rfl, behind⟩ := List.cons.inj lines
    have head : fileLines l = lineText (firstLine l) :: fileLines (restOf l) := by
      rw [fileLines, linesOf_cons h.some']
      rfl
    rw [head] at short ⊢
    obtain ⟨turns, z, u, outcome, inner, line, ran, logged, deeper, shown, next⟩ := h.round calm returns gop
    have shows : Shows (lineText (firstLine l)) ⟨x.depth, z.state.szLine.units⟩ :=
      ⟨short _ List.mem_cons_self, shown⟩
    have works := works_shown shown
    rcases next with ⟨rfl, goes, at'⟩ | ⟨b, rfl, why⟩
    · obtain ⟨turns', v, result, new, later, log, rest⟩ :=
        ih (fun line mem => short line (List.mem_cons_of_mem _ mem)) at' behind
      obtain ⟨turns', session⟩ := session_of_goesOn line ran later
      refine ⟨turns', v, result, ⟨x.depth, z.state.szLine.units⟩ :: inner ++ new, session, ?_, ?_⟩
      · rw [log, logged, List.append_assoc]
      · rw [own_lines _ deeper, upToStop_line (works.1 goes)]
        exact .cons shows rest
    · refine ⟨turns + 1, u, b, _, session_of_returned line ran, logged, ?_⟩
      have alone := own_lines z.state.szLine.units deeper []
      rw [List.append_nil] at alone
      rw [alone]
      rcases why with stop | ⟨goes, last⟩
      · rw [upToStop_stop (Classical.not_not.1 (mt works.2 stop))]
        exact .cons shows .nil
      · rw [upToStop_line (works.1 goes), last]
        exact .cons shows .nil

end Lines

end ConsoleRun

/-- **A batch file runs its lines**, which are short enough for `szLine`. -/
theorem batch_faithful (env : Environment Node) (batchFileName : Str16) (st : ConsoleState Node)
    (log : List Dispatched) (typed : List Str16) {content : List UInt8} (named : batchFileName ≠ [])
    (granted : env.fw.opens st.world.opens = .granted)
    (there : st.world.file (env.fw.nodeOf batchFileName) = some content) (some' : content ≠ [])
    (short : ∀ line ∈ fileLines content, line.length ≤ 255) (before : st.szLine.before ≠ 13)
    (gop : env.gop = true)
    (returns : ConsoleRun.CommandsReturn env ⟨log, typed, st.openBatch env.fw batchFileName⟩)
    (calm : Undisturbed env (env.fw.nodeOf batchFileName) content
      ⟨log, typed, st.openBatch env.fw batchFileName⟩) :
    RunsLines env content ⟨log, typed, st.openBatch env.fw batchFileName⟩ := by
  have opened := openFile_present batchFileName false granted there
  have holds : HoldsFile env.fw.calm (env.fw.nodeOf batchFileName) content
      (some ⟨env.fw.nodeOf batchFileName, 0⟩, { st.world with opens := st.world.opens + 1 }) content := by
    apply holdsFile_at (p := 0) (calm_reads env.fw) ?_ (Nat.zero_le _)
    exact congrArg (Option.getD · []) there
  have head : ConsoleRun.AtHead env ⟨log, typed, st.openBatch env.fw batchFileName⟩
      (env.fw.nodeOf batchFileName) content content ⟨log, typed, st.openBatch env.fw batchFileName⟩ := by
    refine ⟨.refl, rfl, ?_, before, some'⟩
    refine ⟨_, _, rfl, .fresh (env.fw.heap st.world.opens) ?_ ?_ some'⟩
    · rw [construct_eq named]
    · simp only [ConsoleState.openBatch, construct_eq named, opened]
      exact holds
  exact head.runs calm returns gop fun line mem => Nat.lt_succ_of_le (short line mem)

/-- Reads that hand out at most seven bytes. -/
def choppedEnvironment : Environment Unit :=
  { oneFileEnvironment with fw := { oneFile with reads := fun _ => .gives 6 } }

/-- The console, where the file of every path holds this. -/
def beside (content : List UInt8) : ConsoleState Unit :=
  { fresh with world := World.start fun _ => some content }

/-- `cwd`, a carriage return, and `end` behind it. -/
def cwdEnd : List UInt8 := [99, 119, 100, 13, 10, 101, 110, 100]

/-- `rm \a` and `ls`. -/
def rmLs : List UInt8 := [114, 109, 32, 92, 97, 10, 108, 115]

/-- The call of `ConsoleMode` on the file `\a` with this content. -/
def callOn (content : List UInt8) : ConsoleRun Unit :=
  ⟨[], [], (beside content).openBatch choppedEnvironment.fw [92, 97]⟩

theorem cwd_end_runs : RunsLines choppedEnvironment cwdEnd (callOn cwdEnd) := by
  have heads : ∀ y, ConsoleRun.Reached choppedEnvironment (callOn cwdEnd) y →
      y.state.world.file () = some cwdEnd := by
    intro y reached
    rcases reached.after_round (n := 12) rfl (by decide) with rfl | ⟨u, on, reached⟩
    · rfl
    · cases on
      rcases reached.after_round (n := 12) rfl (by decide) with rfl | ⟨u, on, -⟩
      · rfl
      · cases on
  exact batch_faithful choppedEnvironment [92, 97] (beside cwdEnd) [] [] (by decide) rfl rfl (by decide)
    (by decide) (by decide) rfl (ConsoleRun.commandsReturn_of_returned (n := 12) (by decide))
    ⟨heads, fun y turns _ i _ _ fails => by cases fails⟩

/-- A batch file that removes itself: its second line is cut off where the reader had got. -/
theorem removed_batch_is_cut :
    choppedEnvironment.fw.opens (beside rmLs).world.opens = .granted ∧
      (beside rmLs).world.file (choppedEnvironment.fw.nodeOf [92, 97]) = some rmLs ∧
      fileLines rmLs = [[114, 109, 32, 92, 97], [108, 115]] ∧ (beside rmLs).szLine.before ≠ 13 ∧
      choppedEnvironment.gop = true ∧ ConsoleRun.CommandsReturn choppedEnvironment (callOn rmLs) ∧
      ((callOn rmLs).session choppedEnvironment 12).1.dispatched.map (fun d => strAt d.szLine 0) =
        [[114, 109, 32, 92, 97], [108]] ∧
      ¬ RunsLines choppedEnvironment rmLs (callOn rmLs) := by
  refine ⟨rfl, rfl, by decide, by decide, rfl,
    ConsoleRun.commandsReturn_of_returned (n := 12) (by decide), by decide, ?_⟩
  rintro ⟨turns, y, result, new, returned, log, lines⟩
  have same : (callOn rmLs).session choppedEnvironment 12 = (y, some result) := by
    rw [← returned]
    apply ConsoleRun.session_unique (by decide)
    rw [returned]
    exact Option.some_ne_none result
  have whole : new = ((callOn rmLs).session choppedEnvironment 12).1.dispatched := by
    rw [same, log]
    rfl
  rw [whole] at lines
  exact absurd lines (by decide)

end Lavoro.Console
