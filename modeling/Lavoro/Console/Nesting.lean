import Mathlib.Data.List.Chain
import Lavoro.Console.Handles

/-!
# Batches inside batches (`ConsoleMode`, `efi_main`)

A `batch` command calls `ConsoleMode` on its file, and what that call returns is not looked at. Here
the calls are followed with their results: `dispatched` are the lines met so far, each with the
number of batch files that were open. The typed lines are given in advance, and a run may be
watched after any number of turns. Lines that are read off a file are taken to fit `szLine`.
-/

namespace Lavoro.Console
open Lib

variable {Node : Type} [DecidableEq Node]

/-- A line at the head of the dispatch chain. -/
structure Dispatched where
  depth : Nat
  szLine : Str16
  deriving Repr, DecidableEq

/-- The line takes the branch of this command. -/
def Dispatched.Runs (c : Command) (d : Dispatched) : Prop := dispatch d.szLine = some c

instance (c : Command) (d : Dispatched) : Decidable (d.Runs c) := inferInstanceAs (Decidable (_ = _))

/-- A run of the console; `typed` are the lines still to be typed. -/
structure ConsoleRun (Node : Type) where
  dispatched : List Dispatched
  typed : List Str16
  state : ConsoleState Node

/-- What becomes of `ConsoleMode` in a round. -/
inductive Outcome where
  | goesOn
  | returned (result : Bool)
  | unfinished
  deriving Repr, DecidableEq

namespace ConsoleState

/-- `new LFile(BatchFileName, NULL, EFI_FILE_MODE_READ, EFI_FILE_VALID_ATTR)`. -/
def openBatch (fw : Firmware Node) (batchFileName : Str16) (st : ConsoleState Node) : ConsoleState Node :=
  let file := LFile.construct fw batchFileName false st.world
  { st.asks batchFileName .read with batches := file.1 :: st.batches, world := file.2 }

/-- `delete Batch`, where there is one. -/
def close (st : ConsoleState Node) : ConsoleState Node := { st with batches := st.batches.tail }

/-- `Batch && Batch->Reader.AtEnd()`. -/
def atBatchEnd (st : ConsoleState Node) : Bool :=
  match st.batches with
  | [] => false
  | batch :: _ => Reader.atEnd batch.reader

end ConsoleState

namespace ConsoleRun

/-- The next line is read into `szLine`; `none` where it is not there yet. -/
def read (fw : Firmware Node) (turns : Nat) (x : ConsoleRun Node) : Option (ConsoleRun Node) :=
  match x.state.batches, x.typed with
  | [], [] => none
  | [], line :: typed => some { x with typed, state := (x.state.readNext fw turns line).1 }
  | _ :: _, _ =>
    match x.state.readNext fw turns [] with
    | (state, .next) => some { x with state }
    | _ => none

/-- The line in `szLine` comes to the dispatch chain. -/
def noted (x : ConsoleRun Node) : ConsoleRun Node :=
  { x with dispatched := x.dispatched ++ [⟨x.state.batches.length, x.state.szLine.units⟩] }

/-- The end of the body of `while (true)`. -/
def roundEnd (x : ConsoleRun Node) : ConsoleRun Node × Outcome :=
  if x.state.atBatchEnd then ({ x with state := x.state.close }, .returned true) else (x, .goesOn)

/-- The command in `szLine`; `nested` is `ConsoleMode` on the file of a `batch` command. Only `quit`
returns `false`: what `filldemo` and `printmodes` return is an error, which is not 0. -/
def command (env : Environment Node) (turns : Nat)
    (nested : ConsoleRun Node → ConsoleRun Node × Option Bool) (x : ConsoleRun Node) :
    ConsoleRun Node × Outcome :=
  match ConsoleState.exec env turns x.state with
  | (state, .unfinished) => ({ x.noted with state }, .unfinished)
  | (state, .leave) =>
    ({ x.noted with state := state.close }, .returned (dispatch x.state.szLine.units ≠ some .quit))
  | (state, .next) => ({ x.noted with state } : ConsoleRun Node).roundEnd
  | (state, .enter) =>
    match nested { x.noted with state } with
    | (y, none) => (y, .unfinished)
    | (y, some _) => y.roundEnd

/-- `ConsoleMode` from the head of its loop on: what it returns, if it has returned. -/
def session (env : Environment Node) : Nat → ConsoleRun Node → ConsoleRun Node × Option Bool
  | 0, x => (x, none)
  | fuel + 1, x =>
    match x.read env.fw fuel with
    | none => (x, none)
    | some x =>
      match x.command env fuel (session env fuel) with
      | (x, .goesOn) => session env fuel x
      | (x, .returned result) => (x, some result)
      | (x, .unfinished) => (x, none)

end ConsoleRun

/-- What a call of `ScreenMode` returns and leaves. -/
structure ScreenRun (Node : Type) where
  result : Bool
  szCurrentPath : PathBuffer
  world : World Node

/-- Where the loop of `efi_main` stands. -/
inductive MainLoop where
  | running
  | leftByScreen
  | leftByConsole
  deriving Repr, DecidableEq

/-- A call of `ConsoleMode()`: the lines dispatched in it and in the calls below it, and what it has
returned. -/
structure ConsoleCall where
  dispatched : List Dispatched
  result : Option Bool

/-- The loop of `efi_main`, for these calls of `ScreenMode`. -/
def mainLoop (env : Environment Node) (fuel : Nat) :
    List (ScreenRun Node) → ConsoleRun Node → List ConsoleCall × MainLoop
  | [], _ => ([], .running)
  | screen :: screens, x =>
    if !screen.result then ([], .leftByScreen)
    else
      match ConsoleRun.session env fuel { x with
          dispatched := []
          state := { x.state with szCurrentPath := screen.szCurrentPath, world := screen.world } } with
      | (y, none) => ([⟨y.dispatched, none⟩], .running)
      | (y, some true) =>
        let rest := mainLoop env fuel screens y
        (⟨y.dispatched, some true⟩ :: rest.1, rest.2)
      | (y, some false) => ([⟨y.dispatched, some false⟩], .leftByConsole)

/-! ## What a command does to the open files -/

/-- What executing the command in `szLine` comes to. -/
inductive Executed (env : Environment Node) (st : ConsoleState Node) : ConsoleState Node × Control → Prop where
  | batch (runs : dispatch st.szLine.units = some .batch) :
    Executed env st ((st.locateAt 6).openBatch env.fw (st.locateAt 6).szPath.str, .enter)
  | leaves (runs : dispatch st.szLine.units = some .quit ∨ dispatch st.szLine.units = some .end_ ∨
      env.gop = false) : Executed env st (st, .leave)
  | works (st' : ConsoleState Node) (c : Control) (control : c = .next ∨ c = .unfinished)
      (other : dispatch st.szLine.units ≠ some .quit ∧ dispatch st.szLine.units ≠ some .end_)
      (batches : st'.batches = st.batches) (before : st'.szLine.before = st.szLine.before) :
    Executed env st (st', c)

section Commands

variable {env : Environment Node} {turns : Nat} {st : ConsoleState Node}

theorem finish_executed {c : Command} (runs : dispatch st.szLine.units = some c) (quit : c ≠ .quit)
    (end_ : c ≠ .end_) {st' : ConsoleState Node} (batches : st'.batches = st.batches)
    (before : st'.szLine.before = st.szLine.before) (t : Turn (World Node) (World Node)) :
    Executed env st (st'.finish t) := by
  have other : dispatch st.szLine.units ≠ some .quit ∧ dispatch st.szLine.units ≠ some .end_ := by
    rw [runs]
    exact ⟨fun eq => quit (Option.some.inj eq), fun eq => end_ (Option.some.inj eq)⟩
  cases t with
  | again world => exact .works _ _ (.inr rfl) other batches before
  | leave world => exact .works _ _ (.inl rfl) other batches before

/-- **Every command** is of one of these kinds. -/
theorem exec_executed (env : Environment Node) (turns : Nat) (st : ConsoleState Node) :
    Executed env st (ConsoleState.exec env turns st) := by
  have idle : ∀ {st' : ConsoleState Node}, dispatch st.szLine.units ≠ some .quit →
      dispatch st.szLine.units ≠ some .end_ → st'.batches = st.batches →
      st'.szLine.before = st.szLine.before → Executed env st (st', .next) :=
    fun quit end_ batches before => .works _ _ (.inl rfl) ⟨quit, end_⟩ batches before
  unfold ConsoleState.exec
  cases runs : dispatch st.szLine.units with
  | none => exact idle (by rw [runs]; decide) (by rw [runs]; decide) rfl rfl
  | some c =>
    cases c <;> simp only
    case box => exact idle (by rw [runs]; decide) (by rw [runs]; decide) rfl rfl
    case pyramids => exact idle (by rw [runs]; decide) (by rw [runs]; decide) rfl rfl
    case antTSP => exact idle (by rw [runs]; decide) (by rw [runs]; decide) rfl rfl
    case ls => exact finish_executed runs (by decide) (by decide) (by rfl) (by rfl) _
    case cd => exact idle (by rw [runs]; decide) (by rw [runs]; decide) rfl rfl
    case cwd => exact idle (by rw [runs]; decide) (by rw [runs]; decide) rfl rfl
    case cat => exact finish_executed runs (by decide) (by decide) (by rfl) (by rfl) _
    case connect => exact idle (by rw [runs]; decide) (by rw [runs]; decide) rfl rfl
    case accept => exact idle (by rw [runs]; decide) (by rw [runs]; decide) rfl rfl
    case filldemo =>
      cases gop : env.gop with
      | true => exact idle (by rw [runs]; decide) (by rw [runs]; decide) rfl rfl
      | false => exact .leaves (.inr (.inr gop))
    case printmodes =>
      cases gop : env.gop with
      | true => exact idle (by rw [runs]; decide) (by rw [runs]; decide) rfl rfl
      | false => exact .leaves (.inr (.inr gop))
    case quit => exact .leaves (.inl runs)
    case end_ => exact .leaves (.inr (.inl runs))
    case rm => exact finish_executed runs (by decide) (by decide) (by rfl) (by rfl) _
    case cp => exact finish_executed runs (by decide) (by decide) (by rfl) (by rfl) _
    case mv => exact finish_executed runs (by decide) (by decide) (by rfl) (by rfl) _
    case addline => exact finish_executed runs (by decide) (by decide) (by rfl) (by rfl) _
    case mkdir => exact finish_executed runs (by decide) (by decide) (by rfl) (by rfl) _
    case batch => exact .batch runs

theorem Executed.leave {st' : ConsoleState Node} (h : Executed env st (st', .leave)) : st' = st := by
  cases h with
  | leaves => rfl
  | works _ _ control =>
    rcases control with eq | eq
    · cases eq
    · cases eq

theorem Executed.next {st' : ConsoleState Node} (h : Executed env st (st', .next)) : st'.batches = st.batches := by
  cases h with
  | works _ _ _ _ batches => exact batches

theorem Executed.enter {st' : ConsoleState Node} (h : Executed env st (st', .enter)) :
    st'.batches ≠ [] ∧ st'.batches.tail = st.batches := by
  cases h with
  | batch => exact ⟨List.cons_ne_nil _ _, rfl⟩
  | works _ _ control =>
    rcases control with eq | eq
    · cases eq
    · cases eq

end Commands

/-! ## The lines that a session dispatches -/

/-- What a line of a session with `k` open files may be followed by. -/
def Follows (k : Nat) (d e : Dispatched) : Prop :=
  (d.Runs .quit → d.depth ≠ k) ∧ (d.Runs .end_ → e.depth < d.depth)

/-- The lines that a session with `k` open files dispatches, up to its result. -/
structure SessionLog (k : Nat) (new : List Dispatched) (r : Option Bool) : Prop where
  deep : ∀ d ∈ new, k ≤ d.depth
  first : ∀ d ∈ new.head?, d.depth = k
  chain : new.IsChain (Follows k)
  last : ∀ d ∈ new.getLast?, d.depth = k →
    (d.Runs .quit → r = some false) ∧ (d.Runs .end_ → r = some true)
  quit : r = some false → ∃ d ∈ new.getLast?, d.Runs .quit ∧ d.depth = k
  own : k = 0 → r ≠ none → ∃ d ∈ new.getLast?, d.depth = 0

namespace SessionLog

variable {k : Nat} {d : Dispatched} {inner rest : List Dispatched} {r r' : Option Bool}

theorem nil (fine : r = none ∨ (r = some true ∧ k ≠ 0)) : SessionLog k [] r := by
  refine ⟨fun d mem => (by cases mem), fun d mem => (by cases mem), .nil, fun d mem => (by cases mem),
    fun eq => ?_, fun zero some' => ?_⟩
  · rcases fine with none' | ⟨true', -⟩
    · rw [none'] at eq
      cases eq
    · rw [true'] at eq
      cases eq
  · rcases fine with none' | ⟨-, deep⟩
    · exact absurd none' some'
    · exact absurd zero deep

/-- A line at which the session returns. -/
theorem returns (depth : d.depth = k) : SessionLog k [d] (some (decide (¬ d.Runs .quit))) := by
  have one : ∀ e ∈ [d], e = d := fun e mem => List.mem_singleton.1 mem
  have last : ∀ e ∈ [d].getLast?, e = d := fun e mem => (Option.some.inj mem).symm
  refine ⟨fun e mem => ?_, fun e mem => ?_, .singleton d, fun e mem _ => ?_, fun eq => ?_, fun zero _ => ?_⟩
  · rw [one e mem, depth]
  · cases mem
    exact depth
  · rw [last e mem]
    refine ⟨fun quit => by simp [quit], fun end_ => ?_⟩
    have other : ¬ d.Runs .quit := by
      intro quit
      have eq : some Command.quit = some .end_ := quit.symm.trans end_
      cases eq
    simp [other]
  · refine ⟨d, rfl, ?_, depth⟩
    simpa using eq
  · exact ⟨d, rfl, depth.trans zero⟩

/-- A line at which it does not, the session of the file that the line may name, and the rest. -/
theorem cons (depth : d.depth = k) (quit : ¬ d.Runs .quit) (end_ : ¬ d.Runs .end_)
    (below : SessionLog (k + 1) inner r') (later : SessionLog k rest r) :
    SessionLog k (d :: inner ++ rest) r := by
  have other : ∀ {e : Dispatched}, k + 1 ≤ e.depth → e.depth ≠ k := fun deeper => by omega
  have inner_chain : inner.IsChain (Follows k) :=
    below.chain.imp_of_mem_imp fun a b mem _ follows => ⟨fun _ => other (below.deep a mem), follows.2⟩
  have front : (d :: inner).IsChain (Follows k) :=
    inner_chain.cons fun e _ => ⟨(absurd · quit), (absurd · end_)⟩
  have kept : ∀ e ∈ rest.getLast?, e ∈ (d :: inner ++ rest).getLast? :=
    fun e mem => List.mem_getLast?_append_of_mem_getLast? mem
  refine ⟨fun e mem => ?_, fun e mem => ?_, front.append later.chain ?_, fun e mem depth' => ?_,
    fun eq => ?_, fun zero some' => ?_⟩
  · rcases List.mem_append.1 mem with front | behind
    · rcases List.mem_cons.1 front with rfl | deeper
      · exact Nat.le_of_eq depth.symm
      · exact Nat.le_of_succ_le (below.deep e deeper)
    · exact later.deep e behind
  · cases mem
    exact depth
  · intro a last b head
    have level : b.depth = k := later.first b head
    rcases List.mem_cons.1 (List.mem_of_mem_getLast? last) with rfl | deeper
    · exact ⟨(absurd · quit), (absurd · end_)⟩
    · have deep := below.deep a deeper
      exact ⟨fun _ => other deep, fun _ => by omega⟩
  · cases rest with
    | nil =>
      rw [List.append_nil] at mem
      rcases List.mem_cons.1 (List.mem_of_mem_getLast? mem) with rfl | deeper
      · exact ⟨(absurd · quit), (absurd · end_)⟩
      · exact absurd depth' (other (below.deep e deeper))
    | cons a rest =>
      rw [List.getLast?_append_cons] at mem
      exact later.last e mem depth'
  · obtain ⟨e, mem, quits⟩ := later.quit eq
    exact ⟨e, kept e mem, quits⟩
  · obtain ⟨e, mem, level⟩ := later.own zero some'
    exact ⟨e, kept e mem, level⟩

end SessionLog

namespace ConsoleRun

section Logs

variable {env : Environment Node} {turns fuel : Nat} {x y z : ConsoleRun Node}

/-- How many batch files are open. -/
def depth (x : ConsoleRun Node) : Nat := x.state.batches.length

/-- The line does not end its session. -/
def Works (x : ConsoleRun Node) : Prop :=
  dispatch x.state.szLine.units ≠ some .quit ∧ dispatch x.state.szLine.units ≠ some .end_

/-- The line may end its session. -/
def Stops (env : Environment Node) (x : ConsoleRun Node) : Prop :=
  dispatch x.state.szLine.units = some .quit ∨ dispatch x.state.szLine.units = some .end_ ∨ env.gop = false

/-- The unit in front of `szLine` stays as it is, unless it is a carriage return. -/
def KeepsBefore (x y : ConsoleRun Node) : Prop :=
  x.state.szLine.before ≠ 13 → y.state.szLine.before = x.state.szLine.before

omit [DecidableEq Node] in
theorem KeepsBefore.trans (h : KeepsBefore x y) (h' : KeepsBefore y z) : KeepsBefore x z := by
  intro other
  have first := h other
  exact (h' (by rwa [first])).trans first

omit [DecidableEq Node] in
theorem readNext_before (fw : Firmware Node) (turns : Nat) (typed : Str16) {st : ConsoleState Node}
    (other : st.szLine.before ≠ 13) : (st.readNext fw turns typed).1.szLine.before = st.szLine.before := by
  have stored : ∀ line, (st.szLine.readInto line).before = st.szLine.before := by
    intro line
    unfold LineBuffer.readInto
    split
    · split
      · rfl
      · rfl
    · rw [if_neg other]
      rfl
  unfold ConsoleState.readNext
  split
  · rfl
  · split
    · rfl
    · exact stored _

/-- What reading a line leaves alone. -/
structure LineRead (x z : ConsoleRun Node) : Prop where
  dispatched : z.dispatched = x.dispatched
  depth : z.depth = x.depth
  outer : z.state.batches.tail = x.state.batches.tail
  before : KeepsBefore x z

omit [DecidableEq Node] in
theorem read_lineRead {fw : Firmware Node} (h : x.read fw turns = some z) : LineRead x z := by
  unfold read at h
  split at h
  · cases h
  · rename_i line typed top _
    cases h
    obtain ⟨-, batches⟩ := ConsoleState.readNext_typed fw turns line top
    have same := batches.trans top.symm
    exact ⟨rfl, congrArg List.length same, congrArg List.tail same, readNext_before fw turns line⟩
  · rename_i batch outer inner
    obtain ⟨-, batches⟩ := ConsoleState.readNext_batch fw turns [] inner
    have before : KeepsBefore x { x with state := (x.state.readNext fw turns []).1 } :=
      readNext_before fw turns []
    split at h
    · rename_i state ran
      cases h
      rw [ran] at batches before
      exact ⟨rfl, (congrArg List.length batches).trans (congrArg List.length inner).symm,
        (congrArg List.tail batches).trans (congrArg List.tail inner).symm, before⟩
    · cases h

omit [DecidableEq Node] in
/-- At the end of a round `ConsoleMode` goes on, or returns `true` at the end of its file. -/
theorem roundEnd_cases (x : ConsoleRun Node) :
    x.roundEnd = (x, .goesOn) ∧ x.state.atBatchEnd = false ∨
      x.roundEnd = ({ x with state := x.state.close }, .returned true) ∧ x.state.atBatchEnd = true ∧
        x.depth ≠ 0 := by
  unfold roundEnd
  split
  · rename_i ended
    refine .inr ⟨rfl, ended, fun zero => ?_⟩
    rw [ConsoleState.atBatchEnd, List.length_eq_zero_iff.1 zero] at ended
    cases ended
  · rename_i more
    exact .inl ⟨rfl, Bool.eq_false_iff.2 more⟩

/-- What a call of `ConsoleMode` dispatches and leaves. -/
structure Called (x : ConsoleRun Node) (result : ConsoleRun Node × Option Bool) (new : List Dispatched) :
    Prop where
  dispatched : result.1.dispatched = x.dispatched ++ new
  log : SessionLog x.depth new result.2
  closed : result.2 ≠ none → result.1.state.batches = x.state.batches.tail
  before : KeepsBefore x result.1

/-- What a round dispatches and leaves. -/
structure Round (env : Environment Node) (x : ConsoleRun Node) (result : ConsoleRun Node × Outcome)
    (new : List Dispatched) : Prop where
  dispatched : result.1.dispatched = x.dispatched ++ new
  line : ∃ inner, new = ⟨x.depth, x.state.szLine.units⟩ :: inner ∧ ∀ d ∈ inner, x.depth < d.depth
  before : KeepsBefore x result.1
  goesOn : result.2 = .goesOn → result.1.state.batches = x.state.batches ∧ Works x ∧
    x.state.atBatchEnd = false ∧
    ∀ {rest r}, SessionLog x.depth rest r → SessionLog x.depth (new ++ rest) r
  returned : ∀ b, result.2 = .returned b → result.1.state.batches = x.state.batches.tail ∧
    (Stops env x ∨ Works x ∧ x.state.atBatchEnd = true) ∧ SessionLog x.depth new (some b)
  unfinished : result.2 = .unfinished → SessionLog x.depth new none

omit [DecidableEq Node] in
/-- A line that neither ends the session nor names a file, or one whose file has been run. -/
theorem roundEnd_round {inner : List Dispatched} {r : Option Bool} (works : Works x)
    (batches : y.state.batches = x.state.batches) (dispatched : y.dispatched = x.noted.dispatched ++ inner)
    (before : KeepsBefore x y) (below : SessionLog (x.depth + 1) inner r) :
    Round env x y.roundEnd (⟨x.depth, x.state.szLine.units⟩ :: inner) := by
  have log : y.dispatched = x.dispatched ++ ⟨x.depth, x.state.szLine.units⟩ :: inner := by
    rw [dispatched, noted, List.append_assoc]
    rfl
  have more : ∀ {rest r}, SessionLog x.depth rest r →
      SessionLog x.depth (⟨x.depth, x.state.szLine.units⟩ :: inner ++ rest) r :=
    fun later => .cons rfl works.1 works.2 below later
  have same : y.state.atBatchEnd = x.state.atBatchEnd := by
    rw [ConsoleState.atBatchEnd, batches, ConsoleState.atBatchEnd]
  rcases roundEnd_cases y with ⟨on, going⟩ | ⟨left, ended, deep⟩
  · rw [on]
    exact ⟨log, ⟨inner, rfl, below.deep⟩, before, fun _ => ⟨batches, works, same ▸ going, more⟩,
      fun b eq => (by cases eq), fun eq => by cases eq⟩
  · rw [left]
    refine ⟨log, ⟨inner, rfl, below.deep⟩, before, fun eq => (by cases eq), fun b eq => ?_,
      fun eq => by cases eq⟩
    cases eq
    refine ⟨congrArg List.tail batches, .inr ⟨works, same ▸ ended⟩, ?_⟩
    have level : x.depth ≠ 0 := by
      rw [depth, batches] at deep
      exact deep
    have last := more (.nil (.inr ⟨rfl, level⟩))
    rwa [List.append_nil] at last

omit [DecidableEq Node] in
/-- A line whose command has not finished. -/
theorem unfinished_round {inner : List Dispatched} {r : Option Bool} (works : Works x)
    (dispatched : y.dispatched = x.noted.dispatched ++ inner) (before : KeepsBefore x y)
    (below : SessionLog (x.depth + 1) inner r) :
    Round env x (y, .unfinished) (⟨x.depth, x.state.szLine.units⟩ :: inner) := by
  refine ⟨?_, ⟨inner, rfl, below.deep⟩, before, fun eq => (by cases eq), fun b eq => (by cases eq), fun _ => ?_⟩
  · rw [dispatched, noted, List.append_assoc]
    rfl
  · have log := SessionLog.cons (d := ⟨x.depth, x.state.szLine.units⟩) rfl works.1 works.2 below
      (.nil (.inl rfl))
    rwa [List.append_nil] at log

/-- **A command**, in terms of what the call that it may make does. -/
theorem command_round {nested : ConsoleRun Node → ConsoleRun Node × Option Bool}
    (calls : ∀ y, ∃ new, Called y (nested y) new) (x : ConsoleRun Node) :
    ∃ new, Round env x (x.command env turns nested) new := by
  have executed := exec_executed env turns x.state
  have none' : SessionLog (x.depth + 1) [] none := .nil (.inl rfl)
  unfold command
  cases ran : ConsoleState.exec env turns x.state with
  | mk state control =>
    rw [ran] at executed
    cases executed with
    | batch runs =>
      simp only
      have works : Works x := by
        rw [Works, runs]
        decide
      obtain ⟨inner, called⟩ := calls { x.noted with
        state := (x.state.locateAt 6).openBatch env.fw (x.state.locateAt 6).szPath.str }
      have below := called.log
      have dispatched := called.dispatched
      have closed := called.closed
      have before : KeepsBefore x _ := called.before
      split
      · rename_i y unfinished
        rw [unfinished] at below dispatched before
        exact ⟨_, unfinished_round works dispatched before below⟩
      · rename_i y result returned
        rw [returned] at below dispatched closed before
        exact ⟨_, roundEnd_round works (closed (Option.some_ne_none result)) dispatched before below⟩
    | leaves runs =>
      refine ⟨[⟨x.depth, x.state.szLine.units⟩], rfl, ⟨[], rfl, fun d mem => (by cases mem)⟩, fun _ => rfl,
        fun eq => (by cases eq), fun b eq => ?_, fun eq => by cases eq⟩
      cases eq
      exact ⟨rfl, .inl runs, .returns rfl⟩
    | works state control kind other batches before =>
      have kept : KeepsBefore x { x.noted with state } := fun _ => before
      rcases kind with rfl | rfl
      · exact ⟨_, roundEnd_round other batches (List.append_nil _).symm kept none'⟩
      · exact ⟨_, unfinished_round other (List.append_nil _).symm kept none'⟩

/-- **A session**, of any depth, watched for any time. -/
theorem session_called (env : Environment Node) (fuel : Nat) (x : ConsoleRun Node) :
    ∃ new, Called x (x.session env fuel) new := by
  have still : ∀ y : ConsoleRun Node, Called y (y, none) [] := fun y =>
    ⟨(List.append_nil _).symm, .nil (.inl rfl), fun some' => absurd rfl some', fun _ => rfl⟩
  induction fuel generalizing x with
  | zero => exact ⟨[], still x⟩
  | succ fuel ih =>
    have ih_round : ∀ z, ∃ new, Round env z (z.command env fuel (session env fuel)) new := command_round ih
    unfold session
    cases line : x.read env.fw fuel with
    | none => exact ⟨[], still x⟩
    | some z =>
      have first := read_lineRead line
      have level := first.depth
      obtain ⟨new, round⟩ := ih_round z
      have logged := round.dispatched
      have before := first.before.trans round.before
      rw [first.dispatched] at logged
      simp only
      split
      · rename_i y on
        rw [on] at logged round before
        obtain ⟨batches, -, -, more⟩ := round.goesOn rfl
        obtain ⟨rest, called⟩ := ih y
        have same : y.depth = x.depth := (congrArg List.length batches).trans level
        have log := called.log
        rw [same, ← level] at log
        refine ⟨new ++ rest, ?_, ?_, fun some' => ?_, before.trans called.before⟩
        · rw [called.dispatched, logged, List.append_assoc]
        · rw [← level]
          exact more log
        · rw [called.closed some', congrArg List.tail batches, first.outer]
      · rename_i y result returned
        rw [returned] at logged round before
        obtain ⟨batches, -, log⟩ := round.returned result rfl
        rw [level] at log
        exact ⟨new, logged, log, fun _ => batches.trans first.outer, before⟩
      · rename_i y unfinished
        rw [unfinished] at logged round before
        have log := round.unfinished rfl
        rw [level] at log
        exact ⟨new, logged, log, fun some' => absurd rfl some', before⟩

theorem command_session_round (env : Environment Node) (turns : Nat) (x : ConsoleRun Node) :
    ∃ new, Round env x (x.command env turns (session env turns)) new :=
  command_round (session_called env turns) x

end Logs

end ConsoleRun

end Lavoro.Console
