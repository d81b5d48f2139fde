import Lavoro.Console.Batch
import Lavoro.Console.Obeys

/-!
# A session does what its jobs mean

A call of `ConsoleMode` takes its lines from the keyboard or off the file that is run innermost, and a
`batch` line makes it call itself. Where the lines are those of jobs that `Runs` brings from one disk to
another, the call returns, and the console stands for that other disk.
-/

namespace Lavoro.Console
open Lib

variable {Node : Type} [DecidableEq Node]

/-- A file that is being run: what it holds, and what of it is still to be read. -/
structure Running (Node : Type) where
  node : Node
  content : List UInt8
  left : List UInt8

/-- Its open file. -/
structure Feeding (fw : Firmware Node) (w : World Node) (r : Running Node) (batch : LFile Node) : Prop where
  ahead : Ahead fw r.node r.content r.left (batch, w)
  open' : batch.handle.isSome

/-- The lines that the innermost call has still to read. -/
def toCome (typed : List Str16) : List (Running Node) → List Str16
  | [] => typed
  | r :: _ => fileLines r.left

/-- What stays behind a call of the typed lines, where `more` were to come with its stop. -/
def typedBehind (typed more : List Str16) : List (Running Node) → List Str16
  | [] => more.tail
  | _ :: _ => typed

/-- The files that are run when the innermost call has read a line. -/
def lineRead : List (Running Node) → List (Running Node)
  | [] => []
  | r :: outer => { r with left := restOf r.left } :: outer

/-- The console stands for the disk, and runs these files. -/
structure Head (env : Environment Node) (stack : List (Running Node)) (d : Disk Node) (x : ConsoleRun Node) :
    Prop where
  stands : Stands d x.state
  feeding : List.Forall₂ (Feeding env.fw x.state.world) stack x.state.batches
  there : ∀ r ∈ stack, d.file r.node = some r.content

/-- The call of `x` returns with the console on `d'`, having used its lines up to their stop. -/
def Returns (env : Environment Node) (stack : List (Running Node)) (more : List Str16) (d' : Disk Node)
    (x : ConsoleRun Node) : Prop :=
  ∃ turns y b, x.session env turns = (y, some b) ∧ Head env stack.tail d' y ∧
    y.typed = typedBehind x.typed more stack ∧
    (more.head? = some Command.quit.name → b = false) ∧ (more.head? = some Command.end_.name → b = true)

section Sessions

variable {env : Environment Node} {stack : List (Running Node)} {d d' : Disk Node} {x y z : ConsoleRun Node}
variable {w w' : World Node} {line : Str16} {lines more : List Str16}

omit [DecidableEq Node] in
/-- The lines of a file that has something left. -/
theorem fileLines_cons {l : List UInt8} (some' : l ≠ []) :
    fileLines l = lineText (firstLine l) :: fileLines (restOf l) := by
  rw [fileLines, linesOf_cons some']
  rfl

omit [DecidableEq Node] in
theorem fileLines_eq_nil {l : List UInt8} : fileLines l = [] ↔ l = [] := by
  constructor
  · intro none
    by_contra some'
    rw [fileLines_cons some'] at none
    cases none
  · rintro rfl
    rfl

omit [DecidableEq Node] in
/-- The files that are run are fed on while what they hold stays. -/
theorem feeding_stays (well : Readable env.fw) {batches : List (LFile Node)}
    (h : List.Forall₂ (Feeding env.fw w) stack batches) (stay : ∀ r ∈ stack, w'.file r.node = some r.content) :
    List.Forall₂ (Feeding env.fw w') stack batches := by
  induction h with
  | nil => exact .nil
  | cons first _ ih =>
    obtain ⟨here, others⟩ := List.forall_mem_cons.1 stay
    refine .cons ⟨first.ahead.stays well ?_, first.open'⟩ (ih others)
    rw [World.content, here, Option.getD_some]

/-! ## Reading a line -/

/-- **The next line** is read. -/
theorem Head.read (well : Readable env.fw) (h : Head env stack d x) (lines' : toCome x.typed stack = line :: lines)
    (more : List Str16) :
    ∃ turns z rest, x.read env.fw turns = some z ∧ z.state.szLine.units = line ++ 0 :: rest ∧
      Head env (lineRead stack) d z ∧ toCome z.typed (lineRead stack) = lines ∧
      typedBehind z.typed more stack = typedBehind x.typed more stack := by
  obtain ⟨stands, feeding, there⟩ := h
  cases stack with
  | nil =>
    have top : x.state.batches = [] := List.forall₂_nil_left_iff.1 feeding
    have typed : x.typed = line :: lines := lines'
    refine ⟨0, { x with typed := lines, state := { x.state with szLine := x.state.szLine.put line } }, _, ?_, rfl,
      ⟨stands.transfer rfl rfl rfl stands.fine rfl, ?_, there⟩, rfl, rfl⟩
    · rw [ConsoleRun.read, top, typed]
      simp only [ConsoleState.readNext, top]
    · exact feeding
  | cons r outer =>
    obtain ⟨batch, batches, first, others, open'⟩ := List.forall₂_cons_left_iff.1 feeding
    have some' : r.left ≠ [] := by
      intro none
      rw [toCome, none] at lines'
      cases lines'
    rw [toCome, fileLines_cons some'] at lines'
    obtain ⟨rfl, rfl⟩ := List.cons.inj lines'
    obtain ⟨enough, s', read, ahead, files⟩ := readLine_settles first.ahead
    have present := LFile.readLine_kept (LFile.present_kept env.fw) enough (s := (batch, x.state.world))
      ⟨first.open', stands.fine⟩
    have read := read enough (Nat.le_refl _)
    rw [read] at present
    have others : List.Forall₂ (Feeding env.fw s'.2) outer batches := by
      refine feeding_stays well others fun r' mem => ?_
      rw [files, stands.file]
      exact there r' (List.mem_cons_of_mem _ mem)
    let state : ConsoleState Node := { x.state with
      szLine := x.state.szLine.put (lineText (firstLine r.left))
      batches := s'.1 :: batches
      world := s'.2 }
    have next : x.state.readNext env.fw enough [] = (state, .next) := by
      rw [ConsoleState.readNext, open']
      simp only [read, LineBuffer.readInto_text stands.before]
      rfl
    refine ⟨enough, { x with state }, _, ?_, rfl,
      ⟨stands.transfer rfl rfl files present.2 rfl, .cons ⟨ahead, present.1⟩ others, ?_⟩, rfl, rfl⟩
    · rw [ConsoleRun.read, open']
      simp only [next]
    · exact List.forall_mem_cons.2 ⟨there r List.mem_cons_self, fun r' mem => there r' (List.mem_cons_of_mem _ mem)⟩

/-! ## The end of a round -/

omit [DecidableEq Node] in
/-- A call whose file has been read to its end is left, any other goes on. -/
theorem Head.roundEnd (h : Head env stack d x) :
    (stack ≠ [] ∧ toCome x.typed stack = [] ∧
        x.roundEnd = ({ x with state := x.state.close }, .returned true)) ∨
      ((stack = [] ∨ toCome x.typed stack ≠ []) ∧ x.roundEnd = (x, .goesOn)) := by
  cases stack with
  | nil =>
    have top : x.state.batches = [] := List.forall₂_nil_left_iff.1 h.feeding
    refine .inr ⟨.inl rfl, ?_⟩
    simp [ConsoleRun.roundEnd, ConsoleState.atBatchEnd, top]
  | cons r outer =>
    obtain ⟨batch, batches, first, others, open'⟩ := List.forall₂_cons_left_iff.1 h.feeding
    have ended := first.ahead.atEnd
    by_cases none : r.left = []
    · refine .inl ⟨List.cons_ne_nil _ _, fileLines_eq_nil.2 none, ?_⟩
      simp [ConsoleRun.roundEnd, ConsoleState.atBatchEnd, open', ended.2 none]
    · refine .inr ⟨.inr (mt fileLines_eq_nil.1 none), ?_⟩
      simp [ConsoleRun.roundEnd, ConsoleState.atBatchEnd, open', mt ended.1 none]

omit [DecidableEq Node] in
/-- Leaving a call takes its file off. -/
theorem Head.close (h : Head env stack d x) : Head env stack.tail d { x with state := x.state.close } := by
  refine ⟨h.stands.transfer rfl rfl rfl h.stands.fine rfl, ?_, fun r mem => h.there r (List.mem_of_mem_tail mem)⟩
  have feeding := h.feeding
  cases stack with
  | nil =>
    have top : x.state.batches = [] := List.forall₂_nil_left_iff.1 feeding
    simp [ConsoleState.close, top]
  | cons r outer =>
    obtain ⟨batch, batches, -, others, open'⟩ := List.forall₂_cons_left_iff.1 feeding
    simp only [ConsoleState.close, open', List.tail_cons]
    exact others

/-! ## Rounds -/

omit [DecidableEq Node] in
theorem lineRead_nodes (stack : List (Running Node)) : (lineRead stack).map Running.node = stack.map Running.node := by
  cases stack <;> rfl

omit [DecidableEq Node] in
theorem lineRead_tail (stack : List (Running Node)) : (lineRead stack).tail = stack.tail := by
  cases stack <;> rfl

omit [DecidableEq Node] in
theorem lineRead_eq_nil : lineRead stack = [] ↔ stack = [] := by
  cases stack <;> simp [lineRead]

omit [DecidableEq Node] in
theorem typedBehind_lineRead (typed more : List Str16) (stack : List (Running Node)) :
    typedBehind typed more (lineRead stack) = typedBehind typed more stack := by
  cases stack <;> rfl

omit [DecidableEq Node] in
/-- The lines behind the one that stops a call. -/
theorem typedBehind_stop (last : toCome z.typed (lineRead stack) = more.tail) :
    z.typed = typedBehind z.typed more stack := by
  cases stack with
  | nil => exact last
  | cons r outer => rfl

/-- **A round that ends** with the disk `d₁`: the call returns there, or from where it goes on. -/
theorem returns_of_round {n : Nat} {u : ConsoleRun Node} {d₁ : Disk Node} (read : x.read env.fw n = some z)
    (round : z.command env n (ConsoleRun.session env n) = u.roundEnd) (h : Head env (lineRead stack) d₁ u)
    (typed : typedBehind u.typed more stack = typedBehind x.typed more stack)
    (later : stack = [] ∨ toCome u.typed (lineRead stack) ≠ [] → Returns env (lineRead stack) more d' u)
    (last : stack ≠ [] → toCome u.typed (lineRead stack) = [] → d₁ = d' ∧ more = []) :
    Returns env stack more d' x := by
  rcases h.roundEnd with ⟨inner, ended, left⟩ | ⟨going, on⟩
  · have inner := mt lineRead_eq_nil.2 inner
    obtain ⟨rfl, rfl⟩ := last inner ended
    rw [left] at round
    have behind := h.close
    rw [lineRead_tail] at behind
    refine ⟨n + 1, _, true, ConsoleRun.session_of_returned read round, behind, ?_, fun none => (by cases none),
      fun none => (by cases none)⟩
    rw [← typed]
    cases stack with
    | nil => exact absurd rfl inner
    | cons r outer => rfl
  · rw [on] at round
    rw [lineRead_eq_nil] at going
    obtain ⟨m, y, b, session, head, typed', quit, end_⟩ := later going
    obtain ⟨turns, whole⟩ := ConsoleRun.session_of_goesOn read round session
    rw [lineRead_tail] at head
    rw [typedBehind_lineRead, typed] at typed'
    exact ⟨turns, y, b, whole, head, typed', quit, end_⟩

/-- **A stop** makes the call return. -/
theorem returns_of_stop (well : Readable env.fw) (h : Head env stack d x) (stops : Stops more) (some' : more ≠ [])
    (lines' : toCome x.typed stack = more) : Returns env stack more d x := by
  obtain ⟨c, others, rfl, stop, whole⟩ : ∃ c others, more = Command.name c :: others ∧
      (c = .quit ∨ c = .end_) ∧ c.compare = .whole := by
    cases stops with
    | none => exact absurd rfl some'
    | quit others => exact ⟨.quit, others, rfl, .inl rfl, rfl⟩
    | end_ others => exact ⟨.end_, others, rfl, .inr rfl, rfl⟩
  obtain ⟨n, z, rest, read, units, head, later, typed⟩ :=
    h.read well lines' (Command.name c :: others)
  have runs : dispatch z.state.szLine.units = some c := by
    rw [units]
    exact dispatch_whole whole rest
  have left : z.command env n (ConsoleRun.session env n) =
      ({ z.noted with state := z.state.close }, .returned (c ≠ .quit)) := by
    have exec : z.state.exec env n = (z.state, .leave) := by
      rcases stop with rfl | rfl <;> rw [ConsoleState.exec, runs]
    rw [ConsoleRun.command, exec]
    simp [runs]
  have behind := head.close
  rw [lineRead_tail] at behind
  refine ⟨n + 1, _, _, ConsoleRun.session_of_returned read left,
    ⟨behind.stands, behind.feeding, behind.there⟩, (typedBehind_stop later).trans typed, ?_, ?_⟩
  · intro quit
    have same : c = .quit := name_injective (Option.some.inj quit)
    simp [same]
  · intro end_
    have same : c = .end_ := name_injective (Option.some.inj end_)
    simp [same]

/-- The command of an order, at the head of the files that are run. -/
theorem Head.order (well : Healthy env.fw) {o : Order} {rest : Str16} (h : Head env stack d z)
    (units : z.state.szLine.units = o.line ++ 0 :: rest) (allowed : d.Allows env.fw.nodeOf env.entries o)
    (stay : ∀ r ∈ stack, (d.follow env.fw.nodeOf o).file r.node = d.file r.node) :
    ∃ enough st', (∀ turns, enough ≤ turns → z.state.exec env turns = (st', .next)) ∧
      Head env stack (d.follow env.fw.nodeOf o) { z.noted with state := st' } := by
  obtain ⟨enough, st', runs, stands, batches⟩ := (exec_obeys well h.stands allowed units).stands h.stands
  have there : ∀ r ∈ stack, (d.follow env.fw.nodeOf o).file r.node = some r.content :=
    fun r mem => (stay r mem).trans (h.there r mem)
  refine ⟨enough, st', runs, stands, ?_, there⟩
  simp only [batches]
  refine feeding_stays well.toReadable h.feeding fun r mem => ?_
  rw [stands.file]
  exact there r mem

/-- **A batch is entered**: its file is run innermost, with all its lines to come. -/
theorem Head.enter (well : Healthy env.fw) {path rest : Str16} {content : List UInt8} (h : Head env stack d z)
    (units : z.state.szLine.units = (Job.batch path).line ++ 0 :: rest) (argument : d.Argument path)
    (there : d.file (d.named env.fw.nodeOf path) = some content) (some' : content ≠ []) :
    ∃ st', (∀ turns, z.state.exec env turns = (st', .enter)) ∧
      Head env (⟨d.named env.fw.nodeOf path, content, content⟩ :: stack) d { z.noted with state := st' } := by
  obtain ⟨runs, located, fits⟩ := h.stands.one (c := .batch) rfl argument units (i := 6) rfl
  have named := resolve_ne_nil d.szCurrentPath path
  have file : z.state.world.file (env.fw.nodeOf (resolve d.szCurrentPath path)) = some content := by
    rw [h.stands.file]
    exact there
  have opened := openFile_present (resolve d.szCurrentPath path) false (well.opens _) file
  have entered : ∀ turns, z.state.exec env turns = z.state.enterBatch env.fw :=
    fun turns => ConsoleState.exec_batch runs
  obtain ⟨st', left⟩ : ∃ st', z.state.enterBatch env.fw = (st', .enter) := ⟨_, rfl⟩
  have held : Held st' := by
    have held : Held (z.state.exec env 0).1 := (exec_held h.stands.held).2 (by rw [CommandFits, runs]; exact fits)
    rw [entered, left] at held
    exact held
  have shape := congrArg Prod.fst left
  simp only [ConsoleState.enterBatch, located, construct_eq named] at shape
  rw [show (z.state.locateAt 6).world = z.state.world from rfl, opened] at shape
  have holds : HoldsFile env.fw (env.fw.nodeOf (resolve d.szCurrentPath path)) content
      (some ⟨env.fw.nodeOf (resolve d.szCurrentPath path), 0⟩,
        { z.state.world with opens := z.state.world.opens + 1 }) content := by
    apply holdsFile_at (p := 0) well.reads ?_ (Nat.zero_le _)
    rw [World.content]
    simp only [file, Option.getD_some]
  refine ⟨st', fun turns => (entered turns).trans left, ⟨held, ?_, ?_, ?_, ?_⟩, ?_, ?_⟩
  · rw [← shape]
    exact h.stands.path
  · rw [← shape]
    exact h.stands.file
  · rw [← shape]
    exact h.stands.fine
  · rw [← shape]
    exact h.stands.before
  · simp only [← shape]
    refine .cons ⟨.fresh (env.fw.heap z.state.world.opens) rfl holds some', rfl⟩ ?_
    refine feeding_stays well.toReadable h.feeding fun r mem => ?_
    rw [← h.there r mem, ← h.stands.file]
  · exact List.forall_mem_cons.2 ⟨there, h.there⟩

/-- Behind the first of the jobs the call goes on with the others, or its file has ended. -/
theorem returns_of_rest {n : Nat} {u : ConsoleRun Node} {d₁ : Disk Node} {open' : List Node} {jobs : List Job}
    (read : x.read env.fw n = some z) (round : z.command env n (ConsoleRun.session env n) = u.roundEnd)
    (h : Head env (lineRead stack) d₁ u) (typed : typedBehind u.typed more stack = typedBehind x.typed more stack)
    (later : toCome u.typed (lineRead stack) = jobs.map Job.line ++ more)
    (rest : Runs env.fw.nodeOf env.entries open' d₁ jobs d') (stop : stack = [] → more ≠ [])
    (goes : jobs.map Job.line ++ more ≠ [] → Returns env (lineRead stack) more d' u) : Returns env stack more d' x := by
  refine returns_of_round read round h typed (fun going => goes ?_) fun inner ended => ?_
  · rcases going with none | going
    · exact fun empty => stop none (List.append_eq_nil_iff.1 empty).2
    · rwa [← later]
  · obtain ⟨none, rfl⟩ := List.append_eq_nil_iff.1 (later.symm.trans ended)
    obtain rfl := List.map_eq_nil_iff.1 none
    cases rest
    exact ⟨rfl, rfl⟩

/-- **A call of `ConsoleMode`** whose lines are those of jobs, and behind them a stop or the end of its file,
comes to the disk that the jobs mean. -/
theorem runs_returns (well : Healthy env.fw) {open' : List Node} {jobs : List Job}
    (h : Runs env.fw.nodeOf env.entries open' d jobs d') {stack : List (Running Node)} {more : List Str16}
    {x : ConsoleRun Node} (nodes : stack.map Running.node = open') (head : Head env stack d x)
    (lines' : toCome x.typed stack = jobs.map Job.line ++ more) (stops : Stops more)
    (some' : jobs.map Job.line ++ more ≠ []) (typed : stack = [] → more ≠ []) : Returns env stack more d' x := by
  induction h generalizing stack more x with
  | done => exact returns_of_stop well.toReadable head stops some' lines'
  | @order open' d d' o jobs allowed short stay rest ih =>
    obtain ⟨n, z, behind, read, units, head, later, typed'⟩ := head.read well.toReadable lines' more
    have nodes' := (lineRead_nodes stack).trans nodes
    obtain ⟨m, st', runs, moved⟩ := head.order well units allowed fun r mem =>
      stay r.node (nodes' ▸ List.mem_map_of_mem mem)
    have read := ConsoleRun.read_more (Nat.le_max_left n m) read
    have round : z.command env (max n m) (ConsoleRun.session env (max n m)) =
        ConsoleRun.roundEnd { z.noted with state := st' } := by
      rw [ConsoleRun.command, runs (max n m) (Nat.le_max_right n m)]
    refine returns_of_rest read round moved typed' later rest typed fun some => ?_
    exact ih nodes' moved later stops some fun none => typed (lineRead_eq_nil.1 none)
  | @batch open' d d₁ d' path content body jobs argument short there script inner rest ihInner ih =>
    obtain ⟨n, z, behind, read, units, head, later, typed'⟩ := head.read well.toReadable lines' more
    have nodes' := (lineRead_nodes stack).trans nodes
    obtain ⟨st', runs, entered⟩ := head.enter well units argument there script.some'
    obtain ⟨tail, split, stops'⟩ := script.lines
    have some : body.map Job.line ++ tail ≠ [] := by
      rw [← split]
      exact mt fileLines_eq_nil.1 script.some'
    obtain ⟨m, y, b, session, back, typed'', -⟩ :=
      ihInner (congrArg _ nodes') entered split stops' some fun eq => by cases eq
    have read := ConsoleRun.read_more (Nat.le_max_left n m) read
    have call := ConsoleRun.session_more (x := { z.noted with state := st' }) (Nat.le_max_right n m)
      (by rw [session]; exact Option.some_ne_none b)
    have round : z.command env (max n m) (ConsoleRun.session env (max n m)) = y.roundEnd := by
      rw [ConsoleRun.command, runs]
      simp only [call, session]
    have same : y.typed = z.typed := typed''
    rw [← same] at later typed'
    refine returns_of_rest read round back typed' later rest typed fun some => ?_
    exact ih nodes' back later stops some fun none => typed (lineRead_eq_nil.1 none)

end Sessions

/-- A call of the typed lines returns where it meets the line `stop`, in front of `others`, and the
console stands for `d'` with no batch open; `end` makes it return `true`, and `quit` `false`. -/
def Arrives (env : Environment Node) (d' : Disk Node) (stop : Command) (others : List Str16) (x : ConsoleRun Node) : Prop :=
  ∃ turns y b, x.session env turns = (y, some b) ∧ Stands d' y.state ∧ y.state.batches = [] ∧
    y.typed = others ∧ (b = true ↔ stop = .end_)

/-- **The console does what its lines mean.** Where jobs are typed, and `quit` or `end` behind them, it
arrives at the disk that they make of the one before, with the batches among them run to their ends. -/
theorem session_refines {env : Environment Node} (well : Healthy env.fw) {d d' : Disk Node} {jobs : List Job}
    (runs : Runs env.fw.nodeOf env.entries [] d jobs d') {x : ConsoleRun Node} (stands : Stands d x.state)
    (top : x.state.batches = []) {stop : Command} (stops : stop = .quit ∨ stop = .end_) {others : List Str16}
    (typed : x.typed = jobs.map Job.line ++ stop.name :: others) : Arrives env d' stop others x := by
  have nodes : ([] : List (Running Node)).map Running.node = [] := rfl
  have head : Head env [] d x := ⟨stands, by rw [top]; exact .nil, fun r mem => by cases mem⟩
  have ended : Stops (stop.name :: others) := by
    rcases stops with rfl | rfl
    · exact .quit others
    · exact .end_ others
  obtain ⟨turns, y, b, session, head', typed', quit, end_⟩ :=
    runs_returns well runs nodes head typed ended
      (List.append_ne_nil_of_right_ne_nil _ (List.cons_ne_nil _ _)) fun _ => List.cons_ne_nil _ _
  refine ⟨turns, y, b, session, head'.stands, List.forall₂_nil_left_iff.1 head'.feeding, typed', ?_⟩
  rcases stops with rfl | rfl
  · rw [quit rfl]
    decide
  · rw [end_ rfl]
    decide

/-- A file system without failures, with directories that have no entries. -/
def flawlessEnvironment : Environment Str16 where
  fw := flawless
  entries _ := []
  szBuffer := ⟨[], false⟩
  gop := true

/-- The console in the directory `\`, with these files. -/
def consoleOver (file : Str16 → Option (List UInt8)) : ConsoleState Str16 where
  szLine := ⟨0, []⟩
  szPath := blank
  szCurrentPath := blank.copy [backslash]
  remoteAddress := [0, 0, 0, 0]
  remotePort := 0
  batches := []
  opened := []
  world := World.start file

theorem consoleOver_stands (file : Str16 → Option (List UInt8)) :
    Stands ⟨[backslash], file⟩ (consoleOver file) where
  held := by
    let session : Session Str16 := ⟨consoleOver file, blank⟩
    have initial : Initial session := ⟨rfl, ⟨blank, rfl, rfl⟩, rfl⟩
    exact (Session.initial_contained initial).console
  path := fresh_path.1
  file := rfl
  fine := rfl
  before := by
    show (0 : UInt16) ≠ 13
    decide

/-- The file `\a` holds the line `rm b`, and there is a file `\b`. -/
def removing : Str16 → Option (List UInt8) := fun n =>
  if n = [92, 97] then some [114, 109, 32, 98, 13, 10] else if n = [92, 98] then some [1] else none

/-- `batch a` and `end`: the file `b` is gone. -/
theorem batch_removes :
    Arrives flawlessEnvironment ((⟨[backslash], removing⟩ : Disk Str16).follow id (.rm [98])) .end_ []
      ⟨[], [(Job.batch [97]).line, Command.end_.name], consoleOver removing⟩ := by
  have body : Runs id flawlessEnvironment.entries [[92, 97]] ⟨[backslash], removing⟩ [.order (.rm [98])]
      ((⟨[backslash], removing⟩ : Disk Str16).follow id (.rm [98])) := by
    refine .order ⟨by decide, by decide⟩ (by decide) (fun n mem => ?_) .done
    rw [List.mem_singleton.1 mem]
    rfl
  have script : Script [114, 109, 32, 98, 13, 10] [Job.order (.rm [98])] :=
    ⟨by decide, [], by decide, .none⟩
  exact session_refines ⟨flawless_healthy.1, flawless_healthy.2, flawless_healthy.3⟩
    (.batch ⟨by decide, by decide⟩ (by decide) rfl script body .done) (consoleOver_stands removing) rfl (.inr rfl) rfl

end Lavoro.Console
