import Lavoro.Console.Independence
import Lavoro.Console.Nesting

/-!
# `quit` and `end` (`ConsoleMode`, `efi_main`)

`quit` makes `ConsoleMode` return `false`, and `efi_main` leaves its loop at a `false` of the
outermost call. A call made by a `batch` command has its result thrown away, so that a `quit` in a
batch file ends that file only. The lines of the batch files are taken to fit `szLine`.
-/

namespace Lavoro.Console
open Lib

variable {Node : Type} [DecidableEq Node]

/-- A `quit` line is the last line of all, its call returns `false`, and the main loop is left. -/
def QuitExits (calls : List ConsoleCall) (main : MainLoop) : Prop :=
  ∀ earlier call later before d after, calls = earlier ++ call :: later →
    call.dispatched = before ++ d :: after → d.Runs .quit →
      after = [] ∧ later = [] ∧ call.result = some false ∧ main = .leftByConsole

/-- Behind an `end` line comes one of a call around it, or its call is the outermost one, which
returns `true`; no call returns `false` there. -/
def EndEndsSession (calls : List ConsoleCall) : Prop :=
  ∀ call ∈ calls, ∀ before d after, call.dispatched = before ++ d :: after → d.Runs .end_ →
    (∀ e ∈ after.head?, e.depth < d.depth) ∧ (d.depth = 0 → call.result = some true) ∧
      (after = [] → call.result ≠ some false)

/-- No `quit` line is met in a batch file. -/
def QuitsOutside (calls : List ConsoleCall) : Prop :=
  ∀ call ∈ calls, ∀ d ∈ call.dispatched, d.Runs .quit → d.depth = 0

section Sessions

variable {k : Nat} {new before after : List Dispatched} {d : Dispatched} {r : Option Bool}

/-- What follows a line in the log of a session. -/
theorem SessionLog.followed (h : SessionLog k new r) (split : new = before ++ d :: after) :
    ∀ e ∈ after.head?, Follows k d e := by
  intro e head
  obtain ⟨more, rfl⟩ := List.head?_eq_some_iff.1 head
  have chain := h.chain
  rw [split, List.isChain_append_cons_cons] at chain
  exact chain.2.1

/-- The last line of a log. -/
theorem getLast?_split (split : new = before ++ d :: after) (none' : after = []) : new.getLast? = some d := by
  rw [split, none', List.getLast?_append_cons]
  rfl

/-- **A `quit` line of the session itself** is its last, and makes it return `false`. -/
theorem SessionLog.quits (h : SessionLog k new r) (split : new = before ++ d :: after) (quit : d.Runs .quit)
    (level : d.depth = k) : after = [] ∧ r = some false := by
  have last : after = [] := by
    cases after with
    | nil => rfl
    | cons e more => exact absurd level ((h.followed split e rfl).1 quit)
  exact ⟨last, (h.last d (getLast?_split split last) level).1 quit⟩

/-- **A `quit` line further down** does not make the outermost call return `false`. -/
theorem SessionLog.quits_below (h : SessionLog 0 new r) (split : new = before ++ d :: after)
    (deep : d.depth ≠ 0) : ¬ (after = [] ∧ r = some false) := by
  rintro ⟨last, false'⟩
  obtain ⟨e, mem, -, level⟩ := h.quit false'
  rw [getLast?_split split last] at mem
  cases mem
  exact deep level

/-- **An `end` line** of any level. -/
theorem SessionLog.ends (h : SessionLog 0 new r) (split : new = before ++ d :: after) (end_ : d.Runs .end_) :
    (∀ e ∈ after.head?, e.depth < d.depth) ∧ (d.depth = 0 → r = some true) ∧
      (after = [] → r ≠ some false) := by
  have lower : ∀ e ∈ after.head?, e.depth < d.depth := fun e head => (h.followed split e head).2 end_
  refine ⟨lower, fun level => ?_, fun last false' => ?_⟩
  · have last : after = [] := by
      cases after with
      | nil => rfl
      | cons e more =>
        have below := lower e rfl
        omega
    exact (h.last d (getLast?_split split last) level).2 end_
  · obtain ⟨e, mem, quit, -⟩ := h.quit false'
    rw [getLast?_split split last] at mem
    cases mem
    have eq : some Command.quit = some .end_ := quit.symm.trans end_
    cases eq

end Sessions

/-- The calls that the main loop makes. -/
structure MainCalls (calls : List ConsoleCall) (main : MainLoop) : Prop where
  logs : ∀ call ∈ calls, SessionLog 0 call.dispatched call.result
  last : ∀ earlier call later, calls = earlier ++ call :: later → call.result = some false →
    later = [] ∧ main = .leftByConsole

/-- A single call, at which the loop stands or is left. -/
theorem MainCalls.single {call : ConsoleCall} {main : MainLoop}
    (log : SessionLog 0 call.dispatched call.result) (left : call.result = some false → main = .leftByConsole) :
    MainCalls [call] main := by
  constructor
  · intro other mem
    rw [List.mem_singleton.1 mem]
    exact log
  · intro earlier other later split false'
    obtain ⟨rfl, same⟩ | ⟨more, rfl, rest⟩ := List.append_eq_cons_iff.1 split.symm
    · cases same
      exact ⟨rfl, left false'⟩
    · cases (List.append_eq_nil_iff.1 rest.symm).2

/-- A call that has returned `true` in front of the others. -/
theorem MainCalls.cons {call : ConsoleCall} {calls : List ConsoleCall} {main : MainLoop}
    (log : SessionLog 0 call.dispatched call.result) (on : call.result = some true)
    (rest : MainCalls calls main) : MainCalls (call :: calls) main := by
  constructor
  · exact List.forall_mem_cons.2 ⟨log, rest.logs⟩
  · intro earlier other later split false'
    obtain ⟨rfl, same⟩ | ⟨more, rfl, behind⟩ := List.append_eq_cons_iff.1 split.symm
    · cases same
      rw [on] at false'
      cases false'
    · exact rest.last more other later behind false'

/-- **The main loop** calls `ConsoleMode` until it returns `false`. -/
theorem mainLoop_calls (env : Environment Node) (fuel : Nat) (screens : List (ScreenRun Node))
    (x : ConsoleRun Node) (top : x.state.batches = []) :
    MainCalls (mainLoop env fuel screens x).1 (mainLoop env fuel screens x).2 := by
  have none' : ∀ main, MainCalls [] main := by
    intro main
    refine ⟨fun call mem => (by cases mem), fun earlier call later split => ?_⟩
    cases (List.append_eq_nil_iff.1 split.symm).2
  induction screens generalizing x with
  | nil => exact none' _
  | cons screen screens ih =>
    unfold mainLoop
    split
    · exact none' _
    · obtain ⟨new, called⟩ := ConsoleRun.session_called env fuel { x with
          dispatched := []
          state := { x.state with szCurrentPath := screen.szCurrentPath, world := screen.world } }
      have log := called.log
      have dispatched := called.dispatched
      have closed := called.closed
      rw [List.nil_append] at dispatched
      have level : (0 : Nat) = x.state.batches.length := by rw [top]; rfl
      simp only [ConsoleRun.depth, ← level] at log
      rw [← dispatched] at log
      split
      · rename_i y running
        rw [running] at log
        exact .single log fun eq => by cases eq
      · rename_i y returned
        rw [returned] at log closed
        have outer : y.state.batches = [] := by
          rw [closed (Option.some_ne_none true), top]
          rfl
        exact .cons log rfl (ih y outer)
      · rename_i y left
        rw [left] at log
        exact .single log fun _ => rfl

/-- Where every `quit` line is the end, there is none in a batch file. -/
theorem MainCalls.outside {calls : List ConsoleCall} {main : MainLoop} (h : MainCalls calls main)
    (exits : QuitExits calls main) : QuitsOutside calls := by
  intro call mem d inside quit
  obtain ⟨earlier, later, split⟩ := List.append_of_mem mem
  obtain ⟨before, after, split'⟩ := List.append_of_mem inside
  obtain ⟨none', -, false', -⟩ := exits earlier call later before d after split split' quit
  apply Classical.byContradiction
  intro deep
  exact (h.logs call mem).quits_below split' deep ⟨none', false'⟩

/-- **`quit` leaves the system** from exactly where no batch file is open. -/
theorem quit_exits_iff (env : Environment Node) (fuel : Nat) (screens : List (ScreenRun Node))
    (x : ConsoleRun Node) (top : x.state.batches = []) :
    (QuitExits (mainLoop env fuel screens x).1 (mainLoop env fuel screens x).2 ∧
        EndEndsSession (mainLoop env fuel screens x).1) ↔
      QuitsOutside (mainLoop env fuel screens x).1 := by
  have calls := mainLoop_calls env fuel screens x top
  have logs := calls.logs
  have last := calls.last
  constructor
  · rintro ⟨exits, -⟩
    exact calls.outside exits
  · intro outside
    constructor
    · intro earlier call later before d after split split' quit
      have mem : call ∈ (mainLoop env fuel screens x).1 := by
        rw [split]
        exact List.mem_append_right _ List.mem_cons_self
      have inside : d ∈ call.dispatched := by
        rw [split']
        exact List.mem_append_right _ List.mem_cons_self
      have level := outside call mem d inside quit
      obtain ⟨none', false'⟩ := (logs call mem).quits split' quit level
      obtain ⟨rest, left⟩ := last earlier call later split false'
      exact ⟨none', rest, false', left⟩
    · intro call mem before d after split end_
      exact (logs call mem).ends split end_

instance (calls : List ConsoleCall) : Decidable (QuitsOutside calls) :=
  inferInstanceAs (Decidable (∀ call ∈ calls, ∀ d ∈ call.dispatched, d.Runs .quit → d.depth = 0))

/-- A call of `ScreenMode` that leaves the current path `\` and one file, whatever its path. -/
def screenOver (content : List UInt8) : ScreenRun Unit :=
  ⟨true, fresh.szCurrentPath, World.start fun _ => some content⟩

/-- The console before these lines are typed. -/
def beforeTyping (typed : List Str16) : ConsoleRun Unit := ⟨[], typed, fresh⟩

/-- The line `batch a`. -/
def batchLine : Str16 := Command.name .batch ++ [space, 97]

/-- A batch file with the line `cwd`, and `quit` behind it: the system is left. -/
theorem typed_quit_exits :
    QuitExits (mainLoop oneFileEnvironment 6 [screenOver [99, 119, 100]]
        (beforeTyping [batchLine, Command.name .quit])).1
      (mainLoop oneFileEnvironment 6 [screenOver [99, 119, 100]]
        (beforeTyping [batchLine, Command.name .quit])).2 ∧
    EndEndsSession (mainLoop oneFileEnvironment 6 [screenOver [99, 119, 100]]
        (beforeTyping [batchLine, Command.name .quit])).1 :=
  (quit_exits_iff oneFileEnvironment 6 [screenOver [99, 119, 100]]
    (beforeTyping [batchLine, Command.name .quit]) rfl).2 (by decide)

/-- A batch file with the line `quit`: the console dispatches `cwd` and `end` behind it. -/
theorem batch_quit_goes_on :
    (mainLoop oneFileEnvironment 7 [screenOver [113, 117, 105, 116]]
        (beforeTyping [batchLine, Command.name .cwd, Command.name .end_])).1.map
        (fun call => (call.dispatched.map fun d => (d.depth, dispatch d.szLine), call.result)) =
      [([(0, some .batch), (1, some .quit), (0, some .cwd), (0, some .end_)], some true)] ∧
    ¬ QuitExits (mainLoop oneFileEnvironment 7 [screenOver [113, 117, 105, 116]]
        (beforeTyping [batchLine, Command.name .cwd, Command.name .end_])).1
      (mainLoop oneFileEnvironment 7 [screenOver [113, 117, 105, 116]]
        (beforeTyping [batchLine, Command.name .cwd, Command.name .end_])).2 := by
  refine ⟨by decide, fun exits => ?_⟩
  have calls := mainLoop_calls oneFileEnvironment 7 [screenOver [113, 117, 105, 116]]
    (beforeTyping [batchLine, Command.name .cwd, Command.name .end_]) rfl
  exact absurd (calls.outside exits) (by decide)

end Lavoro.Console
