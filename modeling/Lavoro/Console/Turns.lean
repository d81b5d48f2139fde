import Mathlib.Logic.Relation
import Lavoro.Console.Nesting

/-!
# Longer watches

A console that is watched for longer does the same, only more of it: a command, a line that is read
and a call of `ConsoleMode` that have come to an end stay as they are. So the rounds of a call do
not depend on how long it is watched, and a call that returns is one whose commands all return.
-/

namespace Lavoro.Console
open Lib

variable {Node : Type} [DecidableEq Node] {env : Environment Node} {m n : Nat}

namespace ConsoleState

variable {st : ConsoleState Node}

omit [DecidableEq Node] in
theorem finish_more {t t' : Turn (World Node) (World Node)} (h : t.Settles t')
    (done : (st.finish t).2 ≠ .unfinished) : st.finish t' = st.finish t := by
  cases t with
  | again w => exact absurd rfl done
  | leave w => rw [h w rfl]

/-- **A command that has come to an end.** -/
theorem exec_more (le : n ≤ m) (done : (exec env n st).2 ≠ .unfinished) : exec env m st = exec env n st := by
  unfold exec at done ⊢
  cases runs : dispatch st.szLine.units with
  | none => rfl
  | some c =>
    rw [runs] at done
    cases c
    case ls => exact finish_more ((Loop.after_settles _ _ le).map _) done
    case cat => exact finish_more ((Loop.after_settles _ _ le).map _) done
    case cp => exact finish_more (((Loop.after_settles _ _ le).andThen _).map _) done
    case mv => exact finish_more (((Loop.after_settles _ _ le).andThen _).map _) done
    case addline => exact finish_more (((Loop.after_settles _ _ le).andThen _).map _) done
    all_goals rfl

end ConsoleState

namespace ConsoleRun

variable {x y z u v : ConsoleRun Node}

omit [DecidableEq Node] in
/-- **A line that has been read.** -/
theorem read_more {fw : Firmware Node} (le : n ≤ m) (line : x.read fw n = some z) :
    x.read fw m = some z := by
  unfold read ConsoleState.readNext at line ⊢
  cases open' : x.state.batches with
  | nil =>
    rw [open'] at line
    exact line
  | cons batch outer =>
    rw [open'] at line
    simp only at line ⊢
    cases first : LFile.readLine fw n (batch, x.state.world) with
    | again s =>
      rw [first] at line
      cases line
    | leave s =>
      rw [first] at line
      have later : LFile.readLine fw m (batch, x.state.world) = .leave s := Loop.after_settles _ _ le s first
      rw [later]
      exact line

/-- **A round that has come to an end**, where the calls that have come to an end stay as they are. -/
theorem command_more {nested nested' : ConsoleRun Node → ConsoleRun Node × Option Bool} (le : n ≤ m)
    (calls : ∀ y, (nested y).2 ≠ none → nested' y = nested y)
    (done : (x.command env n nested).2 ≠ .unfinished) : x.command env m nested' = x.command env n nested := by
  unfold command at done ⊢
  cases ran : ConsoleState.exec env n x.state with
  | mk state control =>
    rw [ran] at done
    have more : control ≠ .unfinished → ConsoleState.exec env m x.state = (state, control) := by
      intro other
      rw [← ran]
      apply ConsoleState.exec_more le
      rwa [ran]
    cases control with
    | unfinished => exact absurd rfl done
    | leave => rw [more (by decide)]
    | next => rw [more (by decide)]
    | enter =>
      rw [more (by decide)]
      simp only at done ⊢
      have same := calls { x.noted with state }
      cases called : nested { x.noted with state } with
      | mk y result =>
        rw [called] at done same
        cases result with
        | none => exact absurd rfl done
        | some result => rw [same (Option.some_ne_none result)]

/-- **A call that has returned.** -/
theorem session_more (le : n ≤ m) (done : (x.session env n).2 ≠ none) :
    x.session env m = x.session env n := by
  induction n generalizing m x with
  | zero => exact absurd rfl done
  | succ n ih =>
    obtain ⟨m, rfl⟩ : ∃ k, m = k + 1 := ⟨m - 1, by omega⟩
    have shorter : n ≤ m := by omega
    unfold session at done ⊢
    cases line : x.read env.fw n with
    | none =>
      rw [line] at done
      exact absurd rfl done
    | some z =>
      rw [line] at done
      rw [read_more shorter line]
      have same : (z.command env n (session env n)).2 ≠ .unfinished →
          z.command env m (session env m) = z.command env n (session env n) :=
        command_more shorter fun y => ih shorter
      simp only at done ⊢
      cases round : z.command env n (session env n) with
      | mk y outcome =>
        rw [round] at done same
        cases outcome with
        | goesOn =>
          rw [same fun eq => by cases eq]
          exact ih shorter done
        | returned result => rw [same fun eq => by cases eq]
        | unfinished => exact absurd rfl done

theorem session_unique (done : (x.session env n).2 ≠ none) (done' : (x.session env m).2 ≠ none) :
    x.session env n = x.session env m := by
  rw [← session_more (Nat.le_max_left n m) done, session_more (Nat.le_max_right n m) done']

/-! ## The rounds of a call -/

/-- A round from the head of the loop of `ConsoleMode` to its head again. -/
def Rounds (env : Environment Node) (x y : ConsoleRun Node) : Prop :=
  ∃ turns z, x.read env.fw turns = some z ∧ z.command env turns (session env turns) = (y, .goesOn)

/-- The loop of a call comes to its head with `y`. -/
def Reached (env : Environment Node) : ConsoleRun Node → ConsoleRun Node → Prop :=
  Relation.ReflTransGen (Rounds env)

/-- Every command that the call dispatches returns. -/
def CommandsReturn (env : Environment Node) (x : ConsoleRun Node) : Prop :=
  ∀ y turns z, Reached env x y → y.read env.fw turns = some z →
    ∃ turns, (z.command env turns (session env turns)).2 ≠ .unfinished

/-- A command that has come to an end stays as it is. -/
theorem command_session_more (le : n ≤ m) (done : (x.command env n (session env n)).2 ≠ .unfinished) :
    x.command env m (session env m) = x.command env n (session env n) :=
  command_more le (fun _ => session_more le) done

/-- **A round is determined.** -/
theorem Rounds.unique (h : Rounds env x y) (line : x.read env.fw n = some z)
    (done : (z.command env n (session env n)).2 ≠ .unfinished) :
    z.command env n (session env n) = (y, .goesOn) := by
  obtain ⟨turns, z', line', round⟩ := h
  have first := read_more (Nat.le_max_left turns n) line'
  rw [read_more (Nat.le_max_right turns n) line] at first
  cases first
  have done' : (z.command env turns (session env turns)).2 ≠ .unfinished := by
    rw [round]
    exact fun eq => by cases eq
  have once := command_session_more (Nat.le_max_left turns n) done'
  rw [command_session_more (Nat.le_max_right turns n) done, round] at once
  exact once

/-- Where the loop comes to, from the end of its first round. -/
theorem Reached.after_round (h : Reached env x y) (line : x.read env.fw n = some z)
    (done : (z.command env n (session env n)).2 ≠ .unfinished) :
    y = x ∨ ∃ u, z.command env n (session env n) = (u, .goesOn) ∧ Reached env u y := by
  rcases Relation.ReflTransGen.cases_head h with rfl | ⟨u, round, rest⟩
  · exact .inl rfl
  · exact .inr ⟨u, round.unique line done, rest⟩

/-- A call whose first round returns. -/
theorem session_of_returned {b : Bool} (line : x.read env.fw n = some z)
    (left : z.command env n (session env n) = (y, .returned b)) : x.session env (n + 1) = (y, some b) := by
  simp only [session, line, left]

/-- A call whose first round goes on, from where the call then returns. -/
theorem session_of_goesOn {r : Bool} (line : x.read env.fw n = some z)
    (on : z.command env n (session env n) = (y, .goesOn)) (later : y.session env m = (v, some r)) :
    ∃ turns, x.session env turns = (v, some r) := by
  have first := read_more (Nat.le_max_left n m) line
  have done : (z.command env n (session env n)).2 ≠ .unfinished := by
    rw [on]
    exact fun eq => by cases eq
  have round := command_session_more (Nat.le_max_left n m) done
  have rest := session_more (x := y) (Nat.le_max_right n m) (by rw [later]; exact Option.some_ne_none r)
  rw [on] at round
  rw [later] at rest
  exact ⟨max n m + 1, by simp only [session, first, round, rest]⟩

/-- What a call that has returned has done first. -/
theorem session_returned (done : (x.session env n).2 ≠ none) :
    ∃ turns z, x.read env.fw turns = some z ∧ (z.command env turns (session env turns)).2 ≠ .unfinished ∧
      ∀ y, z.command env turns (session env turns) = (y, .goesOn) → (y.session env turns).2 ≠ none := by
  cases n with
  | zero => exact absurd rfl done
  | succ n =>
    unfold session at done
    cases line : x.read env.fw n with
    | none =>
      rw [line] at done
      exact absurd rfl done
    | some z =>
      rw [line] at done
      simp only at done
      refine ⟨n, z, line, fun unfinished => ?_, fun y on => ?_⟩
      · split at done
        · rename_i on
          rw [on] at unfinished
          cases unfinished
        · rename_i returned
          rw [returned] at unfinished
          cases unfinished
        · exact absurd rfl done
      · rw [on] at done
        exact done

/-- A call that returns returns from wherever its loop comes to. -/
theorem Reached.returns (h : Reached env x y) (done : (x.session env n).2 ≠ none) :
    ∃ turns, (y.session env turns).2 ≠ none := by
  induction h with
  | refl => exact ⟨n, done⟩
  | tail _ round ih =>
    obtain ⟨turns, done⟩ := ih
    obtain ⟨turns, z, line, ended, later⟩ := session_returned done
    exact ⟨turns, later _ (round.unique line ended)⟩

/-- **The commands of a call that returns** return. -/
theorem commandsReturn_of_returned (done : (x.session env n).2 ≠ none) : CommandsReturn env x := by
  intro y turns z reached line
  obtain ⟨turns', done⟩ := reached.returns done
  obtain ⟨turns', z', line', ended, -⟩ := session_returned done
  have first := read_more (Nat.le_max_left turns turns') line
  rw [read_more (Nat.le_max_right turns turns') line'] at first
  cases first
  exact ⟨turns', ended⟩

end ConsoleRun

end Lavoro.Console
