import Lavoro.Console.Turns

/-!
# Calls and rounds

`session` follows the calls of `ConsoleMode` one inside the other, `run` goes through rounds with the
open files on a stack. They are the same console: what a call comes to, the rounds come to.
-/

namespace Lavoro.Console
open Lib

variable {Node : Type} [DecidableEq Node] {env : Environment Node} {n t : Nat}

namespace ConsoleState

/-- The rounds behind one that ended so. -/
def proceed (env : Environment Node) (turns : Nat) (more : List Str16) :
    ConsoleState Node × Control → ConsoleState Node × Control
  | (st, .next) => run env turns more st
  | ended => ended

theorem run_cons (typed : Str16) (more : List Str16) (st : ConsoleState Node) :
    run env t (typed :: more) st = proceed env t more (round env t typed st) := by
  rw [run]
  split
  · rename_i st' on
    rw [on]
    rfl
  · rename_i ended
    unfold proceed
    split
    · rename_i st' on
      exact absurd on (ended st')
    · rfl

omit [DecidableEq Node] in
/-- Leaving the innermost file at its end comes before leaving the others. -/
theorem leaveEnded_close {st : ConsoleState Node} (ended : st.atBatchEnd = true) :
    st.close.leaveEnded = st.leaveEnded := by
  unfold atBatchEnd at ended
  unfold leaveEnded close
  split at ended
  · cases ended
  · rename_i batch outer top
    simp only [top, List.tail_cons, List.dropWhile_cons, ended, if_true]

omit [DecidableEq Node] in
theorem leaveEnded_going {st : ConsoleState Node} (going : st.atBatchEnd = false) : st.leaveEnded = st := by
  have same : (st.batches.dropWhile fun batch => Reader.atEnd batch.reader) = st.batches := by
    unfold atBatchEnd at going
    split at going
    · rename_i top
      rw [top, List.dropWhile_nil]
    · rename_i batch outer top
      rw [top, List.dropWhile_cons_of_neg (by simp [going])]
  rw [leaveEnded, same]

end ConsoleState

namespace ConsoleRun

variable {x y z u v : ConsoleRun Node} {o : Outcome} {r : Bool}

/-- The rounds from the line of `z` on come to the end of a round of `u`, whatever follows. -/
def Comes (env : Environment Node) (t : Nat) (z u : ConsoleRun Node) : Prop :=
  ∃ lines, ∀ typed more, ConsoleState.run env t (lines ++ typed :: more) z.state =
    ConsoleState.proceed env t more (u.state.leaveEnded.readNext env.fw t typed)

omit [DecidableEq Node] in
/-- Reading a line, as the rounds do it. -/
theorem read_readNext {fw : Firmware Node} (h : x.read fw t = some z) :
    ∃ typed, x.state.readNext fw t typed = (z.state, .next) := by
  unfold read at h
  split at h
  · cases h
  · rename_i line typed top _
    cases h
    refine ⟨line, ?_⟩
    rw [ConsoleState.readNext, top]
  · split at h
    · rename_i state ran
      cases h
      exact ⟨[], ran⟩
    · cases h

omit [DecidableEq Node] in
theorem roundEnd_leaveEnded (h : y.roundEnd = (u, o)) :
    u.state.leaveEnded = y.state.leaveEnded ∧ (o = .goesOn → u.state.leaveEnded = u.state) := by
  rcases roundEnd_cases y with ⟨on, going⟩ | ⟨left, ended, -⟩
  · rw [on] at h
    cases h
    exact ⟨rfl, fun _ => ConsoleState.leaveEnded_going going⟩
  · rw [left] at h
    cases h
    exact ⟨ConsoleState.leaveEnded_close ended, fun eq => by cases eq⟩

/-- The round of `z`, whose command takes no part in another call. -/
theorem comes_of_round (h : ∀ typed, ConsoleState.round env t typed z.state =
    u.state.leaveEnded.readNext env.fw t typed) : Comes env t z u := by
  refine ⟨[], fun typed more => ?_⟩
  rw [List.nil_append, ConsoleState.run_cons, h]

/-- Behind the round of `u` comes that of the line read next. -/
theorem Comes.reads (h : Comes env t z u) (going : u.state.leaveEnded = u.state)
    (line : u.read env.fw t = some v) :
    ∃ lines, ∀ rest, ConsoleState.run env t (lines ++ rest) z.state = ConsoleState.run env t rest v.state := by
  obtain ⟨first, rounds⟩ := h
  obtain ⟨typed, next⟩ := read_readNext line
  refine ⟨first ++ [typed], fun rest => ?_⟩
  rw [List.append_assoc, List.singleton_append, rounds, going, next]
  rfl

/-- The rounds up to `z` and those from there on. -/
theorem Comes.prepend (h : Comes env t v u)
    (first : ∃ lines, ∀ rest, ConsoleState.run env t (lines ++ rest) z.state = ConsoleState.run env t rest v.state) :
    Comes env t z u := by
  obtain ⟨lines, before⟩ := first
  obtain ⟨lines', after'⟩ := h
  refine ⟨lines ++ lines', fun typed more => ?_⟩
  rw [List.append_assoc, before, after']

/-- **The round of a command**, where the calls that it makes come to what rounds come to. -/
theorem command_comes {nested : ConsoleRun Node → ConsoleRun Node × Option Bool} (le : n ≤ t)
    (calls : ∀ y w r, nested y = (w, some r) → y.depth ≠ 0 → ∃ v, y.read env.fw t = some v ∧ Comes env t v w)
    (ran : z.command env n nested = (u, o)) (done : o ≠ .unfinished) (inner : z.depth ≠ 0 ∨ o = .goesOn) :
    Comes env t z u ∧ (o = .goesOn → u.state.leaveEnded = u.state) := by
  have executed := exec_executed env n z.state
  have more : (ConsoleState.exec env n z.state).2 ≠ .unfinished → _ := ConsoleState.exec_more le
  unfold command at ran
  cases executing : ConsoleState.exec env n z.state with
  | mk state control =>
    rw [executing] at ran executed more
    cases control with
    | unfinished =>
      cases ran
      exact absurd rfl done
    | leave =>
      cases ran
      have deep : z.depth ≠ 0 := inner.resolve_right fun eq => by cases eq
      have same := executed.leave
      refine ⟨comes_of_round fun typed => ?_, fun eq => by cases eq⟩
      have top : state.batches ≠ [] := by
        rw [same]
        exact fun none' => deep (List.length_eq_zero_iff.2 none')
      obtain ⟨batch, outer, top⟩ := List.exists_cons_of_ne_nil top
      rw [ConsoleState.round, more fun eq => by cases eq]
      simp only [top, ConsoleState.close, List.tail_cons]
    | next =>
      obtain ⟨ended, going⟩ := roundEnd_leaveEnded ran
      refine ⟨comes_of_round fun typed => ?_, going⟩
      rw [ConsoleState.round, more (fun eq => by cases eq), ended]
    | enter =>
      simp only at ran
      split at ran
      · cases ran
        exact absurd rfl done
      · rename_i y r returned
        obtain ⟨ended, going⟩ := roundEnd_leaveEnded ran
        have deep : ({ z.noted with state } : ConsoleRun Node).depth ≠ 0 :=
          fun zero => executed.enter.1 (List.length_eq_zero_iff.1 zero)
        obtain ⟨v, line, comes⟩ := calls _ y r returned deep
        refine ⟨?_, going⟩
        have entered : Comes env t z y := by
          apply comes.prepend
          obtain ⟨typed, next⟩ := read_readNext line
          refine ⟨[typed], fun rest => ?_⟩
          rw [List.singleton_append, ConsoleState.run_cons, ConsoleState.round, more fun eq => by cases eq]
          simp only at next ⊢
          rw [next]
          rfl
        obtain ⟨lines, rounds⟩ := entered
        exact ⟨lines, fun typed more => by rw [rounds, ended]⟩

/-- **A call on a file.** -/
theorem session_comes (le : n ≤ t) (returned : x.session env n = (y, some r)) (deep : x.depth ≠ 0) :
    ∃ z, x.read env.fw t = some z ∧ Comes env t z y := by
  induction n generalizing x y r with
  | zero => cases returned
  | succ n ih =>
    have shorter : n ≤ t := Nat.le_of_succ_le le
    have calls : ∀ a w r, session env n a = (w, some r) → a.depth ≠ 0 →
        ∃ v, a.read env.fw t = some v ∧ Comes env t v w := fun a w r => ih shorter
    unfold session at returned
    cases line : x.read env.fw n with
    | none =>
      rw [line] at returned
      cases returned
    | some z =>
      rw [line] at returned
      have level := (read_lineRead line).depth
      refine ⟨z, read_more shorter line, ?_⟩
      have inner : z.depth ≠ 0 := by rwa [level]
      simp only at returned
      split at returned
      · rename_i u on
        obtain ⟨comes, going⟩ := command_comes shorter calls on (fun eq => by cases eq) (.inl inner)
        obtain ⟨new, round⟩ := command_session_round env n z
        rw [on] at round
        have same : u.depth = x.depth := (congrArg List.length (round.goesOn rfl).1).trans level
        obtain ⟨v, next, later⟩ := ih shorter returned (by rwa [same])
        exact later.prepend (comes.reads (going rfl) next)
      · rename_i u b left
        cases returned
        exact (command_comes shorter calls left (fun eq => by cases eq) (.inl inner)).1
      · cases returned

/-- Where no file is open, only the command itself can make the call return. -/
theorem command_leaves {b : Bool} (top : z.state.batches = [])
    (ran : z.command env n (session env n) = (u, .returned b)) :
    ConsoleState.exec env n z.state = (u.state, .leave) ∧ u.state.batches = [] := by
  have executed := exec_executed env n z.state
  have stays : ∀ {w : ConsoleRun Node}, w.roundEnd = (u, .returned b) → w.state.batches ≠ [] := by
    intro w ended none'
    rcases roundEnd_cases w with ⟨on, -⟩ | ⟨-, -, deep⟩
    · rw [on] at ended
      cases ended
    · exact deep (List.length_eq_zero_iff.2 none')
  unfold command at ran
  cases executing : ConsoleState.exec env n z.state with
  | mk state control =>
    rw [executing] at ran executed
    cases control with
    | unfinished => cases ran
    | leave =>
      cases ran
      have same := executed.leave
      have closed : state.close = state := by
        rw [ConsoleState.close, same, top, List.tail_nil, ← top]
      rw [closed]
      exact ⟨rfl, by rw [same, top]⟩
    | next => exact absurd (executed.next.trans top) (stays ran)
    | enter =>
      simp only at ran
      split at ran
      · cases ran
      · rename_i w r returned
        obtain ⟨new, called⟩ := session_called env n { z.noted with state }
        have closed := called.closed
        rw [returned] at closed
        have same : state.batches.tail = [] := executed.enter.2.trans top
        exact absurd ((closed (Option.some_ne_none r)).trans same) (stays ran)

/-- **A call at the keyboard** that returns is a run that leaves, to the same state. -/
theorem session_run (le : n ≤ t) (returned : x.session env n = (y, some r)) (top : x.state.batches = []) :
    ∃ z lines, x.read env.fw t = some z ∧ ConsoleState.run env t lines z.state = (y.state, .leave) := by
  induction n generalizing x y r with
  | zero => cases returned
  | succ n ih =>
    have shorter : n ≤ t := Nat.le_of_succ_le le
    have calls : ∀ a w r, session env n a = (w, some r) → a.depth ≠ 0 →
        ∃ v, a.read env.fw t = some v ∧ Comes env t v w := fun a w r => session_comes shorter
    unfold session at returned
    cases line : x.read env.fw n with
    | none =>
      rw [line] at returned
      cases returned
    | some z =>
      rw [line] at returned
      obtain ⟨new, round⟩ := command_session_round env n z
      have level : z.depth = 0 := by
        rw [(read_lineRead line).depth, depth, top]
        rfl
      simp only at returned
      split at returned
      · rename_i u on
        obtain ⟨comes, going⟩ := command_comes shorter calls on (fun eq => by cases eq) (.inr rfl)
        rw [on] at round
        have same : u.state.batches = [] := (round.goesOn rfl).1.trans (List.length_eq_zero_iff.1 level)
        obtain ⟨v, lines, next, later⟩ := ih shorter returned same
        obtain ⟨first, before⟩ := comes.reads (going rfl) next
        exact ⟨z, first ++ lines, read_more shorter line, (before lines).trans later⟩
      · rename_i u b left
        cases returned
        refine ⟨z, [[]], read_more shorter line, ?_⟩
        obtain ⟨leaves, none'⟩ := command_leaves (List.length_eq_zero_iff.1 level) left
        have done : (ConsoleState.exec env n z.state).2 ≠ .unfinished := by
          rw [leaves]
          exact fun eq => by cases eq
        have more := (ConsoleState.exec_more shorter done).trans leaves
        rw [ConsoleState.run_cons, ConsoleState.round, more]
        simp only [none', ConsoleState.proceed]
      · cases returned

end ConsoleRun

end Lavoro.Console
