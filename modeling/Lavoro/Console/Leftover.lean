import Lavoro.Console.Arguments

/-!
# What an older line has left in `szLine`

Two states that differ only in what stands behind the NUL of the line agree. A line is self-contained
if its command finds all its arguments in front of that NUL; then executing it keeps the
agreement, and so do whole runs over such lines.
-/

namespace Lavoro.Console
open Lib

variable {Node : Type} [DecidableEq Node]

/-- The line holds all that its command looks at. -/
def SelfContained (line : Str16) : Prop :=
  match dispatch line with
  | some .cd => 3 ≤ line.length
  | some .cat => 4 ≤ line.length
  | some .rm => 3 ≤ line.length
  | some .mkdir => 6 ≤ line.length
  | some .batch => 6 ≤ line.length
  | some .cp => space ∈ line.drop 3
  | some .mv => space ∈ line.drop 3
  | some .addline => space ∈ line.drop 8
  | some .connect => 4 ≤ gaps (line.drop 8)
  | _ => True

/-- Two states that differ in what stands behind the NUL of the line. -/
def Agree (st st' : ConsoleState Node) : Prop :=
  ∃ base line rest rest', 0 ∉ line ∧
    st = ConsoleState.holding base (line ++ 0 :: rest) ∧ st' = ConsoleState.holding base (line ++ 0 :: rest')

/-- They are left behind by commands that go on in the same way. -/
def AgreeOn (x y : ConsoleState Node × Control) : Prop := Agree x.1 y.1 ∧ x.2 = y.2

namespace ConsoleState

section Agreement

variable {env : Environment Node} {turns : Nat} {base : ConsoleState Node} {line : Str16}

omit [DecidableEq Node] in
/-- A NUL may also stand inside. -/
theorem agree_holding (base : ConsoleState Node) (x rest rest' : Str16) :
    Agree (base.holding (x ++ 0 :: rest)) (base.holding (x ++ 0 :: rest')) := by
  by_cases nul : 0 ∈ x
  · obtain ⟨behind, shape⟩ := CString.eq_text_append nul
    refine ⟨base, CString.text 0 x, behind ++ 0 :: rest, behind ++ 0 :: rest', CString.nul_not_mem_text x, ?_, ?_⟩
    · rw [← List.cons_append, ← List.append_assoc, ← shape]
    · rw [← List.cons_append, ← List.append_assoc, ← shape]
  · exact ⟨base, x, rest, rest', nul, rfl, rfl⟩

omit [DecidableEq Node] in
theorem agreeOn_finish (base : ConsoleState Node) (x rest rest' : Str16) (t : Turn (World Node) (World Node)) :
    AgreeOn ((base.holding (x ++ 0 :: rest)).finish t) ((base.holding (x ++ 0 :: rest')).finish t) := by
  cases t with
  | again w => exact ⟨agree_holding { base with world := w } x rest rest', rfl⟩
  | leave w => exact ⟨agree_holding { base with world := w } x rest rest', rfl⟩

omit [DecidableEq Node] in
/-- An argument inside the line. -/
theorem locateAt_holding {x : Str16} {i : Nat} (inside : i ≤ x.length) (base : ConsoleState Node) (rest : Str16) :
    (base.holding (x ++ 0 :: rest)).locateAt i =
      ((base.holding x).locateAt i).holding (x ++ 0 :: rest) := by
  have inLine := strAt_append inside rest
  simp only [locateAt, holding, inLine]

/-- The copies of a line with a second argument. -/
theorem agreeOn_copyFiles {cut : Str16 → Str16} (cuts : Cuts cut) (two : space ∈ line.drop 3) (rest rest' : Str16)
    (fw : Firmware Node) (mode : OpenMode) (last : LFile Node × World Node → LFile Node × World Node) :
    AgreeOn ((base.holding (line ++ 0 :: rest)).copyFiles fw turns cut mode last)
      ((base.holding (line ++ 0 :: rest')).copyFiles fw turns cut mode last) := by
  obtain ⟨inside, first, second⟩ := two_arguments cuts two
  let x := cutFrom cut 3 line
  let src := locate base.szPath base.szCurrentPath (strAt x 3)
  let dst := locate src base.szCurrentPath (strAt x (strLen x + 1))
  have shape : ∀ behind : Str16, (base.holding (line ++ 0 :: behind)).copyFiles fw turns cut mode last =
      (holding { base with
        szPath := dst
        opened := base.opened ++ [(src.str, mode)] ++ [(dst.str, .createFile)] } (x ++ 0 :: behind)).finish
        (copyThen fw turns last src.str dst.str base.world) := by
    intro behind
    simp only [copyFiles, holding, locateAt, asks, cutFrom_append cuts inside, strAt_append first, strLen_append,
      strAt_append second]
    rfl
  rw [shape, shape]
  exact agreeOn_finish _ x rest rest' _

theorem agreeOn_addText (two : space ∈ line.drop 8) (rest rest' : Str16) (fw : Firmware Node) :
    AgreeOn ((base.holding (line ++ 0 :: rest)).addText fw turns)
      ((base.holding (line ++ 0 :: rest')).addText fw turns) := by
  obtain ⟨inside, first, second⟩ := two_arguments cutFirst_cuts two
  let x := cutFrom cutFirst 8 line
  let path := locate base.szPath base.szCurrentPath (strAt x 8)
  have shape : ∀ behind : Str16, (base.holding (line ++ 0 :: behind)).addText fw turns =
      (holding { base with
        szPath := path
        opened := base.opened ++ [(path.str, .createFile)] } (x ++ 0 :: behind)).finish
        (addline fw turns path.str (strAt x (strLen x + 1)) base.world) := by
    intro behind
    simp only [addText, holding, locateAt, asks, cutFrom_append cutFirst_cuts inside, strAt_append first, strLen_append,
      strAt_append second]
    rfl
  rw [shape, shape]
  exact agreeOn_finish _ x rest rest' _

omit [DecidableEq Node] in
theorem agree_connect (enough : 4 ≤ gaps (line.drop 8)) (rest rest' : Str16) :
    Agree (base.holding (line ++ 0 :: rest)).connect (base.holding (line ++ 0 :: rest')).connect := by
  have inside : 8 ≤ line.length := by
    have bound : gaps (line.drop 8) ≤ (line.drop 8).length := List.countP_le_length
    rw [List.length_drop] at bound
    omega
  let x := numbers 4 (line.drop 8)
  have shape : ∀ behind : Str16, (base.holding (line ++ 0 :: behind)).connect =
      holding { base with
        remoteAddress := x.1
        remotePort := port base.remotePort x.2 } (line ++ 0 :: behind) := by
    intro behind
    simp only [connect, holding, List.drop_append_of_le_length inside, numbers_inside enough, port_append]
    rfl
  rw [shape, shape]
  exact agree_holding _ line rest rest'

/-- **A self-contained line** does the same whatever stands behind it. -/
theorem exec_agrees (self : SelfContained line) (rest rest' : Str16) :
    AgreeOn (exec env turns (base.holding (line ++ 0 :: rest))) (exec env turns (base.holding (line ++ 0 :: rest'))) := by
  have chosen : ∀ behind : Str16, dispatch (line ++ 0 :: behind) = dispatch line := fun behind =>
    dispatch_congr (strAt_append (Nat.zero_le _) behind)
  have unchanged := agree_holding base line rest rest'
  unfold exec
  simp only [show ∀ units, (base.holding units).szLine.units = units from fun _ => rfl, chosen]
  unfold SelfContained at self
  cases command : dispatch line with
  | none => exact ⟨unchanged, rfl⟩
  | some c =>
    rw [command] at self
    cases c with
    | box => exact ⟨unchanged, rfl⟩
    | pyramids => exact ⟨unchanged, rfl⟩
    | antTSP => exact ⟨unchanged, rfl⟩
    | ls =>
      exact agreeOn_finish (base.asks base.szCurrentPath.str .read) line rest rest'
        (ls env.fw env.entries env.szBuffer turns base.szCurrentPath.str base.world)
    | cd =>
      let b := (base.holding line).locateAt 3
      simp only [cd, locateAt_holding self]
      exact ⟨agree_holding { b with szCurrentPath := b.szCurrentPath.copy b.szPath.units } line rest rest', rfl⟩
    | cwd => exact ⟨unchanged, rfl⟩
    | cat =>
      let b := (base.holding line).locateAt 4
      simp only [locateAt_holding self]
      exact agreeOn_finish (b.asks b.szPath.str .read) line rest rest' (cat env.fw turns b.szPath.str b.world)
    | connect => exact ⟨agree_connect self rest rest', rfl⟩
    | accept => exact ⟨unchanged, rfl⟩
    | filldemo => exact ⟨unchanged, rfl⟩
    | printmodes => exact ⟨unchanged, rfl⟩
    | quit => exact ⟨unchanged, rfl⟩
    | end_ => exact ⟨unchanged, rfl⟩
    | rm =>
      let b := (base.holding line).locateAt 3
      simp only [locateAt_holding self]
      exact agreeOn_finish (b.asks b.szPath.str .readWrite) line rest rest' (.leave (rm env.fw b.szPath.str b.world))
    | cp => exact agreeOn_copyFiles cutFirst_cuts self rest rest' _ _ _
    | mv => exact agreeOn_copyFiles cutAll_cuts self rest rest' _ _ _
    | addline => exact agreeOn_addText self rest rest' _
    | mkdir =>
      let b := (base.holding line).locateAt 6
      simp only [locateAt_holding self]
      exact agreeOn_finish (b.asks b.szPath.str .createDirectory) line rest rest'
        (.leave (mkdir env.fw b.szPath.str b.world))
    | batch =>
      let b := (base.holding line).locateAt 6
      let file := LFile.construct env.fw b.szPath.str false b.world
      simp only [enterBatch, locateAt_holding self]
      exact ⟨agree_holding { b.asks b.szPath.str .read with
        batches := file.1 :: b.batches
        world := file.2 } line rest rest', rfl⟩

/-! ## Rounds -/

omit [DecidableEq Node] in
/-- The next line is written over what was there. -/
theorem readNext_agrees {st st' : ConsoleState Node} (h : Agree st st') (typed : Str16) :
    AgreeOn (readNext env.fw turns typed st) (readNext env.fw turns typed st') := by
  obtain ⟨base, line, rest, rest', clean, rfl, rfl⟩ := h
  have put : ∀ (b : ConsoleState Node) (units : Str16),
      Agree { b with szLine := (LineBuffer.put ⟨b.szLine.before, line ++ 0 :: rest⟩ units) }
        { b with szLine := (LineBuffer.put ⟨b.szLine.before, line ++ 0 :: rest'⟩ units) } :=
    fun b units => agree_holding b units _ _
  unfold readNext
  simp only [holding]
  cases base.batches with
  | nil => exact ⟨put { base with batches := [] } typed, rfl⟩
  | cons batch outer =>
    simp only
    cases LFile.readLine env.fw turns (batch, base.world) with
    | again x => exact ⟨⟨{ base with batches := x.2.1 :: outer, world := x.2.2 }, line, rest, rest', clean, rfl, rfl⟩, rfl⟩
    | leave x =>
      let b : ConsoleState Node := { base with batches := x.2.1 :: outer, world := x.2.2 }
      refine ⟨?_, rfl⟩
      simp only [LineBuffer.readInto]
      cases x.1.getLast? with
      | none =>
        simp only
        split
        · exact agree_holding { b with szLine := ⟨0, []⟩ } line rest rest'
        · exact put b []
      | some c =>
        simp only
        split
        · exact put b _
        · exact put b _

omit [DecidableEq Node] in
theorem leaveEnded_agrees {st st' : ConsoleState Node} (h : Agree st st') : Agree st.leaveEnded st'.leaveEnded := by
  obtain ⟨base, line, rest, rest', clean, rfl, rfl⟩ := h
  exact ⟨base.leaveEnded, line, rest, rest', clean, rfl, rfl⟩

/-- **A round** whose line is self-contained. -/
theorem round_agrees {st st' : ConsoleState Node} (h : Agree st st') (self : SelfContained (strAt st.szLine.units 0))
    (typed : Str16) : AgreeOn (round env turns typed st) (round env turns typed st') := by
  obtain ⟨base, line, rest, rest', clean, rfl, rfl⟩ := h
  have shown : strAt (base.holding (line ++ 0 :: rest)).szLine.units 0 = line := strAt_line clean rest
  rw [shown] at self
  obtain ⟨same, control⟩ : AgreeOn (exec env turns (base.holding (line ++ 0 :: rest)))
      (exec env turns (base.holding (line ++ 0 :: rest'))) := exec_agrees self rest rest'
  unfold round
  generalize exec env turns (base.holding (line ++ 0 :: rest)) = x at *
  generalize exec env turns (base.holding (line ++ 0 :: rest')) = y at *
  obtain ⟨x, going⟩ := x
  obtain ⟨y, going'⟩ := y
  obtain rfl : going = going' := control
  cases going with
  | next => exact readNext_agrees (leaveEnded_agrees same) typed
  | enter => exact readNext_agrees same typed
  | unfinished => exact ⟨same, rfl⟩
  | leave =>
    obtain ⟨b, l, r, r', clean', rfl, rfl⟩ := same
    simp only [holding]
    cases b.batches with
    | nil => exact ⟨⟨{ b with batches := [] }, l, r, r', clean', rfl, rfl⟩, rfl⟩
    | cons batch outer =>
      have left : Agree (holding { b with batches := outer } (l ++ 0 :: r))
          (holding { b with batches := outer } (l ++ 0 :: r')) := ⟨_, l, r, r', clean', rfl, rfl⟩
      exact readNext_agrees (leaveEnded_agrees left) typed

/-- Every line that the run executes is self-contained. -/
def SelfContainedRun (env : Environment Node) (turns : Nat) : List Str16 → ConsoleState Node → Prop
  | [], _ => True
  | typed :: more, st =>
    SelfContained (strAt st.szLine.units 0) ∧
      ((round env turns typed st).2 = .next → SelfContainedRun env turns more (round env turns typed st).1)

/-- **A run** over such lines. -/
theorem run_agrees (typed : List Str16) {st st' : ConsoleState Node} (h : Agree st st')
    (self : SelfContainedRun env turns typed st) : AgreeOn (run env turns typed st) (run env turns typed st') := by
  induction typed generalizing st st' with
  | nil => exact ⟨h, rfl⟩
  | cons line more ih =>
    obtain ⟨here, later⟩ := self
    obtain ⟨same, going⟩ : AgreeOn (round env turns line st) (round env turns line st') := round_agrees h here line
    unfold run
    generalize round env turns line st = x at *
    generalize round env turns line st' = y at *
    obtain ⟨s, on⟩ := x
    obtain ⟨t, on'⟩ := y
    obtain rfl : on = on' := going
    cases on with
    | next => exact ih same (later rfl)
    | enter => exact ⟨same, rfl⟩
    | leave => exact ⟨same, rfl⟩
    | unfinished => exact ⟨same, rfl⟩

end Agreement

end ConsoleState

end Lavoro.Console
