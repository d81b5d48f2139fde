import Lavoro.Lib.Reach
import Lavoro.Console.Mode

/-!
# Path buffers over a session

Console lines and key presses in the explorer make the current path longer and put paths together
from it, in `szPath`, in place in `szCurrentPath` and in the viewer's `szFilePath`. A session
stays inside these arrays exactly if in each step the path that is put together fits
(`session_contained_iff`).
-/

namespace Lavoro.Console
open Lib

variable {Node : Type} [DecidableEq Node]

/-- What `Input` stores: at most 255 units, none of them a NUL. -/
structure CommandLine where
  units : Str16
  short : units.length < maxPath
  clean : 0 ∉ units

/-- The console, and the array that the viewer has used last. -/
structure Session (Node : Type) where
  console : ConsoleState Node
  szFilePath : PathBuffer

/-- What makes or extends a path: a command, a disk or a directory that is entered, a file that is
viewed; `memory` is what the stack holds where `szFilePath` lies. -/
inductive PathAction where
  | command (line : CommandLine)
  | enterDisk
  | enterDirectory (name : Str16)
  | viewFile (memory : PathBuffer) (name : Str16)

/-- The paths of a command fit. -/
def CommandFits (cur mem : Str16) : Prop :=
  match dispatch mem with
  | some .cd => Fits cur (strAt mem 3)
  | some .cat => Fits cur (strAt mem 4)
  | some .rm => Fits cur (strAt mem 3)
  | some .mkdir => Fits cur (strAt mem 6)
  | some .batch => Fits cur (strAt mem 6)
  | some .cp =>
    let line := cutFrom cutFirst 3 mem
    Fits cur (strAt line 3) ∧ Fits cur (strAt line (strLen line + 1))
  | some .mv =>
    let line := cutFrom cutAll 3 mem
    Fits cur (strAt line 3) ∧ Fits cur (strAt line (strLen line + 1))
  | some .addline => Fits cur (strAt (cutFrom cutFirst 8 mem) 8)
  | _ => True

namespace Session

/-- `StrCat(b, L"\\")` where it is missing, and `StrCat(b, name)`. -/
def join (b : PathBuffer) (name : Str16) : PathBuffer := (separate b b.str).cat name

/-- The state in which the line has been stored. -/
def typed (line : CommandLine) (s : Session Node) : ConsoleState Node :=
  { s.console with szLine := s.console.szLine.put line.units }

def enter (szCurrentPath : PathBuffer) (s : Session Node) : Session Node :=
  { s with console := { s.console with szCurrentPath } }

/-- One action. -/
def act (env : Environment Node) (turns : Nat) (s : Session Node) : PathAction → Session Node
  | .command line => { s with console := (ConsoleState.exec env turns (s.typed line)).1 }
  | .enterDisk => s.enter (s.console.szCurrentPath.copy [backslash])
  | .enterDirectory name => s.enter (join s.console.szCurrentPath name)
  | .viewFile memory name =>
    let szFilePath : PathBuffer := { memory with overflow := s.szFilePath.overflow }
    { s with szFilePath := join (szFilePath.copy s.console.szCurrentPath.units) name }

/-- The path that an action puts together has room. -/
def Fitting (s : Session Node) : PathAction → Prop
  | .command line => CommandFits s.console.szCurrentPath.str (s.typed line).szLine.units
  | .enterDisk => True
  | .enterDirectory name =>
    (s.console.szCurrentPath.str ++ bar s.console.szCurrentPath.str ++ CString.text 0 name).length < maxPath
  | .viewFile _ name =>
    (s.console.szCurrentPath.str ++ bar s.console.szCurrentPath.str ++ CString.text 0 name).length < maxPath

end Session

/-- No write has gone past `szPath` or `szCurrentPath`, and the current path ends inside its array; it
has a last unit. -/
structure Held (st : ConsoleState Node) : Prop where
  szPath : st.szPath.overflow = false
  szCurrentPath : st.szCurrentPath.overflow = false
  ends : 0 ∈ st.szCurrentPath.units
  length : st.szCurrentPath.str.length ≤ 255
  some : st.szCurrentPath.str ≠ []

/-- The same of a session and its last `szFilePath`. -/
structure Contained (s : Session Node) : Prop where
  console : Held s.console
  szFilePath : s.szFilePath.overflow = false

/-- A session starts with the current path `\`. -/
structure Initial (s : Session Node) : Prop where
  szPath : s.console.szPath.overflow = false
  szCurrentPath : ∃ b : PathBuffer, b.overflow = false ∧ s.console.szCurrentPath = b.copy [backslash]
  szFilePath : s.szFilePath.overflow = false

/-! ## A command -/

section Commands

variable {env : Environment Node} {turns : Nat} {st st' : ConsoleState Node}

omit [DecidableEq Node] in
/-- Where the current path stays, only `szPath` is written. -/
theorem held_iff (h : Held st) (same : st'.szCurrentPath = st.szCurrentPath) :
    Held st' ↔ st'.szPath.overflow = false :=
  ⟨Held.szPath, fun szPath => {
    szPath
    szCurrentPath := by rw [same]; exact h.szCurrentPath
    ends := by rw [same]; exact h.ends
    length := by rw [same]; exact h.length
    some := by rw [same]; exact h.some }⟩

omit [DecidableEq Node] in
/-- A command without an argument. -/
theorem held_of_same (h : Held st) (same : st'.szCurrentPath = st.szCurrentPath) (path : st'.szPath = st.szPath) :
    Held st' ↔ True := by
  rw [held_iff h same, path, iff_true]
  exact h.szPath

omit [DecidableEq Node] in
/-- What a command does with its files touches no path. -/
theorem finish_held (st : ConsoleState Node) (t : Turn (World Node) (World Node)) :
    Held (st.finish t).1 ↔ Held st := by
  cases t <;> exact ⟨fun h => ⟨h.szPath, h.szCurrentPath, h.ends, h.length, h.some⟩,
    fun h => ⟨h.szPath, h.szCurrentPath, h.ends, h.length, h.some⟩⟩

omit [DecidableEq Node] in
/-- An argument of a command. -/
theorem locate_held (h : Held st) (szPath : PathBuffer) (mem : Str16) (i : Nat) :
    (locate szPath st.szCurrentPath (strAt mem i)).overflow = false ↔
      szPath.overflow = false ∧ Fits st.szCurrentPath.str (strAt mem i) :=
  locate_overflow (CString.nul_not_mem_text _) h.ends

omit [DecidableEq Node] in
/-- A command that works on the file of its argument. -/
theorem argument_held (h : Held st) (i : Nat) {x : ConsoleState Node}
    (same : x.szCurrentPath = st.szCurrentPath) (path : x.szPath = (st.locateAt i).szPath) :
    Held x ↔ Fits st.szCurrentPath.str (strAt st.szLine.units i) := by
  rw [held_iff h same, path]
  show (locate st.szPath st.szCurrentPath (strAt st.szLine.units i)).overflow = false ↔ _
  rw [locate_held h, and_iff_right h.szPath]

omit [DecidableEq Node] in
/-- `cd` to a path that fits. -/
theorem cd_sound (ends : st.szCurrentPath.Terminated)
    (fits : Fits st.szCurrentPath.str (strAt st.szLine.units 3)) :
    st.cd.szCurrentPath.str = resolve st.szCurrentPath.str (strAt st.szLine.units 3) ∧
      st.cd.szCurrentPath.Terminated ∧
      (st.cd.szCurrentPath.overflow = false ↔ st.szCurrentPath.overflow = false) := by
  let path := locate st.szPath st.szCurrentPath (strAt st.szLine.units 3)
  have resolved : path.str = resolve st.szCurrentPath.str (strAt st.szLine.units 3) :=
    (locate_sound (CString.nul_not_mem_text _) ends fits).1
  have room : (CString.text 0 path.units).length < maxPath := by
    show path.str.length < maxPath
    rwa [resolved]
  obtain ⟨str, ends'⟩ := CString.Field.copy_sound (b := st.szCurrentPath) room
  have overflow := CString.Field.copy_overflow st.szCurrentPath path.units
  exact ⟨str.trans resolved, ends', overflow.trans (and_iff_left room)⟩

omit [DecidableEq Node] in
theorem cd_held (h : Held st) : Held st.cd ↔ Fits st.szCurrentPath.str (strAt st.szLine.units 3) := by
  have szPath := locate_held h st.szPath st.szLine.units 3
  constructor
  · exact fun held => (szPath.1 held.szPath).2
  · intro fits
    obtain ⟨moved, ends, overflow⟩ := cd_sound h.ends fits
    exact {
      szPath := szPath.2 ⟨h.szPath, fits⟩
      szCurrentPath := overflow.2 h.szCurrentPath
      ends
      length := by rw [moved]; exact Nat.le_of_lt_succ fits
      some := by rw [moved]; exact resolve_ne_nil _ _ }

theorem copyFiles_held (h : Held st) (fw : Firmware Node) (cut : Str16 → Str16) (mode : OpenMode)
    (last : LFile Node × World Node → LFile Node × World Node) :
    Held (st.copyFiles fw turns cut mode last).1 ↔
      Fits st.szCurrentPath.str (strAt (cutFrom cut 3 st.szLine.units) 3) ∧
        Fits st.szCurrentPath.str
          (strAt (cutFrom cut 3 st.szLine.units) (strLen (cutFrom cut 3 st.szLine.units) + 1)) := by
  let first := locate st.szPath st.szCurrentPath (strAt (cutFrom cut 3 st.szLine.units) 3)
  rw [ConsoleState.copyFiles, finish_held]
  apply Iff.trans (held_iff h (by rfl))
  show (locate first st.szCurrentPath
    (strAt (cutFrom cut 3 st.szLine.units) (strLen (cutFrom cut 3 st.szLine.units) + 1))).overflow = false ↔ _
  rw [locate_held h, locate_held h, and_iff_right h.szPath]

theorem addText_held (h : Held st) (fw : Firmware Node) :
    Held (st.addText fw turns).1 ↔ Fits st.szCurrentPath.str (strAt (cutFrom cutFirst 8 st.szLine.units) 8) := by
  rw [ConsoleState.addText, finish_held]
  apply Iff.trans (held_iff h (by rfl))
  show (locate st.szPath st.szCurrentPath (strAt (cutFrom cutFirst 8 st.szLine.units) 8)).overflow = false ↔ _
  rw [locate_held h, and_iff_right h.szPath]

/-- **A command** stays inside the arrays exactly if its paths fit. -/
theorem exec_held (h : Held st) :
    Held (ConsoleState.exec env turns st).1 ↔ CommandFits st.szCurrentPath.str st.szLine.units := by
  have unchanged := iff_of_true h trivial
  unfold ConsoleState.exec CommandFits
  cases dispatch st.szLine.units with
  | none => exact unchanged
  | some c =>
    cases c with
    | box => exact unchanged
    | pyramids => exact unchanged
    | antTSP => exact unchanged
    | ls => exact (finish_held _ _).trans (held_of_same h (by rfl) (by rfl))
    | cd => exact cd_held h
    | cwd => exact unchanged
    | cat => exact (finish_held _ _).trans (argument_held h 4 rfl rfl)
    | connect => exact held_of_same h (by rfl) (by rfl)
    | accept => exact unchanged
    | filldemo => exact unchanged
    | printmodes => exact unchanged
    | quit => exact unchanged
    | end_ => exact unchanged
    | rm => exact (finish_held _ _).trans (argument_held h 3 rfl rfl)
    | cp => exact copyFiles_held h _ _ _ _
    | mv => exact copyFiles_held h _ _ _ _
    | addline => exact addText_held h _
    | mkdir => exact (finish_held _ _).trans (argument_held h 6 rfl rfl)
    | batch => exact argument_held h 6 rfl rfl

end Commands

/-! ## The explorer and the viewer -/

namespace Session

section Steps

variable {env : Environment Node} {turns : Nat} {s : Session Node} {b : PathBuffer} {name : Str16}

theorem join_contained (ends : b.Terminated) (some : b.str ≠ []) (name : Str16) :
    ((join b name).overflow = false ↔
      b.overflow = false ∧ (b.str ++ bar b.str ++ CString.text 0 name).length < maxPath) ∧
    ((b.str ++ bar b.str ++ CString.text 0 name).length < maxPath →
      (join b name).Terminated ∧ (join b name).str ≠ []) := by
  refine ⟨join_overflow rfl ends, fun fits => ?_⟩
  obtain ⟨str, ends'⟩ := join_sound rfl ends fits
  refine ⟨ends', fun empty => some ?_⟩
  rw [join, str] at empty
  exact (List.append_eq_nil_iff.1 (List.append_eq_nil_iff.1 empty).1).1

omit [DecidableEq Node] in
theorem enter_contained (h : Contained s) (ends : b.Terminated) (some : b.str ≠ []) :
    Contained (s.enter b) ↔ b.overflow = false :=
  ⟨fun held => held.console.szCurrentPath, fun szCurrentPath => {
    console := {
      szPath := h.console.szPath
      szCurrentPath
      ends
      length := Nat.le_of_lt_succ ends.length_lt
      some }
    szFilePath := h.szFilePath }⟩

/-- **One action** stays inside the arrays exactly if its path fits. -/
theorem act_contained (s : Session Node) (a : PathAction) (h : Contained s) :
    Contained (s.act env turns a) ↔ s.Fitting a := by
  have ends := h.console.ends
  have some := h.console.some
  cases a with
  | command line =>
    have stored : Held (s.typed line) := (held_iff h.console (by rfl)).2 h.console.szPath
    exact ⟨fun held => (exec_held stored).1 held.console, fun fits => ⟨(exec_held stored).2 fits, h.szFilePath⟩⟩
  | enterDisk =>
    obtain ⟨str, terminated⟩ := CString.Field.copy_sound (b := s.console.szCurrentPath)
      (show (CString.text 0 [backslash]).length < maxPath by decide)
    have path : (s.console.szCurrentPath.copy [backslash]).str ≠ [] := by
      rw [str]
      decide
    refine (enter_contained h terminated path).trans (iff_of_true ?_ trivial)
    exact (CString.Field.copy_overflow _ _).2 ⟨h.console.szCurrentPath, by decide⟩
  | enterDirectory name =>
    obtain ⟨overflow, path⟩ := join_contained ends some name
    constructor
    · exact fun held => (overflow.1 held.console.szCurrentPath).2
    · intro fits
      obtain ⟨terminated, some'⟩ := path fits
      exact (enter_contained h terminated some').2 (overflow.2 ⟨h.console.szCurrentPath, fits⟩)
  | viewFile memory name =>
    let szFilePath : PathBuffer := { memory with overflow := s.szFilePath.overflow }
    have room : (CString.text 0 s.console.szCurrentPath.units).length < maxPath :=
      CString.Field.Terminated.length_lt ends
    obtain ⟨str, terminated⟩ := CString.Field.copy_sound (b := szFilePath) room
    have held : (szFilePath.copy s.console.szCurrentPath.units).str = s.console.szCurrentPath.str := str
    obtain ⟨overflow, -⟩ := join_contained terminated (held ▸ some) name
    rw [held, CString.Field.copy_overflow] at overflow
    constructor
    · exact fun after => (overflow.1 after.szFilePath).2
    · exact fun fits => ⟨h.console, overflow.2 ⟨⟨h.szFilePath, room⟩, fits⟩⟩

omit [DecidableEq Node] in
theorem initial_contained (h : Initial s) : Contained s := by
  obtain ⟨b, fine, path⟩ := h.szCurrentPath
  have room : (CString.text 0 [backslash]).length < maxPath := by decide
  obtain ⟨str, ends⟩ := CString.Field.copy_sound (b := b) room
  rw [← path] at str ends
  exact {
    console := {
      szPath := h.szPath
      szCurrentPath := by
        rw [path]
        exact (CString.Field.copy_overflow _ _).2 ⟨fine, room⟩
      ends
      length := Nat.le_of_lt_succ ends.length_lt
      some := by
        rw [str]
        decide }
    szFilePath := h.szFilePath }

end Steps

/-- **A session stays inside the path buffers** exactly if in each step the path fits that is put
together. -/
theorem session_contained_iff (env : Environment Node) (turns : Nat) {s : Session Node} (start : Initial s)
    (actions : List PathAction) :
    (∀ t ∈ visited (act env turns) s actions, Contained t) ↔ AllowedRun (act env turns) Fitting s actions :=
  visited_iff act_contained actions (initial_contained start)

/-! ## Two sessions -/

/-- A disk without directories. -/
def emptyDisk : Environment Str16 where
  fw := flawless
  entries _ := []
  szBuffer := ⟨[], false⟩
  gop := true

/-- The start, with arrays of NULs. -/
def opening : Session Str16 where
  console := {
    szLine := ⟨0, []⟩
    szPath := blank
    szCurrentPath := blank.copy [backslash]
    remoteAddress := [0, 0, 0, 0]
    remotePort := 0
    batches := []
    opened := []
    world := World.start fun _ => none }
  szFilePath := blank

theorem opening_initial : Initial opening := ⟨rfl, ⟨blank, rfl, rfl⟩, rfl⟩

/-- The parent directory is entered under its name `..`. -/
theorem parent_contained :
    opening.Fitting (.enterDirectory (units ['.', '.'])) ∧
      ∀ t ∈ visited (act emptyDisk 0) opening [.enterDirectory (units ['.', '.'])], Contained t := by
  have fits : opening.Fitting (.enterDirectory (units ['.', '.'])) := by
    unfold Fitting
    decide +kernel
  exact ⟨fits, (session_contained_iff emptyDisk 0 opening_initial _).2 ⟨fits, trivial⟩⟩

/-- `cd` to a directory with a name of 200 characters. -/
def longLine : CommandLine where
  units := units ['c', 'd', ' '] ++ List.replicate 200 97
  short := by decide +kernel
  clean := by decide +kernel

/-- A second such `cd` goes past `szPath`. -/
theorem second_cd_overflows :
    ¬ ∀ t ∈ visited (act emptyDisk 0) opening [.command longLine, .command longLine], Contained t := by
  intro all
  obtain ⟨-, second, -⟩ := (visited_iff act_contained _ (initial_contained opening_initial)).1 all
  have runs : dispatch (typed longLine (act emptyDisk 0 opening (.command longLine))).szLine.units = some .cd := by
    decide +kernel
  simp only [Fitting, CommandFits, runs] at second
  revert second
  decide +kernel

end Session

end Lavoro.Console
