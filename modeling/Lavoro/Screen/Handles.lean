import Lavoro.Lib.Reach
import Lavoro.Console.Overflow
import Lavoro.Screen.Loads

/-!
# Runs over the files

In a run the console and the screen work on files, in any order, and every file may fail to open.
Whether an operation asks for a file that it needs is `FilesOpen`; what a run keeps in between are
the batches and the fonts that are being read (`Steady`). An operation makes no call through a
missing handle exactly if these files open (`missing_handle_iff`).
-/

namespace Lavoro
open Lib Console Screen

variable {Node : Type} [DecidableEq Node]

/-- What works on files. -/
inductive Operation where
  | round (typed : Str16)
  | explorer (l : Layout) (activeIndex : Int) (path : Str16)
  | viewText (path : Str16)
  | message (path : Str16)
  | bitmap (path : Str16) (headers : Uninitialised)
  | loadFonts (memory : LineBuffer)
  | fontStep (memory : LineBuffer) (headers : Uninitialised)

/-- The console, the arrays of the explorer page and the fonts that are being loaded. -/
structure Program (Node : Type) where
  console : ConsoleState Node
  page : Page
  fonts : Option (FontLoading Node)

namespace Program

def world (p : Program Node) : World Node := p.console.world

def withWorld (p : Program Node) (world : World Node) : Program Node :=
  { p with console := { p.console with world } }

/-- An operation; it is `again` where it would need more turns of a loop. -/
def act (env : Environment Node) (turns : Nat) (p : Program Node) : Operation → Turn (Program Node) (Program Node)
  | .round typed =>
    match ConsoleState.round env turns typed p.console with
    | (console, .unfinished) => .again { p with console }
    | (console, _) => .leave { p with console }
  | .explorer l activeIndex path =>
    (drawExplorer env l activeIndex turns path p.page p.world).map fun x => { p.withWorld x.2 with page := x.1 }
  | .viewText path => (viewText env.fw turns path p.world).map fun x => p.withWorld x.2
  | .message path => (message env.fw turns path p.world).map fun x => p.withWorld x.2
  | .bitmap path headers => .leave (p.withWorld (LBitmap.construct env.fw path headers p.world).2)
  | .loadFonts memory =>
    let x := loadFonts env.fw memory p.world
    .leave { p.withWorld x.2 with fonts := some x.1 }
  | .fontStep memory headers =>
    match p.fonts with
    | none => .leave p
    | some l =>
      (l.step env.fw turns memory headers p.world).map fun x => { p.withWorld x.2 with fonts := x.1 }

/-- The files open that an operation needs. -/
def FilesOpen (env : Environment Node) (p : Program Node) : Operation → Prop
  | .round _ => p.console.CommandOpens env
  | .explorer _ _ path => LFile.Opens env.fw path false p.world
  | .viewText path => LFile.Opens env.fw path false p.world
  | .message path => LFile.Opens env.fw path false p.world
  | .bitmap path _ => LFile.Opens env.fw path false p.world
  | .loadFonts _ => LFile.Opens env.fw fontsFile false p.world
  | .fontStep _ _ => ∀ l ∈ p.fonts, l.LineOpens env.fw p.world

/-- An operation that has been finished. -/
def Step (env : Environment Node) (p : Program Node) (op : Operation) (p' : Program Node) : Prop :=
  ∃ turns, act env turns p op = .leave p'

/-- No call has been made through a missing handle, and no file is open. -/
structure Starts (p : Program Node) : Prop where
  fine : p.world.trapped = false
  batches : p.console.batches = []
  fonts : p.fonts = none

/-- No call has been made through a missing handle, and the files that are open can be read. -/
structure Steady (p : Program Node) : Prop where
  console : p.console.Steady
  fonts : ∀ l ∈ p.fonts, l.Steady

section Operations

variable {env : Environment Node} {p : Program Node} {w : World Node}

omit [DecidableEq Node] in
@[simp] theorem world_withWorld (p : Program Node) (w : World Node) : (p.withWorld w).world = w := rfl

omit [DecidableEq Node] in
theorem Steady.withWorld (h : Steady p) (fine : w.trapped = false) : Steady (p.withWorld w) :=
  ⟨⟨fine, h.console.batches⟩, h.fonts⟩

theorem round_state (env : Environment Node) (turns : Nat) (p : Program Node) (typed : Str16) :
    (act env turns p (.round typed)).state =
      { p with console := (ConsoleState.round env turns typed p.console).1 } := by
  rcases ran : ConsoleState.round env turns typed p.console with ⟨console, control⟩
  cases control <;> simp only [act, ran, Turn.state]

/-- **One operation** makes no call through a missing handle exactly if its files open. -/
theorem act_neverTraps (h : Steady p) (op : Operation) :
    NeverTraps (fun turns => (act env turns p op).state.world) ↔ FilesOpen env p op := by
  have fine : p.world.trapped = false := h.console.fine
  cases op with
  | round typed =>
    simp only [round_state]
    exact ConsoleState.round_neverTraps typed h.console
  | explorer l activeIndex path =>
    simp only [act, Turn.state_map]
    exact drawExplorer_neverTraps l activeIndex p.page fine
  | viewText path =>
    simp only [act, Turn.state_map, world_withWorld]
    exact readUnits_neverTraps _ fine
  | message path =>
    simp only [act, Turn.state_map, world_withWorld]
    exact readUnits_neverTraps _ fine
  | bitmap path headers =>
    simp only [act, Turn.state, world_withWorld]
    exact forall_const Nat |>.trans (bitmap_trapped_iff headers fine)
  | loadFonts memory =>
    simp only [act, Turn.state]
    exact forall_const Nat |>.trans (loadFonts_trapped_iff memory fine)
  | fontStep memory headers =>
    simp only [act, FilesOpen]
    cases fonts : p.fonts with
    | none => exact iff_of_true (fun _ => fine) fun _ absent => by cases absent
    | some l =>
      simp only [Turn.state_map]
      apply (FontLoading.step_neverTraps memory headers (h.fonts l fonts) fine).trans
      simp

/-- Such an operation leaves what a run keeps. -/
theorem act_steady (h : Steady p) {op : Operation} (opens : FilesOpen env p op) (turns : Nat) :
    Steady (act env turns p op).state := by
  have fine := (act_neverTraps h op).2 opens turns
  cases op with
  | round typed =>
    rw [round_state]
    exact ⟨ConsoleState.round_steady typed h.console opens turns, h.fonts⟩
  | explorer l activeIndex path =>
    simp only [act, Turn.state_map] at fine ⊢
    exact ⟨⟨fine, h.console.batches⟩, h.fonts⟩
  | viewText path =>
    simp only [act, Turn.state_map, world_withWorld] at fine ⊢
    exact h.withWorld fine
  | message path =>
    simp only [act, Turn.state_map, world_withWorld] at fine ⊢
    exact h.withWorld fine
  | bitmap path headers =>
    simp only [act, Turn.state, world_withWorld] at fine ⊢
    exact h.withWorld fine
  | loadFonts memory =>
    simp only [act, Turn.state] at fine ⊢
    refine ⟨⟨fine, h.console.batches⟩, ?_⟩
    rintro _ ⟨⟩
    exact loadFonts_steady memory opens h.console.fine
  | fontStep memory headers =>
    simp only [act] at fine ⊢
    cases fonts : p.fonts with
    | none => exact h
    | some l =>
      simp only [fonts, Turn.state_map] at fine ⊢
      have moved := FontLoading.step_steady memory headers (h.fonts l fonts) h.console.fine (opens l fonts) turns
      exact ⟨⟨fine, h.console.batches⟩, moved.1⟩

end Operations

/-! ## Runs -/

/-- What the operations of a run have kept. -/
theorem reach_steady (env : Environment Node) {p : Program Node}
    (h : Reach (Step env) (FilesOpen env) Starts p) : Steady p := by
  apply h.invariant Steady
  · intro p start
    refine ⟨⟨start.fine, fun batch inside => ?_⟩, fun l inside => ?_⟩
    · rw [start.batches] at inside
      cases inside
    · rw [start.fonts] at inside
      cases inside
  · rintro p op p' steady opens ⟨turns, finished⟩
    have kept := act_steady steady opens turns
    rw [finished] at kept
    exact kept

/-- **No call goes through a missing handle** in a run whose operations all find the files that
they need, and what comes next makes no such call, however far it gets, exactly if it finds its own. -/
theorem missing_handle_iff (env : Environment Node) {p : Program Node}
    (h : Reach (Step env) (FilesOpen env) Starts p) :
    p.world.trapped = false ∧
      ∀ op, NeverTraps (fun turns => (act env turns p op).state.world) ↔ FilesOpen env p op :=
  ⟨(reach_steady env h).console.fine, act_neverTraps (reach_steady env h)⟩

/-- A start with the line `line` typed, on a disk that holds `fonts.txt` and no other file. -/
def opening (line : Str16) : Program Str16 where
  console := { Session.opening.console with
    szLine := ⟨0, line⟩
    world := World.start fun path => if path = fontsFile then some [] else none }
  page := Page.blank (fun _ => false) (fun _ => [])
  fonts := none

theorem opening_starts (line : Str16) : Starts (opening line) := ⟨rfl, rfl, rfl⟩

/-- `LoadFonts()` has opened `fonts.txt`. -/
def loading : Program Str16 := (act Session.emptyDisk 0 (opening []) (.loadFonts ⟨0, []⟩)).state

theorem loading_missing_handle_iff :
    loading.world.trapped = false ∧ ∀ op,
      NeverTraps (fun turns => (act Session.emptyDisk turns loading op).state.world) ↔
        FilesOpen Session.emptyDisk loading op := by
  have opens : FilesOpen Session.emptyDisk (opening []) (.loadFonts ⟨0, []⟩) :=
    ⟨by decide, rfl, .inr (by decide +kernel)⟩
  exact missing_handle_iff Session.emptyDisk (.next (.start (opening_starts [])) opens ⟨0, rfl⟩)

/-- `cat a`, where there is no such file. -/
theorem cat_missing_handle :
    ¬ NeverTraps fun turns =>
      (act Session.emptyDisk turns (opening (units ['c', 'a', 't', ' ', 'a'])) (.round [])).state.world := by
  intro never
  have steady := reach_steady Session.emptyDisk (.start (opening_starts (units ['c', 'a', 't', ' ', 'a'])))
  have opens := (act_neverTraps steady _).1 never
  have runs : dispatch (units ['c', 'a', 't', ' ', 'a']) = some .cat := by decide +kernel
  simp only [FilesOpen, ConsoleState.CommandOpens, opening, runs] at opens
  obtain ⟨-, -, created | there⟩ := opens
  · cases created
  · revert there
    decide +kernel

end Program

end Lavoro
