import Lavoro.Console.Overflow
import Lavoro.Console.Resolution
import Lavoro.File.Initialize
import Lavoro.Screen.Selection

/-!
# The current path in the explorer and in the console

`ScreenMode` and `ConsoleMode` take turns and share `szCurrentPath`: selecting a disk sets it to
`\`, entering a directory makes it longer, and `cd` puts the path of its argument there. `efi_main`
allocates it, and `InitializeFileSystem` sets it to `\` unless it finds no file system; but then
`efi_main` does not get to its loop, since it opens its configuration through a NULL interface. So the
path is absolute on every page and in every console (`stays_absolute`).
-/

namespace Lavoro.Console
open Lib

/-- Where the user is: a screen without a disk (`FileInterface` is NULL), one with a disk, or the
console. -/
inductive Place where
  | disks
  | files
  | console
  deriving Repr, DecidableEq

structure Shell where
  place : Place
  szCurrentPath : Str16
  deriving Repr, DecidableEq

/-- What the user does: Enter on a disk, whose entry of `FileInterfaces` may be NULL, and on a
directory, F2 on the page of files, Escape, a line on the console, and the end of `ConsoleMode`. -/
inductive ShellEvent where
  | selectDisk (found : Bool)
  | enterDirectory (name : Str16)
  | showDisks
  | escape
  | line (szLine : Str16)
  | leave
  deriving Repr

namespace Shell

/-- `efi_main` up to its loop, where `new` has left `memory` in `szCurrentPath`. `config.txt` is opened with
`AssetsFileInterface` as `FileInterface`, and where that is NULL the call of `OpenVolume` is the end (`none`). -/
def start (v : Volumes) (table : Nat → Option Nat) (memory : Str16) : Option Shell :=
  let fs := initializeFileSystem v table (.start memory)
  fs.assetsFileInterface.map fun _ => ⟨.disks, fs.szCurrentPath⟩

/-- One event; where it cannot occur nothing happens. -/
def act (s : Shell) : ShellEvent → Shell
  | .selectDisk found =>
    if s.place = .disks then ⟨if found then .files else .disks, [backslash]⟩ else s
  | .enterDirectory name =>
    if s.place = .files then { s with szCurrentPath := s.szCurrentPath ++ bar s.szCurrentPath ++ name } else s
  | .showDisks => if s.place = .files then { s with place := .disks } else s
  | .escape => { s with place := .console }
  | .line szLine =>
    if s.place = .console ∧ dispatch szLine = some .cd then
      { s with szCurrentPath := cdPath s.szCurrentPath szLine }
    else s
  | .leave => if s.place = .console then { s with place := .disks } else s

/-- The path is absolute, so that it has a last unit, and the commands resolve their arguments alike. -/
structure WellPathed (s : Shell) : Prop where
  long : s.szCurrentPath ≠ []
  absolute : s.szCurrentPath.head? = some backslash
  agree : PathsAgree s.szCurrentPath

/-! ## Events -/

theorem wellPathed_of_absolute {s : Shell} (absolute : s.szCurrentPath.head? = some backslash) : WellPathed s where
  long empty := by
    rw [empty] at absolute
    cases absolute
  absolute
  agree := paths_agree s.szCurrentPath

/-- An absolute path stays one. -/
theorem act_absolute (s : Shell) (e : ShellEvent) (absolute : s.szCurrentPath.head? = some backslash) :
    (s.act e).szCurrentPath.head? = some backslash := by
  cases e with
  | selectDisk found =>
    rw [act]
    split
    · rfl
    · exact absolute
  | enterDirectory name =>
    rw [act]
    split
    · show (s.szCurrentPath ++ bar s.szCurrentPath ++ name).head? = _
      rw [List.append_assoc, List.head?_append, absolute]
      rfl
    · exact absolute
  | showDisks =>
    rw [act]
    split <;> exact absolute
  | escape => exact absolute
  | line szLine =>
    rw [act]
    split
    · exact head?_resolve absolute _
    · exact absolute
  | leave =>
    rw [act]
    split <;> exact absolute

/-- Where `efi_main` gets to its loop, a file system has been found. -/
theorem start_path {v : Volumes} {table : Nat → Option Nat} {memory : Str16} {s : Shell}
    (started : start v table memory = some s) : s.szCurrentPath = [backslash] := by
  obtain ⟨i, assets, rfl⟩ := Option.map_eq_some_iff.1 started
  cases missing : efiError v.located with
  | false => rw [initializeFileSystem_szCurrentPath, missing, if_neg Bool.false_ne_true, backslash]
  | true =>
    rw [initializeFileSystem_nothing missing] at assets
    cases assets

/-- **The current path stays absolute**, in every run of pages and consoles, whatever the firmware answers and the
memory held, and the commands resolve their arguments alike. -/
theorem stays_absolute {v : Volumes} {table : Nat → Option Nat} {memory : Str16} {s : Shell}
    (started : start v table memory = some s) (events : List ShellEvent) :
    ∀ t ∈ visited act s events, WellPathed t := by
  have absolute : s.szCurrentPath.head? = some backslash := by rw [start_path started]; rfl
  intro t mem
  exact wellPathed_of_absolute (visited_keeps act_absolute events absolute t mem)

/-- One disk, with the assets. -/
def assetsDisk : Volumes where
  located := efiSuccess
  handles := [10]
  handleProtocol _ := .serving 5
  assets _ := true

/-- `\a`, and then `cd b`. -/
theorem path_behind_cd : ∃ s, start assetsDisk (fun _ => none) [] = some s ∧
    ∀ t ∈ visited act s [.selectDisk true, .enterDirectory [97], .escape, .line [99, 100, 32, 98, 0]],
      WellPathed t := by
  have started : start assetsDisk (fun _ => none) [] = some ⟨.disks, [backslash]⟩ := rfl
  exact ⟨_, started, stays_absolute started _⟩

end Shell

/-! ## The screen and the console -/

/-- Where the explorer is. -/
def shellOf (s : Screen.Explorer) : Shell :=
  ⟨if s.fileInterface = none then .disks else .files, s.szCurrentPath⟩

section Screen

open Screen

variable {m : Machine} {s t : Explorer}

/-- Drawing a page leaves the disk and the path. -/
theorem shellOf_draw {szBuffer : DirEntry} {entries : List DirEntry} {fuel : Nat}
    (h : s.draw m szBuffer entries fuel = some t) : shellOf t = shellOf s := by
  have chosen : shellOf s.chooseFile = shellOf s := by
    unfold Explorer.chooseFile
    repeat' split
    all_goals rfl
  unfold Explorer.draw at h
  split at h
  · rw [← Option.some.inj h]
    rfl
  · obtain ⟨r, -, rfl⟩ := Option.map_eq_some_iff.1 h
    rfl
  · split at h
    · rw [← Option.some.inj h]
      rfl
    · rw [← Option.some.inj h]
      exact chosen
  · rw [← Option.some.inj h]
    rfl

/-- Enter on a disk selects it, unless there is none at the index. -/
theorem shellOf_enterDisk (none : s.fileInterface = none) :
    shellOf (s.enterDisk m) = shellOf s ∨ ∃ found, shellOf (s.enterDisk m) = (shellOf s).act (.selectDisk found) := by
  have place : (shellOf s).place = .disks := if_pos none
  unfold Explorer.enterDisk
  split
  · exact .inl rfl
  · split
    · exact .inl rfl
    · rename_i disk _
      refine .inr ⟨disk.isSome, ?_⟩
      rw [Shell.act, if_pos place]
      cases disk <;> rfl

/-- Enter on an entry enters it where it is a directory. -/
theorem shellOf_enterEntry (some : s.fileInterface ≠ none) :
    shellOf s.enterEntry = shellOf s ∨ ∃ name, shellOf s.enterEntry = (shellOf s).act (.enterDirectory name) := by
  have place : (shellOf s).place = .files := if_neg some
  unfold Explorer.enterEntry
  split
  · exact .inl rfl
  · split
    · exact .inl rfl
    · rename_i name _
      refine .inr ⟨name, ?_⟩
      rw [Shell.act, if_pos place]
      rfl
  · exact .inl rfl

/-- **Every step of `ScreenMode`** leaves the disk and the path or is an event on them. -/
theorem shellOf_step {a : Action} (h : Step m s a t) :
    shellOf t = shellOf s ∨ ∃ e, shellOf t = (shellOf s).act e := by
  have shown : ∀ page, shellOf (s.showPage page) = shellOf s := by
    intro page
    unfold Explorer.showPage
    split <;> rfl
  have moved : ∀ index, shellOf (s.moveTo index) = shellOf s := by
    intro index
    unfold Explorer.moveTo
    split <;> rfl
  cases a with
  | draw szBuffer entries =>
    obtain ⟨-, fuel, drawn⟩ := h
    exact .inl (shellOf_draw drawn)
  | key k =>
    obtain ⟨-, handled⟩ := h
    cases k <;> simp only [Explorer.handleKey, reduceCtorEq, Option.some.injEq] at handled <;> subst handled
    case f1 => exact .inl (shown _)
    case f2 =>
      split
      · refine .inr ⟨.showDisks, ?_⟩
        by_cases none : s.fileInterface = none
        · simp [shellOf, Shell.act, none]
        · simp [shellOf, Shell.act, none]
      · exact .inl (shown _)
    case f3 => exact .inl (shown _)
    case f10 => exact .inl (shown _)
    case enter =>
      split
      · split
        · rename_i none
          obtain same | ⟨found, selected⟩ := shellOf_enterDisk (m := m) none
          · exact .inl same
          · exact .inr ⟨_, selected⟩
        · rename_i some
          obtain same | ⟨name, entered⟩ := shellOf_enterEntry some
          · exact .inl same
          · exact .inr ⟨_, entered⟩
      · exact .inl rfl
    case up => exact .inl (moved _)
    case down => exact .inl (moved _)
    case left => exact .inl (moved _)
    case right => exact .inl (moved _)
    case other => exact .inl rfl

end Screen

/-- **Every command** of the console does to the path what its line does, where `cd` has room. -/
theorem exec_szCurrentPath {Node : Type} [DecidableEq Node] {env : Environment Node} {turns : Nat}
    {st : ConsoleState Node} (ends : st.szCurrentPath.Terminated)
    (fits : dispatch st.szLine.units = some .cd → Fits st.szCurrentPath.str (strAt st.szLine.units 3)) :
    (st.exec env turns).1.szCurrentPath.str =
      (Shell.act ⟨.console, st.szCurrentPath.str⟩ (.line st.szLine.units)).szCurrentPath := by
  by_cases cd : dispatch st.szLine.units = some .cd
  · have goes : (Shell.act ⟨.console, st.szCurrentPath.str⟩ (.line st.szLine.units)).szCurrentPath =
        cdPath st.szCurrentPath.str st.szLine.units := by
      rw [Shell.act, if_pos (And.intro rfl cd)]
    rw [goes, ConsoleState.exec, cd]
    exact (cd_sound ends (fits cd)).1
  · have stays : (Shell.act ⟨.console, st.szCurrentPath.str⟩ (.line st.szLine.units)).szCurrentPath =
        st.szCurrentPath.str := by
      rw [Shell.act, if_neg fun both => cd both.2]
    rw [stays]
    unfold ConsoleState.exec
    split <;> first
      | rfl
      | exact congrArg CString.Field.str (ConsoleState.finish_szCurrentPath _ _)
      | exact absurd ‹_› cd

end Lavoro.Console
