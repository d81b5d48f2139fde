import Lavoro.File.Initialize
import Lavoro.Screen.Selection

/-!
# The disks

The explorer lists as many disks as `InitializeFileSystem` has counted, under their numbers, and Enter takes the cell
of the table whose number is the name. The number finds the right cell, but a handle whose `HandleProtocol` failed has
a disk on the page like any other.
-/

namespace Lavoro.Screen
open Lib

/-- The machine on which `ScreenMode` runs, with the table that `InitializeFileSystem` has left. -/
def machineOf (l : Layout) (v : Volumes) (memory : Nat → Option Nat) (szCurrentPath : Str16) : Machine :=
  let fs := initializeFileSystem v memory (.start szCurrentPath)
  ⟨l, (List.range fs.fileInterfacesCount.toNat).map fs.fileInterfaces⟩

/-- As long as no array has been exceeded, a page drawn while no disk is chosen shows the disks, and the arrays hold
them. -/
def Lists (m : Machine) (s : Explorer) : Prop :=
  s.fault = false → s.activePageDrawn = true → s.activePage = .explorer → s.fileInterface = none →
    s.explorerCount = m.fileInterfaces.length ∧
      Holds s.explorerTypes s.explorerNames (Listing.disks m.fileInterfaces.length).entries

section Steps

variable {m : Machine} {s t : Explorer}

/-- A page that is not drawn is no page of disks. -/
theorem lists_of_not_drawn (fresh : s.activePageDrawn = false) : Lists m s :=
  fun _ drawn => absurd (fresh.symm.trans drawn) Bool.false_ne_true

theorem lists_of_page (page : s.activePage ≠ .explorer) : Lists m s := fun _ _ explorer => absurd explorer page

theorem lists_of_fault (fault : s.fault = true) : Lists m s :=
  fun fine => absurd (fine.symm.trans fault) Bool.false_ne_true

/-- **A drawing** lists the disks where it draws them. -/
theorem lists_draw {szBuffer : DirEntry} {entries : List DirEntry} {fuel : Nat}
    (h : s.draw m szBuffer entries fuel = some t) : Lists m t := by
  by_cases page : s.activePage = .explorer
  · obtain ⟨p, drawn, rfl⟩ := draw_explorer page h
    intro fine _ _ noDisk
    have noDisk : s.fileInterface = none := noDisk
    have listing : (s.listing m entries).entries = (Listing.disks m.fileInterfaces.length).entries := by
      rw [Explorer.listing, if_pos noDisk]
    rw [listing] at drawn
    have long : (Listing.disks m.fileInterfaces.length).entries.length = m.fileInterfaces.length := by
      simp [Listing.entries]
    obtain ⟨-, fits⟩ := Bool.or_eq_false_iff.1 fine
    have room : (Listing.disks m.fileInterfaces.length).entries.length ≤ explorerSlots := by
      apply Nat.le_of_not_lt
      intro beyond
      rw [drawn.fault.2 beyond] at fits
      cases fits
    refine ⟨?_, (drawn.shown room).2⟩
    show p.explorerCount = _
    rw [drawn.count, long]
  · -- the other pages leave the page as it is
    apply lists_of_page
    have kept : s.chooseFile.activePage = s.activePage := by
      unfold Explorer.chooseFile
      repeat' split
      all_goals rfl
    unfold Explorer.draw at h
    split at h
    · rw [← Option.some.inj h]
      exact page
    · rename_i explorer
      exact absurd explorer page
    · split at h
      · rw [← Option.some.inj h]
        exact page
      · rw [← Option.some.inj h]
        show s.chooseFile.activePage ≠ .explorer
        rw [kept]
        exact page
    · rw [← Option.some.inj h]
      exact page

theorem lists_showPage (h : Lists m s) (page : ActivePage) : Lists m (s.showPage page) := by
  unfold Explorer.showPage
  split
  · exact h
  · exact lists_of_not_drawn rfl

theorem lists_moveTo (h : Lists m s) (index : Int) : Lists m (s.moveTo index) := by
  unfold Explorer.moveTo
  split
  · exact lists_of_not_drawn rfl
  · exact h

theorem lists_enterDisk : Lists m (s.enterDisk m) := by
  unfold Explorer.enterDisk
  split
  · exact lists_of_fault rfl
  · split
    · exact lists_of_fault rfl
    · exact lists_of_not_drawn rfl

theorem lists_enterEntry : Lists m s.enterEntry := by
  unfold Explorer.enterEntry
  split
  · exact lists_of_fault rfl
  · split
    · exact lists_of_fault rfl
    · exact lists_of_not_drawn rfl
  · exact lists_of_not_drawn rfl

/-- **A key** leaves the page, has it drawn again or leaves it alone. -/
theorem lists_key (h : Lists m s) {k : Key} (handled : s.handleKey m k = some t) : Lists m t := by
  cases k <;> simp only [Explorer.handleKey, reduceCtorEq, Option.some.injEq] at handled <;> subst handled
  case f1 => exact lists_showPage h .help
  case f2 =>
    split
    · exact lists_of_not_drawn rfl
    · exact lists_showPage h .explorer
  case f3 => exact lists_showPage h .viewer
  case f10 => exact lists_showPage h .readme
  case enter =>
    split
    · split
      · exact lists_enterDisk
      · exact lists_enterEntry
    · exact h
  case up => exact lists_moveTo h _
  case down => exact lists_moveTo h _
  case left => exact lists_moveTo h _
  case right => exact lists_moveTo h _
  case other => exact h

end Steps

/-- In every state that any run reaches. -/
theorem lists_of_reach {m : Machine} {s : Explorer} (h : Reach (Step m) (fun _ _ => True) Initial s) : Lists m s := by
  refine h.invariant (Lists m) (fun _ start => lists_of_not_drawn start.activePageDrawn) ?_
  rintro s (⟨szBuffer, entries⟩ | k) t listed - taken
  · obtain ⟨-, fuel, drawn⟩ := taken
    exact lists_draw drawn
  · exact lists_key listed taken.2

/-! ## Enter on a disk -/

section Enter

variable {l : Layout} {v : Volumes} {memory : Nat → Option Nat} {szCurrentPath : Str16} {m : Machine} {s : Explorer}

theorem machineOf_nothing (missing : efiError v.located = true) :
    (machineOf l v memory szCurrentPath).fileInterfaces = [] := by
  rw [machineOf, initializeFileSystem_nothing missing]
  rfl

/-- The table has a cell for each handle. -/
theorem machineOf_length (found : efiError v.located = false) :
    (machineOf l v memory szCurrentPath).fileInterfaces.length = v.handles.length := by
  have count := (initializeFileSystem_filled memory found (.start szCurrentPath)).count
  rw [machineOf, List.length_map, List.length_range, count]
  simp [FileSystem.start]

/-- What the cell of a handle holds. -/
theorem machineOf_cell (found : efiError v.located = false) {i : Nat} (inside : i < v.handles.length) :
    (machineOf l v memory szCurrentPath).fileInterfaces[i]? =
      some ((v.handleProtocol v.handles[i]).stored.getD (memory i)) := by
  have filled := initializeFileSystem_filled memory found (.start szCurrentPath)
  have long : (machineOf l v memory szCurrentPath).fileInterfaces.length = v.handles.length := machineOf_length found
  have cell := filled.done i _ inside (List.getElem?_eq_getElem inside)
  have here : i < (machineOf l v memory szCurrentPath).fileInterfaces.length := by omega
  rw [List.getElem?_eq_getElem here]
  simp [machineOf, cell]

/-- Enter on the disk `i`, the arrays holding what the page lists. -/
theorem enterDisk_eq {i : Nat} {cell : Option Nat}
    (holds : Holds s.explorerTypes s.explorerNames (Listing.disks m.fileInterfaces.length).entries)
    (index : s.explorerActiveIndex = i) (there : m.fileInterfaces[i]? = some cell) :
    s.enterDisk m = { s with fileInterface := cell, szCurrentPath := [92], activePageDrawn := false } := by
  obtain ⟨inside, -⟩ := List.getElem?_eq_some_iff.1 there
  have listed : i < (Listing.disks m.fileInterfaces.length).entries.length := by simpa [Listing.entries] using inside
  have name : s.explorerNames.at? s.explorerActiveIndex = some (decimal i) := by
    rw [index, (holds i listed).2]
    simp [Listing.entries]
  simp only [Explorer.enterDisk, name, atoi_decimal, there]

theorem enterDisk_fault (fault : s.fault = true) : (s.enterDisk m).fault = true := by
  unfold Explorer.enterDisk
  split
  · rfl
  · split
    · rfl
    · exact fault

theorem enter_eq (page : s.activePage = .explorer) (noDisk : s.fileInterface = none) :
    s.handleKey m .enter = some (s.enterDisk m) := by
  simp [Explorer.handleKey, page, noDisk]

/-- Enter, on the explorer page, sets `FileInterface` to an interface obtained for the handle at the selected
position, and no array has been exceeded. -/
def EnterSelects (m : Machine) (v : Volumes) (s : Explorer) : Prop :=
  ∃ t handle i, s.handleKey m .enter = some t ∧ t.fault = false ∧
    v.handles[s.explorerActiveIndex.toNat]? = some handle ∧ v.Obtained handle i ∧ t.fileInterface = some i

/-- `HandleProtocol` succeeded for the handle of the selected disk, and no array has been exceeded. -/
def Selectable (v : Volumes) (s : Explorer) : Prop :=
  s.fault = false ∧ ∃ handle, v.handles[s.explorerActiveIndex.toNat]? = some handle ∧
    efiError (v.handleProtocol handle).status = false

end Enter

/-- **Disk selection is valid** exactly where `HandleProtocol` succeeded for the handle of the disk: whatever the
handles, the answers, the memory and the run, in every state that lists the selected disk. -/
theorem disk_selection_iff (l : Layout) (v : Volumes) (memory : Nat → Option Nat) (szCurrentPath : Str16) (s : Explorer)
    (reached : Reach (Step (machineOf l v memory szCurrentPath)) (fun _ _ => True) Initial s)
    (drawn : s.activePageDrawn = true) (page : s.activePage = .explorer) (noDisk : s.fileInterface = none)
    (listed : 0 ≤ s.explorerActiveIndex ∧ s.explorerActiveIndex < s.explorerCount) :
    EnterSelects (machineOf l v memory szCurrentPath) v s ↔ Selectable v s := by
  cases fault : s.fault with
  | true =>
    refine iff_of_false ?_ (fun both => absurd (both.1.symm.trans fault) Bool.false_ne_true)
    rintro ⟨t, _, _, handled, fine, -⟩
    obtain rfl := Option.some.inj ((enter_eq page noDisk).symm.trans handled)
    rw [enterDisk_fault fault] at fine
    cases fine
  | false =>
    obtain ⟨count, holds⟩ := lists_of_reach reached fault drawn page noDisk
    obtain ⟨i, index⟩ := Int.eq_ofNat_of_zero_le listed.1
    cases found : efiError v.located with
    | true =>
      -- no disk is listed
      rw [machineOf_nothing found] at count
      have none : s.explorerCount = 0 := count
      omega
    | false =>
      rw [machineOf_length found] at count
      have inside : i < v.handles.length := by omega
      have there : v.handles[s.explorerActiveIndex.toNat]? = some v.handles[i] := by
        rw [index, Int.toNat_natCast, List.getElem?_eq_getElem inside]
      have eq := (enter_eq page noDisk).trans (congrArg some (enterDisk_eq holds index (machineOf_cell found inside)))
      constructor
      · rintro ⟨-, handle, iface, -, -, same, obtained, -⟩
        exact ⟨fault, handle, same, obtained.1⟩
      · rintro ⟨-, handle, same, success⟩
        obtain rfl := Option.some.inj (there.symm.trans same)
        obtain ⟨iface, stored⟩ := (v.handleProtocol v.handles[i]).obtained success
        exact ⟨_, _, iface, eq, fault, there, ⟨success, stored⟩, by simp [stored]⟩

/-! ## Two disks -/

/-- Two handles, of which only the second has an interface. -/
def secondOnly : Volumes where
  located := efiSuccess
  handles := [10, 11]
  handleProtocol handle := if handle = 11 then .serving 5 else .unsupported
  assets _ := false

/-- Its machine, on memory that holds 7. -/
def secondOnlyMachine : Machine := machineOf oneDisk.layout secondOnly (fun _ => some 7) []

/-- The disk page is shown. -/
def showDisks : List Action := [.draw ⟨[], false⟩ [], .key .f2, .draw ⟨[], false⟩ []]

/-- The second disk is selected with its interface. -/
theorem second_disk_selected : ∃ s, Reach (Step secondOnlyMachine) (fun _ _ => True) Initial s ∧
    s.explorerActiveIndex = 1 ∧ EnterSelects secondOnlyMachine secondOnly s := by
  have ends : (runActions (perform secondOnlyMachine 5) (fun _ _ => True)
      (showDisks ++ [.key .right, .draw ⟨[], false⟩ []]) blankExplorer).map
      (fun s => (s.activePageDrawn, s.activePage, s.fileInterface, s.explorerActiveIndex, s.explorerCount, s.fault)) =
        some (true, .explorer, none, 1, 2, false) := by decide
  obtain ⟨s, run, state⟩ := Option.map_eq_some_iff.1 ends
  simp only [Prod.mk.injEq] at state
  obtain ⟨drawn, page, noDisk, index, count, fine⟩ := state
  have reach := Reach.of_runActions (fun _ _ _ => perform_step) (.start blankExplorer_initial) run
  refine ⟨s, reach, index, (disk_selection_iff _ _ _ _ s reach drawn page noDisk ?_).2 ⟨fine, 11, ?_, rfl⟩⟩
  · rw [index, count]
    decide
  · rw [index]
    rfl

/-- The first disk is listed, and Enter sets `FileInterface` to what the memory held. -/
theorem first_disk_dangles : ∃ s t, Reach (Step secondOnlyMachine) (fun _ _ => True) Initial s ∧
    s.activePageDrawn = true ∧ s.activePage = .explorer ∧ s.fileInterface = none ∧ s.explorerActiveIndex = 0 ∧
    s.explorerCount = 2 ∧ s.handleKey secondOnlyMachine .enter = some t ∧ t.fileInterface = some 7 ∧
    (∀ i, ¬ secondOnly.Obtained 10 i) ∧ ¬ EnterSelects secondOnlyMachine secondOnly s := by
  have ends : (runActions (perform secondOnlyMachine 5) (fun _ _ => True) showDisks blankExplorer).map
      (fun s => (s.activePageDrawn, s.activePage, (s.fileInterface, (s.enterDisk secondOnlyMachine).fileInterface),
        s.explorerActiveIndex, s.explorerCount)) = some (true, .explorer, (none, some 7), 0, 2) := by decide
  obtain ⟨s, run, state⟩ := Option.map_eq_some_iff.1 ends
  simp only [Prod.mk.injEq] at state
  obtain ⟨drawn, page, ⟨noDisk, dangling⟩, index, count⟩ := state
  have never : ∀ i, ¬ secondOnly.Obtained 10 i := fun i obtained => absurd obtained.1 (by decide)
  refine ⟨s, _, Reach.of_runActions (fun _ _ _ => perform_step) (.start blankExplorer_initial) run, drawn, page,
    noDisk, index, count, enter_eq page noDisk, dangling, never, ?_⟩
  rintro ⟨-, handle, i, -, -, here, obtained, -⟩
  rw [index] at here
  obtain rfl : 10 = handle := Option.some.inj here
  exact never i obtained

end Lavoro.Screen
