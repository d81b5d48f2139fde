import Lavoro.Lib.Reach
import Lavoro.Screen.Explorer

/-!
# The selection in the explorer

`ScreenMode` draws the active page if it has not been drawn yet, waits for a key and
handles it, round and round. `ExplorerActiveIndex` is moved by the arrow keys, each with
its own bound, and reset by a redraw that finds fewer entries; it is used on Enter and by
the viewer to find the chosen entry in `ExplorerNames` and `ExplorerTypes`.
-/

namespace Lavoro.Screen
open Lib

/-- `ActivePageIndex`. -/
inductive ActivePage where
  | help
  | explorer
  | viewer
  | readme
  deriving Repr, DecidableEq

/-- What of `ScreenMode`'s state the explorer depends on; `items` are on its page, and `fault` says that an array has
been written outside its bounds, or a cell used that `ExplorerTypes`, `ExplorerNames` or `FileInterfaces` does not have. -/
structure Explorer where
  activePage : ActivePage
  activePageDrawn : Bool
  explorerTypes : Slots explorerSlots Bool
  explorerNames : Slots explorerSlots Str16
  explorerActiveIndex : Int
  explorerCount : Int
  fileInterface : Option Nat
  szCurrentPath : Str16
  items : List Item
  fault : Bool

/-- The keys that `ScreenMode` tells apart. -/
inductive Key where
  | esc
  | f1
  | f2
  | f3
  | f10
  | f12
  | enter
  | up
  | down
  | left
  | right
  | other
  deriving Repr, DecidableEq

/-- The machine: the layout of the page and the table `FileInterfaces` of its disks. -/
structure Machine where
  layout : Layout
  fileInterfaces : List (Option Nat)

namespace Explorer

/-- What the explorer page lists: the disks, or the directory with these entries. -/
def listing (m : Machine) (entries : List DirEntry) (s : Explorer) : Listing :=
  if s.fileInterface = none then .disks m.fileInterfaces.length else .directory entries

/-- The end of a redraw of the explorer page. -/
def redrawn (s : Explorer) (p : Page) : Explorer :=
  { s with
    activePageDrawn := true
    explorerTypes := p.explorerTypes
    explorerNames := p.explorerNames
    explorerCount := p.explorerCount
    explorerActiveIndex := if p.explorerCount < s.explorerActiveIndex then 0 else s.explorerActiveIndex
    items := p.items
    fault := s.fault || p.fault }

/-- The path of the entry with this name: `szCurrentPath`, a backslash where it does not end in one, and the name.
With the NUL behind it, it is put together in `szCurrentPath` or `szFilePath`, arrays of `MAX_PATH` units. -/
def pathTo (s : Explorer) (name : Str16) : Str16 :=
  let bar := if s.szCurrentPath.getLast? ≠ some 92 then [92] else []
  s.szCurrentPath ++ bar ++ name

/-- The viewer finds out which file to show, and puts its path together in `szFilePath`. -/
def chooseFile (s : Explorer) : Explorer :=
  match s.explorerTypes.at? s.explorerActiveIndex with
  | none => { s with fault := true }
  | some true => s
  | some false =>
    match s.explorerNames.at? s.explorerActiveIndex with
    | none => { s with fault := true }
    | some name => { s with fault := s.fault || decide (maxPath ≤ (s.pathTo name).length) }

/-- `if (!ActivePageDrawn)`: the active page is drawn, or `none` while `fuel` turns of the
loop over the entries are too few. -/
def draw (m : Machine) (szBuffer : DirEntry) (entries : List DirEntry) (fuel : Nat) (s : Explorer) :
    Option Explorer :=
  match s.activePage with
  | .help => some { s with activePageDrawn := true }
  | .explorer =>
    (Loop.run (explorerTurn m.layout s.explorerActiveIndex (s.listing m entries)) fuel
      (explorerStart s.explorerTypes s.explorerNames szBuffer (s.listing m entries))).map
      fun r => s.redrawn r.page
  | .viewer =>
    if s.fileInterface = none then some { s with activePageDrawn := true }
    else some { s.chooseFile with activePageDrawn := true }
  | .readme => some { s with activePageDrawn := true }

/-- A page key. -/
def showPage (page : ActivePage) (s : Explorer) : Explorer :=
  if s.activePage = page then s else { s with activePage := page, activePageDrawn := false }

/-- The index is moved on the explorer page. -/
def moveTo (index : Int) (s : Explorer) : Explorer :=
  if s.activePage = .explorer then { s with explorerActiveIndex := index, activePageDrawn := false }
  else s

/-- `if (index < 0) index = 0`. -/
def notBelow (index : Int) : Int := if index < 0 then 0 else index

/-- `if (index >= ExplorerCount) index = ExplorerCount - 1`. -/
def notBeyond (count index : Int) : Int := if index ≥ count then count - 1 else index

/-- Enter on the list of disks. -/
def enterDisk (m : Machine) (s : Explorer) : Explorer :=
  match s.explorerNames.at? s.explorerActiveIndex with
  | none => { s with fault := true }
  | some name =>
    match m.fileInterfaces[atoi name]? with
    | none => { s with fault := true }
    | some disk => { s with fileInterface := disk, szCurrentPath := [92], activePageDrawn := false }

/-- Enter on an entry of a directory. -/
def enterEntry (s : Explorer) : Explorer :=
  match s.explorerTypes.at? s.explorerActiveIndex with
  | none => { s with fault := true }
  | some true =>
    match s.explorerNames.at? s.explorerActiveIndex with
    | none => { s with fault := true }
    | some name =>
      { s with
        szCurrentPath := s.pathTo name
        activePageDrawn := false
        fault := s.fault || decide (maxPath ≤ (s.pathTo name).length) }
  | some false => { s with activePage := .viewer, activePageDrawn := false }

/-- The handling of a key; `none` where `ScreenMode` is left. -/
def handleKey (m : Machine) (s : Explorer) : Key → Option Explorer
  | .esc => none
  | .f12 => none
  | .f1 => some (s.showPage .help)
  | .f2 =>
    some (if s.activePage = .explorer then { s with fileInterface := none, activePageDrawn := false }
      else s.showPage .explorer)
  | .f3 => some (s.showPage .viewer)
  | .f10 => some (s.showPage .readme)
  | .enter =>
    some (if s.activePage = .explorer then
        if s.fileInterface = none then s.enterDisk m else s.enterEntry
      else s)
  | .up => some (s.moveTo (notBelow (s.explorerActiveIndex - m.layout.perRow)))
  | .down => some (s.moveTo (notBeyond s.explorerCount (s.explorerActiveIndex + m.layout.perRow)))
  | .left => some (s.moveTo (notBelow (s.explorerActiveIndex - 1)))
  | .right => some (s.moveTo (notBeyond s.explorerCount (s.explorerActiveIndex + 1)))
  | .other => some s

end Explorer

/-- What happens in a round: the page is drawn, with the entries that the current directory
has then, or a key is handled. -/
inductive Action where
  | draw (szBuffer : DirEntry) (entries : List DirEntry)
  | key (k : Key)

/-- One action of `ScreenMode`. -/
def Step (m : Machine) (s : Explorer) : Action → Explorer → Prop
  | .draw szBuffer entries, t =>
    s.activePageDrawn = false ∧ ∃ fuel, s.draw m szBuffer entries fuel = some t
  | .key k, t => s.activePageDrawn = true ∧ s.handleKey m k = some t

/-- The state in which `ScreenMode` enters its loop. -/
structure Initial (s : Explorer) : Prop where
  activePage : s.activePage = .help
  activePageDrawn : s.activePageDrawn = false
  explorerActiveIndex : s.explorerActiveIndex = 0
  explorerCount : s.explorerCount = 0
  fileInterface : s.fileInterface = none
  items : s.items = []
  fault : s.fault = false

/-! ## The selection stays on the page -/

/-- The index selects an entry of the page, or is 0 where there is none. -/
structure Selected (s : Explorer) : Prop where
  count : 0 ≤ s.explorerCount ∧ s.explorerCount ≤ explorerSlots
  none : s.explorerCount = 0 → s.explorerActiveIndex = 0
  some : s.explorerCount ≠ 0 → 0 ≤ s.explorerActiveIndex ∧ s.explorerActiveIndex < s.explorerCount

/-- The actions that use `ExplorerNames` or `ExplorerTypes` at the index. -/
def UsesSelection (s : Explorer) : Action → Prop
  | .draw _ _ => s.activePageDrawn = false ∧ s.activePage = .viewer ∧ s.fileInterface ≠ none
  | .key k => s.activePageDrawn = true ∧ s.activePage = .explorer ∧ k = .enter

/-- The selected entry is one of those on the page, and the arrays hold it. -/
def SelectsItem (s : Explorer) : Prop :=
  ∃ item, s.items[s.explorerActiveIndex.toNat]? = some item ∧
    s.explorerNames.at? s.explorerActiveIndex = some item.entry.fileName ∧
    s.explorerTypes.at? s.explorerActiveIndex = some item.entry.directory

/-- If the selected entry is of this kind, its path has room in an array. -/
def PathFits (s : Explorer) (directory : Bool) : Prop :=
  s.explorerTypes.at? s.explorerActiveIndex = some directory →
    ∀ name ∈ s.explorerNames.at? s.explorerActiveIndex, (s.pathTo name).length < maxPath

/-- The actions under which the selection stays on the page: a redraw finds at most 64
entries, and not just as many as the index, unless it finds none; Down, Right, Enter and
the viewer meet a page that is not empty; and the path of a directory that is entered and
of a file that is viewed is shorter than `MAX_PATH`. -/
def Harmless (m : Machine) (s : Explorer) : Action → Prop
  | .draw _ entries =>
    (s.activePage = .explorer → (s.listing m entries).entries.length ≤ explorerSlots ∧
      ((s.listing m entries).entries ≠ [] →
        ((s.listing m entries).entries.length : Int) ≠ s.explorerActiveIndex)) ∧
    (s.activePage = .viewer → s.fileInterface ≠ none → s.explorerCount ≠ 0 ∧ PathFits s false)
  | .key k =>
    (s.activePage = .explorer → k = .down ∨ k = .right ∨ k = .enter → s.explorerCount ≠ 0) ∧
    (s.activePage = .explorer → k = .enter → s.fileInterface ≠ none → PathFits s true)

/-- What holds in every state: the selection is on the page, the arrays hold what the page
shows, and a page drawn while no disk is chosen shows the disks. -/
structure Sound (m : Machine) (s : Explorer) : Prop where
  selected : Selected s
  count : s.explorerCount = s.items.length
  holds : Holds s.explorerTypes s.explorerNames (s.items.map Item.entry)
  disks : s.activePageDrawn = true → s.activePage = .explorer → s.fileInterface = none →
    s.items.map Item.entry = (Listing.disks m.fileInterfaces.length).entries
  fine : s.fault = false

section Steps

variable {m : Machine} {s t : Explorer}

theorem Sound.initial (h : Initial s) : Sound m s where
  selected := {
    count := by rw [h.explorerCount]; decide
    none := fun _ => h.explorerActiveIndex
    some := fun some => absurd h.explorerCount some }
  count := by rw [h.explorerCount, h.items]; rfl
  holds := by
    rw [h.items]
    exact fun _ => nofun
  disks drawn := absurd (drawn.symm.trans h.activePageDrawn) nofun
  fine := h.fault

/-- A page that is not empty has its selected entry in the arrays. -/
theorem Sound.selects (h : Sound m s) (some : s.explorerCount ≠ 0) : SelectsItem s := by
  obtain ⟨below, beyond⟩ := h.selected.some some
  have count := h.count
  have inside : s.explorerActiveIndex.toNat < s.items.length := by omega
  have index : (s.explorerActiveIndex.toNat : Int) = s.explorerActiveIndex := by omega
  obtain ⟨type, name⟩ := h.holds s.explorerActiveIndex.toNat (by simpa using inside)
  rw [index, List.getElem_map] at type name
  exact ⟨_, List.getElem?_eq_getElem inside, name, type⟩

/-- What a redraw of the explorer page draws. -/
theorem draw_explorer_draws {szBuffer : DirEntry} {entries : List DirEntry} {fuel : Nat}
    (page : s.activePage = .explorer) (h : s.draw m szBuffer entries fuel = some t) :
    ∃ disks, t = s.redrawn (drawEntries m.layout disks s.explorerActiveIndex
      (s.listing m entries).entries (Page.blank s.explorerTypes s.explorerNames)) := by
  simp only [Explorer.draw, page, Option.map_eq_some_iff] at h
  obtain ⟨r, run, rfl⟩ := h
  have leaves : Loop.Leaves _ _ r := ⟨fuel, run⟩
  cases hl : s.listing m entries with
  | disks count =>
    rw [hl] at leaves
    obtain ⟨r', leaves', drawn⟩ := disks_draws m.layout s.explorerActiveIndex s.explorerTypes
      s.explorerNames szBuffer count
    rw [leaves.unique leaves', drawn]
    exact ⟨true, rfl⟩
  | directory entries' =>
    rw [hl] at leaves
    have going : (explorerStart s.explorerTypes s.explorerNames szBuffer
        (.directory entries')).szBufferSize ≠ 0 := Nat.succ_ne_zero 254
    have fits : ∀ e ∈ entries', e.Fits := fits_of_leaves going rfl leaves
    obtain ⟨r', leaves', drawn⟩ := directory_draws m.layout s.explorerActiveIndex s.explorerTypes
      s.explorerNames szBuffer fits
    rw [leaves.unique leaves', drawn]
    exact ⟨false, rfl⟩

/-- What a redraw of the explorer page finds. -/
theorem draw_explorer {szBuffer : DirEntry} {entries : List DirEntry} {fuel : Nat}
    (page : s.activePage = .explorer) (h : s.draw m szBuffer entries fuel = some t) :
    ∃ p, Drawn (s.listing m entries).entries p ∧ t = s.redrawn p := by
  obtain ⟨disks, redrawn⟩ := draw_explorer_draws page h
  refine ⟨_, ?_, redrawn⟩
  exact drawEntries_drawn m.layout disks s.explorerActiveIndex (s.listing m entries).entries
    (drawn_blank s.explorerTypes s.explorerNames)

/-- **A redraw keeps the selection on the page** unless it finds as many entries as the index. -/
theorem sound_redrawn (h : Sound m s) {entries : List DirEntry} {p : Page}
    (drawn : Drawn (s.listing m entries).entries p)
    (room : (s.listing m entries).entries.length ≤ explorerSlots)
    (off : (s.listing m entries).entries ≠ [] →
      ((s.listing m entries).entries.length : Int) ≠ s.explorerActiveIndex) :
    Sound m (s.redrawn p) := by
  obtain ⟨shown, holds⟩ := drawn.shown room
  have count := drawn.count
  have long := congrArg List.length shown
  rw [List.length_map] at long
  have index : 0 ≤ s.explorerActiveIndex := by
    by_cases none : s.explorerCount = 0
    · exact Int.le_of_eq (h.selected.none none).symm
    · exact (h.selected.some none).1
  refine ⟨⟨?_, ?_, ?_⟩, ?_, ?_, ?_, ?_⟩
  · show 0 ≤ p.explorerCount ∧ p.explorerCount ≤ explorerSlots
    omega
  · intro none
    have none : p.explorerCount = 0 := none
    show (if p.explorerCount < s.explorerActiveIndex then 0 else s.explorerActiveIndex) = 0
    split <;> omega
  · intro some
    have some : p.explorerCount ≠ 0 := some
    have nonempty : (s.listing m entries).entries ≠ [] := by
      intro empty
      rw [empty] at count
      exact some count
    have ne := off nonempty
    show 0 ≤ (if p.explorerCount < s.explorerActiveIndex then 0 else s.explorerActiveIndex) ∧
      (if p.explorerCount < s.explorerActiveIndex then 0 else s.explorerActiveIndex) < p.explorerCount
    split <;> omega
  · show p.explorerCount = p.items.length
    rw [count, long]
  · show Holds p.explorerTypes p.explorerNames (p.items.map Item.entry)
    rw [shown]
    exact holds
  · intro _ _ noDisk
    have noDisk : s.fileInterface = none := noDisk
    show p.items.map Item.entry = _
    rw [shown, Explorer.listing, if_pos noDisk]
  · have notOver : p.fault = false := by
      rw [← Bool.not_eq_true, drawn.fault]
      omega
    show (s.fault || p.fault) = false
    rw [h.fine, notOver]
    rfl

/-- Marking the page as drawn, where it is not the explorer page. -/
theorem sound_marked (h : Sound m s) (page : s.activePage ≠ .explorer) :
    Sound m { s with activePageDrawn := true } :=
  ⟨⟨h.selected.count, h.selected.none, h.selected.some⟩, h.count, h.holds,
    fun _ explorer => absurd explorer page, h.fine⟩

/-- Going to a page, the same or one still to be drawn. -/
theorem sound_showPage (h : Sound m s) (page : ActivePage) : Sound m (s.showPage page) := by
  unfold Explorer.showPage
  split
  · exact h
  · exact ⟨⟨h.selected.count, h.selected.none, h.selected.some⟩, h.count, h.holds, (absurd · Bool.false_ne_true), h.fine⟩

/-- Moving the index on the page. -/
theorem sound_moveTo (h : Sound m s) {index : Int}
    (none : s.activePage = .explorer → s.explorerCount = 0 → index = 0)
    (some : s.activePage = .explorer → s.explorerCount ≠ 0 → 0 ≤ index ∧ index < s.explorerCount) :
    Sound m (s.moveTo index) := by
  unfold Explorer.moveTo
  split
  · rename_i page
    exact ⟨⟨h.selected.count, none page, some page⟩, h.count, h.holds, (absurd · Bool.false_ne_true), h.fine⟩
  · exact h

/-- Up and Left. -/
theorem sound_moveBack (h : Sound m s) {d : Int} (step : 0 ≤ d) :
    Sound m (s.moveTo (Explorer.notBelow (s.explorerActiveIndex - d))) := by
  refine sound_moveTo h (fun _ none => ?_) fun _ some => ?_
  · have zero := h.selected.none none
    unfold Explorer.notBelow
    split <;> omega
  · have inside := h.selected.some some
    unfold Explorer.notBelow
    split <;> omega

/-- Down and Right, where there is an entry. -/
theorem sound_moveOn (h : Sound m s) {d : Int} (step : 0 ≤ d)
    (some : s.activePage = .explorer → s.explorerCount ≠ 0) :
    Sound m (s.moveTo (Explorer.notBeyond s.explorerCount (s.explorerActiveIndex + d))) := by
  refine sound_moveTo h (fun page none => absurd none (some page)) fun _ some => ?_
  have inside := h.selected.some some
  unfold Explorer.notBeyond
  split <;> omega

/-- Enter on the list of disks finds the disk that is selected. -/
theorem sound_enterDisk (h : Sound m s) (drawn : s.activePageDrawn = true)
    (page : s.activePage = .explorer) (noDisk : s.fileInterface = none) (some : s.explorerCount ≠ 0) :
    Sound m (s.enterDisk m) := by
  obtain ⟨item, here, name, -⟩ := h.selects some
  have shown := h.disks drawn page noDisk
  have entry := congrArg (·[s.explorerActiveIndex.toNat]?) shown
  simp only [List.getElem?_map, here, Option.map_some, Listing.entries] at entry
  obtain ⟨i, disk, number⟩ := Option.map_eq_some_iff.1 entry.symm
  have inside : i < m.fileInterfaces.length := by
    have mem := List.mem_of_getElem? disk
    rwa [List.mem_range] at mem
  rw [← number] at name
  simp only [Explorer.enterDisk, name, atoi_decimal, List.getElem?_eq_getElem inside]
  exact ⟨⟨h.selected.count, h.selected.none, h.selected.some⟩, h.count, h.holds, (absurd · Bool.false_ne_true), h.fine⟩

/-- A path that has room is no fault. -/
theorem fault_pathTo {name : Str16} (short : (s.pathTo name).length < maxPath) :
    (s.fault || decide (maxPath ≤ (s.pathTo name).length)) = s.fault := by
  rw [decide_eq_false (Nat.not_le_of_lt short), Bool.or_false]

/-- Enter on an entry of a directory. -/
theorem sound_enterEntry (h : Sound m s) (some : s.explorerCount ≠ 0) (fits : PathFits s true) :
    Sound m s.enterEntry := by
  obtain ⟨item, -, name, type⟩ := h.selects some
  have kept : ∀ page path, Sound m
      { s with activePage := page, szCurrentPath := path, activePageDrawn := false } := fun _ _ =>
    ⟨⟨h.selected.count, h.selected.none, h.selected.some⟩, h.count, h.holds, (absurd · Bool.false_ne_true), h.fine⟩
  cases directory : item.entry.directory with
  | true =>
    rw [directory] at type
    simp only [Explorer.enterEntry, type, name]
    rw [fault_pathTo (fits type _ name)]
    exact kept s.activePage _
  | false =>
    rw [directory] at type
    simp only [Explorer.enterEntry, type]
    exact kept .viewer s.szCurrentPath

/-- The viewer finds the selected entry in the arrays, and room for its path. -/
theorem chooseFile_eq (h : Sound m s) (some : s.explorerCount ≠ 0) (fits : PathFits s false) : s.chooseFile = s := by
  obtain ⟨item, -, name, type⟩ := h.selects some
  cases directory : item.entry.directory with
  | true => simp only [Explorer.chooseFile, type, directory]
  | false =>
    rw [directory] at type
    simp only [Explorer.chooseFile, type, name]
    rw [fault_pathTo (fits type _ name)]

/-- Drawing another page only marks it as drawn. -/
theorem draw_other (h : Sound m s) {szBuffer : DirEntry} {entries : List DirEntry} {fuel : Nat}
    (page : s.activePage ≠ .explorer)
    (view : s.activePage = .viewer → s.fileInterface ≠ none → s.explorerCount ≠ 0 ∧ PathFits s false)
    (drawn : s.draw m szBuffer entries fuel = some t) : t = { s with activePageDrawn := true } := by
  unfold Explorer.draw at drawn
  split at drawn
  · exact (Option.some.inj drawn).symm
  · rename_i explorer
    exact absurd explorer page
  · rename_i viewer
    split at drawn
    · exact (Option.some.inj drawn).symm
    · rename_i disk
      obtain ⟨some, fits⟩ := view viewer disk
      rw [chooseFile_eq h some fits] at drawn
      exact (Option.some.inj drawn).symm
  · exact (Option.some.inj drawn).symm

/-- **A drawing keeps the selection on the page.** -/
theorem sound_draw (h : Sound m s) {szBuffer : DirEntry} {entries : List DirEntry} {fuel : Nat}
    (harmless : Harmless m s (.draw szBuffer entries))
    (drawn : s.draw m szBuffer entries fuel = some t) : Sound m t := by
  obtain ⟨redraw, view⟩ := harmless
  by_cases page : s.activePage = .explorer
  · obtain ⟨p, found, rfl⟩ := draw_explorer page drawn
    obtain ⟨room, off⟩ := redraw page
    exact sound_redrawn h found room off
  · rw [draw_other h page view drawn]
    exact sound_marked h page

/-- **A key keeps the selection on the page.** -/
theorem sound_key (h : Sound m s) {k : Key} (drawn : s.activePageDrawn = true)
    (harmless : Harmless m s (.key k)) (handled : s.handleKey m k = some t) : Sound m t := by
  have index := h.selected
  obtain ⟨nonempty, fits⟩ := harmless
  have step : (0 : Int) ≤ m.layout.perRow := Int.natCast_nonneg _
  cases k <;> simp only [Explorer.handleKey, reduceCtorEq, Option.some.injEq] at handled <;>
    subst handled
  case f1 => exact sound_showPage h .help
  case f2 =>
    split
    · exact ⟨⟨index.count, index.none, index.some⟩, h.count, h.holds, (absurd · Bool.false_ne_true), h.fine⟩
    · exact sound_showPage h .explorer
  case f3 => exact sound_showPage h .viewer
  case f10 => exact sound_showPage h .readme
  case enter =>
    split
    · rename_i page
      have some := nonempty page (.inr (.inr rfl))
      split
      · rename_i noDisk
        exact sound_enterDisk h drawn page noDisk some
      · rename_i disk
        exact sound_enterEntry h some (fits page rfl disk)
    · exact h
  case up => exact sound_moveBack h step
  case down => exact sound_moveOn h step fun page => nonempty page (.inl rfl)
  case left => exact sound_moveBack h (Int.le_of_lt Int.zero_lt_one)
  case right => exact sound_moveOn h (Int.le_of_lt Int.zero_lt_one) fun page => nonempty page (.inr (.inl rfl))
  case other => exact h

/-- **A harmless action** keeps the selection on the page. -/
theorem sound_step {a : Action} (h : Sound m s) (harmless : Harmless m s a) (taken : Step m s a t) : Sound m t := by
  cases a with
  | draw szBuffer entries =>
    obtain ⟨-, fuel, drawn⟩ := taken
    exact sound_draw h harmless drawn
  | key k =>
    obtain ⟨drawn, handled⟩ := taken
    exact sound_key h drawn harmless handled

end Steps

/-- In every state that a run of harmless actions reaches the selection is sound. -/
theorem sound_of_reach {m : Machine} {s : Explorer} (h : Reach (Step m) (Harmless m) Initial s) : Sound m s := by
  apply h.invariant (Sound m)
  · exact fun s start => Sound.initial start
  · exact fun s a t sound harmless taken => sound_step sound harmless taken

/-- **The selection invariant**, in every run of harmless actions: the index is on the page,
`ExplorerTypes`, `ExplorerNames` and `FileInterfaces` are not accessed and the paths not written
outside their bounds, and what uses the selection finds an entry of the page in the arrays. -/
theorem selection_invariant {m : Machine} {s : Explorer}
    (h : Reach (Step m) (Harmless m) Initial s) :
    Selected s ∧ s.fault = false ∧
      ∀ a, Harmless m s a → UsesSelection s a → SelectsItem s := by
  have sound := sound_of_reach h
  refine ⟨sound.selected, sound.fine, fun a harmless uses => sound.selects ?_⟩
  cases a with
  | draw szBuffer entries => exact (harmless.2 uses.2.1 uses.2.2).1
  | key k => exact harmless.1 uses.2.1 (.inr (.inr uses.2.2))

instance (s : Explorer) (directory : Bool) : Decidable (PathFits s directory) :=
  inferInstanceAs (Decidable (_ → ∀ name ∈ s.explorerNames.at? s.explorerActiveIndex, (s.pathTo name).length < maxPath))

instance (m : Machine) (s : Explorer) : ∀ a, Decidable (Harmless m s a)
  | .draw _ _ => inferInstanceAs (Decidable ((_ → _ ∧ (_ → _)) ∧ (_ → _ → _ ∧ _)))
  | .key _ => inferInstanceAs (Decidable ((_ → _ → _) ∧ (_ → _ → _ → _)))

/-- An action with at most `fuel` turns of the loop over the entries. -/
def perform (m : Machine) (fuel : Nat) (s : Explorer) : Action → Option Explorer
  | .draw szBuffer entries =>
    if s.activePageDrawn = false then s.draw m szBuffer entries fuel else none
  | .key k => if s.activePageDrawn = true then s.handleKey m k else none

theorem perform_step {m : Machine} {fuel : Nat} {s : Explorer} {a : Action} {t : Explorer}
    (h : perform m fuel s a = some t) : Step m s a t := by
  cases a with
  | draw szBuffer entries =>
    obtain ⟨fresh, drawn⟩ := Option.ite_none_right_eq_some.1 h
    exact ⟨fresh, fuel, drawn⟩
  | key k => exact Option.ite_none_right_eq_some.1 h

/-- A screen of 800 pixels with icons of 100, and one disk. -/
def oneDisk : Machine := ⟨⟨800, 100, 100, by decide⟩, [some 0]⟩

/-- The state in which `ScreenMode` starts on a fresh memory. -/
def blankExplorer : Explorer where
  activePage := .help
  activePageDrawn := false
  explorerTypes _ := false
  explorerNames _ := []
  explorerActiveIndex := 0
  explorerCount := 0
  fileInterface := none
  szCurrentPath := [92]
  items := []
  fault := false

theorem blankExplorer_initial : Initial blankExplorer := ⟨rfl, rfl, rfl, rfl, rfl, rfl, rfl⟩

/-- The disk is chosen; its root directory has these entries. -/
def chooseDisk (entries : List DirEntry) : List Action :=
  [.draw ⟨[], false⟩ [], .key .f2, .draw ⟨[], false⟩ [], .key .enter, .draw ⟨[], false⟩ entries]

theorem selection_of_second_entry :
    ∃ s, runActions (perform oneDisk 5) (Harmless oneDisk)
        (chooseDisk [⟨[97], true⟩, ⟨[98], false⟩] ++ [.key .right]) blankExplorer = some s ∧
      s.explorerActiveIndex = 1 ∧ Selected s := by
  have ends : (runActions (perform oneDisk 5) (Harmless oneDisk)
      (chooseDisk [⟨[97], true⟩, ⟨[98], false⟩] ++ [.key .right]) blankExplorer).map
      Explorer.explorerActiveIndex = some 1 := by decide
  obtain ⟨s, run, index⟩ := Option.map_eq_some_iff.1 ends
  have reach := Reach.of_runActions (fun _ _ _ => perform_step) (.start blankExplorer_initial) run
  exact ⟨s, run, index, (selection_invariant reach).1⟩

/-- In an empty directory Right selects the entry before the first. -/
theorem selection_lost_in_empty_directory :
    ∃ s, Reach (Step oneDisk) (fun _ _ => True) Initial s ∧ ¬ Selected s := by
  have ends : (runActions (perform oneDisk 5) (fun _ _ => True)
      (chooseDisk [] ++ [.key .right]) blankExplorer).map
      (fun s => (s.explorerCount, s.explorerActiveIndex)) = some (0, -1) := by decide
  obtain ⟨s, run, state⟩ := Option.map_eq_some_iff.1 ends
  simp only [Prod.mk.injEq] at state
  refine ⟨s, Reach.of_runActions (fun _ _ _ => perform_step) (.start blankExplorer_initial) run, ?_⟩
  intro selected
  have zero := selected.none state.1
  omega

end Lavoro.Screen
