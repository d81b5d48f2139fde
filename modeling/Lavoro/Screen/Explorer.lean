import Lavoro.Efi.Str
import Lavoro.File.Directory
import Lavoro.Lib.Slots

/-!
# The explorer page

When the page is drawn, the disks (while no disk is chosen) or the entries of the current
directory are read one after the other into `ExplorerNames` and `ExplorerTypes`, two
arrays of 64 cells, and drawn in rows. An access outside an array sets `fault`; nothing is
claimed of what follows it.
-/

namespace Lavoro.Screen
open Lib

/-- The icon that an entry is drawn with. -/
inductive Icon where
  | disk
  | activedisk
  | folder
  | activefolder
  | file
  | activefile
  deriving Repr, DecidableEq

/-- An icon on the page with the name below it. -/
structure Item where
  icon : Icon
  caption : Str16
  x : Int
  y : Int
  deriving Repr, DecidableEq

/-- The sizes that the page is laid out with: of the page and of an icon. Each stands for an `int` that is not
negative, at most 2147483647, and what the page computes of them is taken to stay an `int`. -/
structure Layout where
  explorerW : Nat
  fileW : Nat
  fileH : Nat
  filePos : 0 < fileW

/-- `Explorer.W / file.W`, the number of entries that Up and Down step over. -/
def Layout.perRow (l : Layout) : Nat := l.explorerW / l.fileW

/-- The number of cells of `ExplorerTypes` and `ExplorerNames`. -/
def explorerSlots : Nat := 64

/-- What drawing the page writes. -/
structure Page where
  explorerTypes : Slots explorerSlots Bool
  explorerNames : Slots explorerSlots Str16
  explorerCount : Int
  currentX : Int
  currentY : Int
  items : List Item
  fault : Bool

/-- The icon for the entry under the index `i`. -/
def iconFor (disks : Bool) (active : Bool) (e : DirEntry) : Icon :=
  if e.directory then
    if active then (if disks then .activedisk else .activefolder)
    else (if disks then .disk else .folder)
  else if active then .activefile else .file

/-- The body of the loop behind `if (!EFI_ERROR(status) && szBufferSize)`. -/
def drawEntry (l : Layout) (disks : Bool) (activeIndex : Int) (e : DirEntry) (p : Page) : Page :=
  let wrap : Bool := p.currentX + l.fileW ≥ l.explorerW
  let x := if wrap then 0 else p.currentX
  let y := if wrap then p.currentY + (l.fileH + 40) else p.currentY
  match p.explorerTypes.put? p.explorerCount e.directory,
    p.explorerNames.put? p.explorerCount e.fileName with
  | some types, some names =>
    { p with
      explorerTypes := types
      explorerNames := names
      explorerCount := p.explorerCount + 1
      currentX := x + l.fileW
      currentY := y
      items := p.items ++ [⟨iconFor disks (p.explorerCount == activeIndex) e, e.fileName, x, y⟩] }
  | _, _ => { p with explorerCount := p.explorerCount + 1, fault := true }

/-- What is done with the result of a read. -/
def explorerHandle (l : Layout) (disks : Bool) (activeIndex : Int) (x : EntryRead) (p : Page) : Page :=
  if !efiError x.status && x.szBufferSize != 0 then drawEntry l disks activeIndex x.szBuffer p else p

/-- `sizeof (EFI_FILE_INFO)`. -/
def sizeofFileInfo : Nat := 88

/-- The next disk, read into `szBuffer` as a directory named by its number. -/
def readDisk (disks : Nat) (_ : Nat) (st : Enumeration Page) : EntryRead × List DirEntry :=
  if st.page.explorerCount ≥ disks then (⟨efiSuccess, 0, st.szBuffer⟩, st.unread)
  else
    let name := decimal st.page.explorerCount.toNat
    (⟨efiSuccess, sizeofFileInfo + (name.length + 1), ⟨name, true⟩⟩, st.unread)

/-- What the page lists: the disks, of which there are so many, or a directory. -/
inductive Listing where
  | disks (count : Nat)
  | directory (entries : List DirEntry)

/-- One turn of the loop that reads the entries. -/
def explorerTurn (l : Layout) (activeIndex : Int) :
    Listing → Enumeration Page → Turn (Enumeration Page) (Enumeration Page)
  | .disks count => enumTurn (readDisk count) (explorerHandle l true activeIndex)
  | .directory _ => enumTurn readHandle (explorerHandle l false activeIndex)

/-- The entries of a listing. -/
def Listing.entries : Listing → List DirEntry
  | .disks count => (List.range count).map fun i => ⟨decimal i, true⟩
  | .directory entries => entries

/-- The page with nothing on it yet, over what the arrays held before. -/
def Page.blank (types : Slots explorerSlots Bool) (names : Slots explorerSlots Str16) : Page :=
  { explorerTypes := types, explorerNames := names, explorerCount := 0, currentX := 0, currentY := 0,
    items := [], fault := false }

/-- The state in which the loop is entered. -/
def explorerStart (types : Slots explorerSlots Bool) (names : Slots explorerSlots Str16)
    (szBuffer : DirEntry) (listing : Listing) : Enumeration Page :=
  { szBufferSize := maxBufferSize - 1, szBuffer, unread := listing.entries,
    page := Page.blank types names }

/-! ## What drawing the page shows -/

/-- The entry that an item shows. -/
def Item.entry (i : Item) : DirEntry :=
  ⟨i.caption, i.icon != .file && i.icon != .activefile⟩

@[simp] theorem iconFor_entry (disks active : Bool) (e : DirEntry) (x y : Int) :
    (⟨iconFor disks active e, e.fileName, x, y⟩ : Item).entry = e := by
  obtain ⟨fileName, directory⟩ := e
  cases directory <;> cases disks <;> cases active <;> rfl

/-- The arrays hold the entries shown. -/
def Holds (types : Slots explorerSlots Bool) (names : Slots explorerSlots Str16)
    (entries : List DirEntry) : Prop :=
  ∀ i (h : i < entries.length),
    types.at? i = some entries[i].directory ∧ names.at? i = some entries[i].fileName

/-- The page after `taken` has been drawn on a blank one. -/
structure Drawn (taken : List DirEntry) (p : Page) : Prop where
  count : p.explorerCount = taken.length
  fault : p.fault = true ↔ explorerSlots < taken.length
  shown : taken.length ≤ explorerSlots →
    p.items.map Item.entry = taken ∧ Holds p.explorerTypes p.explorerNames taken

theorem drawn_blank (types : Slots explorerSlots Bool) (names : Slots explorerSlots Str16) :
    Drawn [] (Page.blank types names) where
  count := rfl
  fault := iff_of_false nofun (Nat.not_lt_zero _)
  shown _ := ⟨rfl, fun _ => nofun⟩

/-- One more entry in the arrays. -/
theorem Holds.snoc {types types' : Slots explorerSlots Bool} {names names' : Slots explorerSlots Str16}
    {taken : List DirEntry} {e : DirEntry} (h : Holds types names taken)
    (type : types'.at? taken.length = some e.directory)
    (name : names'.at? taken.length = some e.fileName)
    (types_ne : ∀ j : Int, j ≠ taken.length → types'.at? j = types.at? j)
    (names_ne : ∀ j : Int, j ≠ taken.length → names'.at? j = names.at? j) :
    Holds types' names' (taken ++ [e]) := by
  intro i inside
  rw [List.length_append, List.length_singleton] at inside
  by_cases last : i = taken.length
  · subst last
    simp [type, name]
  · have before : i < taken.length := by omega
    have ne : (i : Int) ≠ taken.length := by omega
    rw [types_ne i ne, names_ne i ne, List.getElem_append_left before]
    exact h i before

/-- **Drawing one entry.** -/
theorem drawEntry_drawn (l : Layout) (disks : Bool) (activeIndex : Int) (e : DirEntry)
    {taken : List DirEntry} {p : Page} (h : Drawn taken p) :
    Drawn (taken ++ [e]) (drawEntry l disks activeIndex e p) := by
  have count := h.count
  by_cases room : taken.length < explorerSlots
  · have inside : 0 ≤ p.explorerCount ∧ p.explorerCount < (explorerSlots : Int) := by omega
    obtain ⟨types, putType, type, types_ne⟩ := p.explorerTypes.put?_of_inside e.directory inside
    obtain ⟨names, putName, name, names_ne⟩ := p.explorerNames.put?_of_inside e.fileName inside
    obtain ⟨items, holds⟩ := h.shown (Nat.le_of_lt room)
    rw [count] at type name types_ne names_ne
    have fine : p.fault ≠ true := fun fault => absurd (h.fault.1 fault) (by omega)
    simp only [drawEntry, putType, putName]
    refine ⟨?_, ?_, fun _ => ⟨?_, holds.snoc type name types_ne names_ne⟩⟩
    · simp [count]
    · rw [List.length_append, List.length_singleton]
      exact iff_of_false fine (by omega)
    · simp [items]
  · have outside : ¬ (0 ≤ p.explorerCount ∧ p.explorerCount < (explorerSlots : Int)) := by omega
    simp only [drawEntry, Slots.put?_eq_none outside]
    refine ⟨?_, ?_, fun short => ?_⟩
    · simp [count]
    · rw [List.length_append, List.length_singleton]
      exact iff_of_true rfl (by omega)
    · rw [List.length_append, List.length_singleton] at short
      omega

theorem explorerHandle_entry (l : Layout) (disks : Bool) (activeIndex : Int) (e : DirEntry)
    {size : Nat} (some : size ≠ 0) (p : Page) :
    explorerHandle l disks activeIndex ⟨efiSuccess, size, e⟩ p = drawEntry l disks activeIndex e p := by
  simp [explorerHandle, some]

theorem explorerHandle_last (l : Layout) (disks : Bool) (activeIndex : Int) (e : DirEntry) (p : Page) :
    explorerHandle l disks activeIndex ⟨efiSuccess, 0, e⟩ p = p := by
  simp [explorerHandle]

/-- The entries are drawn one after the other. -/
def drawEntries (l : Layout) (disks : Bool) (activeIndex : Int) (entries : List DirEntry) (p : Page) : Page :=
  entries.foldl (fun p e => drawEntry l disks activeIndex e p) p

theorem drawEntries_snoc (l : Layout) (disks : Bool) (activeIndex : Int) (entries : List DirEntry)
    (e : DirEntry) (p : Page) :
    drawEntries l disks activeIndex (entries ++ [e]) p =
      drawEntry l disks activeIndex e (drawEntries l disks activeIndex entries p) :=
  List.foldl_append

theorem drawEntries_drawn (l : Layout) (disks : Bool) (activeIndex : Int) (entries : List DirEntry) :
    ∀ {taken : List DirEntry} {p : Page}, Drawn taken p →
      Drawn (taken ++ entries) (drawEntries l disks activeIndex entries p) := by
  induction entries with
  | nil =>
    intro taken p h
    rwa [List.append_nil]
  | cons e entries ih =>
    intro taken p h
    rw [List.append_cons]
    exact ih (drawEntry_drawn l disks activeIndex e h)

theorem explorerHandle_foldl (l : Layout) (disks : Bool) (activeIndex : Int) (entries : List DirEntry)
    (p : Page) :
    entries.foldl (fun page e => explorerHandle l disks activeIndex ⟨efiSuccess, e.size, e⟩ page) p =
      drawEntries l disks activeIndex entries p := by
  induction entries generalizing p with
  | nil => rfl
  | cons e entries ih =>
    rw [List.foldl_cons, explorerHandle_entry l disks activeIndex e (size_ne_zero e), ih]
    rfl

/-- The listing of a directory draws its entries. -/
theorem directory_draws (l : Layout) (activeIndex : Int) (types : Slots explorerSlots Bool)
    (names : Slots explorerSlots Str16) (szBuffer : DirEntry) {entries : List DirEntry}
    (fits : ∀ e ∈ entries, e.Fits) :
    ∃ r, Loop.Leaves (explorerTurn l activeIndex (.directory entries))
      (explorerStart types names szBuffer (.directory entries)) r ∧
      r.page = drawEntries l false activeIndex entries (Page.blank types names) := by
  have going : (explorerStart types names szBuffer (.directory entries)).szBufferSize ≠ 0 :=
    Nat.succ_ne_zero 254
  obtain ⟨r, last, leaves, page⟩ := enumTurn_leaves fits going rfl
  refine ⟨r, leaves, ?_⟩
  rw [page, explorerHandle_last]
  exact explorerHandle_foldl l false activeIndex entries (Page.blank types names)

theorem directory_leaves (l : Layout) (activeIndex : Int) (types : Slots explorerSlots Bool)
    (names : Slots explorerSlots Str16) (szBuffer : DirEntry) {entries : List DirEntry}
    (fits : ∀ e ∈ entries, e.Fits) :
    ∃ r, Loop.Leaves (explorerTurn l activeIndex (.directory entries))
      (explorerStart types names szBuffer (.directory entries)) r ∧ Drawn entries r.page := by
  obtain ⟨r, leaves, page⟩ := directory_draws l activeIndex types names szBuffer fits
  refine ⟨r, leaves, ?_⟩
  rw [page]
  exact drawEntries_drawn l false activeIndex entries (drawn_blank types names)

/-- The turn of the loop over the disks that reads the disk `i`. -/
theorem disks_turn (l : Layout) (activeIndex : Int) {count i : Nat} {st : Enumeration Page}
    (going : st.szBufferSize ≠ 0) (here : st.page.explorerCount = i) (more : i < count) :
    ∃ st', explorerTurn l activeIndex (.disks count) st = .again st' ∧ st'.szBufferSize ≠ 0 ∧
      st'.page = drawEntry l true activeIndex ⟨decimal i, true⟩ st.page := by
  have behind : ¬ st.page.explorerCount ≥ count := by omega
  have some : sizeofFileInfo + ((decimal i).length + 1) ≠ 0 := by omega
  refine ⟨{
    szBufferSize := sizeofFileInfo + ((decimal i).length + 1)
    szBuffer := ⟨decimal i, true⟩
    unread := st.unread
    page := drawEntry l true activeIndex ⟨decimal i, true⟩ st.page }, ?_, some, rfl⟩
  simp only [explorerTurn, enumTurn, going, if_false, readDisk, behind]
  rw [here, Int.toNat_natCast, explorerHandle_entry l true activeIndex _ some]

/-- The listing of the disks draws them. -/
theorem disks_draws (l : Layout) (activeIndex : Int) (types : Slots explorerSlots Bool)
    (names : Slots explorerSlots Str16) (szBuffer : DirEntry) (count : Nat) :
    ∃ r, Loop.Leaves (explorerTurn l activeIndex (.disks count))
      (explorerStart types names szBuffer (.disks count)) r ∧
      r.page = drawEntries l true activeIndex (Listing.disks count).entries (Page.blank types names) := by
  let Inv (taken left : List DirEntry) (st : Enumeration Page) : Prop :=
    taken ++ left = (Listing.disks count).entries ∧ st.szBufferSize ≠ 0 ∧
      st.page = drawEntries l true activeIndex taken (Page.blank types names)
  have counted : ∀ taken, (drawEntries l true activeIndex taken (Page.blank types names)).explorerCount =
      taken.length :=
    fun taken => (drawEntries_drawn l true activeIndex taken (drawn_blank types names)).count
  have again : ∀ taken e left st, Inv taken (e :: left) st →
      ∃ st', explorerTurn l activeIndex (.disks count) st = .again st' ∧
        Inv (taken ++ [e]) left st' := by
    rintro taken e left st ⟨whole, going, drawn⟩
    have lengths := congrArg List.length whole
    simp only [Listing.entries, List.length_append, List.length_cons, List.length_map,
      List.length_range] at lengths
    have entry : e = ⟨decimal taken.length, true⟩ := by
      have here := congrArg (·[taken.length]?) whole
      simpa [Listing.entries, show taken.length < count by omega] using here
    have here : st.page.explorerCount = taken.length := by rw [drawn, counted]
    obtain ⟨st', turn, going', page⟩ :=
      disks_turn l activeIndex going here (show taken.length < count by omega)
    refine ⟨st', turn, ?_, going', ?_⟩
    · rw [← whole, List.append_assoc, List.singleton_append]
    · rw [page, ← entry, drawn, drawEntries_snoc]
  have leave : ∀ taken st, Inv taken [] st →
      ∃ r, Loop.Leaves (explorerTurn l activeIndex (.disks count)) st r ∧
        r.page = drawEntries l true activeIndex taken (Page.blank types names) := by
    rintro taken st ⟨whole, going, drawn⟩
    have lengths := congrArg List.length whole
    simp only [Listing.entries, List.length_append, List.length_nil, List.length_map,
      List.length_range] at lengths
    have behind : st.page.explorerCount ≥ count := by
      rw [drawn, counted]
      omega
    have turn : explorerTurn l activeIndex (.disks count) st = .again { st with szBufferSize := 0 } := by
      simp [explorerTurn, enumTurn, going, readDisk, behind, explorerHandle_last]
    have stop : explorerTurn l activeIndex (.disks count) { st with szBufferSize := 0 } =
        .leave { st with szBufferSize := 0 } := rfl
    refine ⟨_, (Loop.leaves_again turn).2 ((Loop.leaves_leave stop).2 rfl), drawn⟩
  exact Loop.leaves_of_consuming Inv
    (fun taken r => r.page = drawEntries l true activeIndex taken (Page.blank types names)) again leave
    (Listing.disks count).entries [] (explorerStart types names szBuffer (.disks count))
    ⟨rfl, Nat.succ_ne_zero 254, rfl⟩

end Lavoro.Screen
