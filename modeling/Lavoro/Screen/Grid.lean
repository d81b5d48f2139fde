import Lavoro.Screen.Selection

/-!
# The grid of the explorer page

The loop that draws the page begins a new row where `currentX + file.W >= Explorer.W`, whereas Up and
Down step over `Explorer.W / file.W` entries. So a row has one entry less than a step where the width
of an icon divides the width of the page.
-/

namespace Lavoro.Screen
open Lib

namespace Layout

/-- `if ((currentX + file.W) >= Explorer.W)`, at the head of an entry. -/
def wrap (l : Layout) (currentX currentY : Int) : Int × Int :=
  if currentX + l.fileW ≥ l.explorerW then (0, currentY + (l.fileH + 40)) else (currentX, currentY)

/-- `currentX` and `currentY` when the loop comes to the entry `i`. -/
def cursor (l : Layout) : Nat → Int × Int
  | 0 => (0, 0)
  | i + 1 => ((l.wrap (l.cursor i).1 (l.cursor i).2).1 + l.fileW, (l.wrap (l.cursor i).1 (l.cursor i).2).2)

/-- Where the loop draws the entry `i`. -/
def cell (l : Layout) (i : Nat) : Int × Int := l.wrap (l.cursor i).1 (l.cursor i).2

/-- The number of entries that a row has room for. -/
def columns (l : Layout) : Nat := (l.explorerW - 1) / l.fileW

/-- The entry `j` is in the column of `i`, on the next row. -/
def Below (l : Layout) (i j : Nat) : Prop :=
  (l.cell j).1 = (l.cell i).1 ∧ (l.cell j).2 = (l.cell i).2 + (l.fileH + 40)

end Layout

/-! ## The cells of a page -/

/-- The cell of an item. -/
def Item.cell (i : Item) : Int × Int := (i.x, i.y)

/-- So many entries have been drawn in their cells, as far as there is room for them. -/
structure InCells (l : Layout) (n : Nat) (p : Page) : Prop where
  count : p.explorerCount = n
  placed : n ≤ explorerSlots →
    (p.currentX, p.currentY) = l.cursor n ∧ p.items.map Item.cell = (List.range n).map l.cell

theorem drawEntry_inCells (l : Layout) (disks : Bool) (activeIndex : Int) (e : DirEntry) {n : Nat} {p : Page}
    (h : InCells l n p) : InCells l (n + 1) (drawEntry l disks activeIndex e p) := by
  have count := h.count
  by_cases room : n < explorerSlots
  · have inside : 0 ≤ p.explorerCount ∧ p.explorerCount < (explorerSlots : Int) := by omega
    obtain ⟨types, putType, -⟩ := p.explorerTypes.put?_of_inside e.directory inside
    obtain ⟨names, putName, -⟩ := p.explorerNames.put?_of_inside e.fileName inside
    obtain ⟨cursor, cells⟩ := h.placed (Nat.le_of_lt room)
    have x : p.currentX = (l.cursor n).1 := congrArg Prod.fst cursor
    have y : p.currentY = (l.cursor n).2 := congrArg Prod.snd cursor
    have wrapped : l.wrap p.currentX p.currentY = l.cell n := by rw [x, y, Layout.cell]
    have here : (if p.currentX + l.fileW ≥ l.explorerW then 0 else p.currentX,
        if p.currentX + l.fileW ≥ l.explorerW then p.currentY + (l.fileH + 40) else p.currentY) =
        l.cell n := by
      rw [← wrapped, Layout.wrap]
      split
      · rfl
      · rfl
    simp only [drawEntry, putType, putName, decide_eq_true_eq]
    refine ⟨?_, fun _ => ⟨?_, ?_⟩⟩
    · simp [count]
    · have x' := congrArg Prod.fst here
      have y' := congrArg Prod.snd here
      simp only at x' y'
      simp only [x', y']
      rfl
    · rw [List.map_append, cells, List.range_succ, List.map_append]
      simp only [List.map_cons, List.map_nil, Item.cell, here]
  · have outside : ¬ (0 ≤ p.explorerCount ∧ p.explorerCount < (explorerSlots : Int)) := by omega
    simp only [drawEntry, Slots.put?_eq_none outside]
    refine ⟨?_, fun short => ?_⟩
    · simp [count]
    · omega

theorem drawEntries_inCells (l : Layout) (disks : Bool) (activeIndex : Int) (entries : List DirEntry) :
    ∀ {n : Nat} {p : Page}, InCells l n p →
      InCells l (n + entries.length) (drawEntries l disks activeIndex entries p) := by
  induction entries with
  | nil => exact fun h => h
  | cons e entries ih =>
    intro n p h
    rw [List.length_cons, Nat.add_comm entries.length 1, ← Nat.add_assoc]
    exact ih (drawEntry_inCells l disks activeIndex e h)

/-- **A redraw puts the entry `i` into the cell `i`.** -/
theorem draw_cells {m : Machine} {s t : Explorer} {szBuffer : DirEntry} {entries : List DirEntry}
    {fuel : Nat} (page : s.activePage = .explorer) (h : s.draw m szBuffer entries fuel = some t)
    (room : (s.listing m entries).entries.length ≤ explorerSlots) :
    t.explorerCount = (s.listing m entries).entries.length ∧
      t.items.map Item.cell = (List.range (s.listing m entries).entries.length).map m.layout.cell := by
  obtain ⟨disks, rfl⟩ := draw_explorer_draws page h
  have blank : InCells m.layout 0 (Page.blank s.explorerTypes s.explorerNames) :=
    ⟨rfl, fun _ => ⟨rfl, rfl⟩⟩
  have placed := drawEntries_inCells m.layout disks s.explorerActiveIndex (s.listing m entries).entries blank
  rw [Nat.zero_add] at placed
  exact ⟨placed.count, (placed.placed room).2⟩

/-! ## Rows and columns -/

namespace Layout

variable {l : Layout}

theorem columns_pos (narrow : l.fileW < l.explorerW) : 0 < l.columns :=
  Nat.div_pos (by omega) l.filePos

/-- The last column is the last one whose icon ends before the page does. -/
theorem columns_bounds (narrow : l.fileW < l.explorerW) :
    l.columns * l.fileW < l.explorerW ∧ l.explorerW ≤ (l.columns + 1) * l.fileW := by
  have whole := Nat.div_add_mod (l.explorerW - 1) l.fileW
  have part := Nat.mod_lt (l.explorerW - 1) l.filePos
  have columns : l.columns * l.fileW = l.fileW * ((l.explorerW - 1) / l.fileW) := Nat.mul_comm _ _
  rw [Nat.succ_mul]
  omega

/-- **The loop fills the page row by row.** -/
theorem cell_eq (narrow : l.fileW < l.explorerW) (i : Nat) :
    l.cell i = (((i % l.columns * l.fileW : Nat) : Int), ((i / l.columns * (l.fileH + 40) : Nat) : Int)) := by
  have pos := columns_pos narrow
  obtain ⟨inside, full⟩ := columns_bounds narrow
  rw [Nat.succ_mul] at full
  induction i with
  | zero =>
    have first : ¬ ((0 : Int) + l.fileW ≥ l.explorerW) := by omega
    rw [cell, cursor, wrap, if_neg first]
    simp
  | succ i ih =>
    have cursor : l.cursor (i + 1) = ((l.cell i).1 + l.fileW, (l.cell i).2) := rfl
    have whole := Nat.mod_add_div i l.columns
    have column := Nat.mod_lt i pos
    rw [cell, cursor, ih, wrap]
    by_cases last : i % l.columns + 1 = l.columns
    · have next : (i + 1) / l.columns = i / l.columns + 1 ∧ (i + 1) % l.columns = 0 := by
        rw [Nat.div_mod_unique pos, Nat.mul_add, Nat.mul_one]
        omega
      have width : i % l.columns * l.fileW + l.fileW = l.columns * l.fileW := by
        rw [← Nat.succ_mul, Nat.succ_eq_add_one, last]
      have wraps : ((i % l.columns * l.fileW : Nat) : Int) + l.fileW + l.fileW ≥ l.explorerW := by omega
      rw [if_pos wraps, next.1, next.2, Nat.succ_mul, Nat.zero_mul]
      simp
    · have next : (i + 1) / l.columns = i / l.columns ∧ (i + 1) % l.columns = i % l.columns + 1 := by
        rw [Nat.div_mod_unique pos]
        omega
      have width : (i % l.columns + 2) * l.fileW ≤ l.columns * l.fileW :=
        Nat.mul_le_mul_right l.fileW (by omega)
      rw [Nat.add_mul, Nat.two_mul] at width
      have fits : ¬ (((i % l.columns * l.fileW : Nat) : Int) + l.fileW + l.fileW ≥ l.explorerW) := by
        omega
      rw [if_neg fits, next.1, next.2, Nat.succ_mul]
      simp

/-- Every icon ends before the page does, so no coordinate reaches twice the width of the page. -/
theorem cell_inside (narrow : l.fileW < l.explorerW) (i : Nat) :
    0 ≤ (l.cell i).1 ∧ (l.cell i).1 + l.fileW < l.explorerW := by
  have pos := columns_pos narrow
  have inside := (columns_bounds narrow).1
  have width : (i % l.columns + 1) * l.fileW ≤ l.columns * l.fileW :=
    Nat.mul_le_mul_right l.fileW (Nat.mod_lt i pos)
  rw [Nat.succ_mul] at width
  rw [cell_eq narrow]
  simp only
  omega

/-- **The entry below** is as many entries further as a row has. -/
theorem below_iff (narrow : l.fileW < l.explorerW) (i j : Nat) :
    l.Below i j ↔ j = i + l.columns := by
  have pos := columns_pos narrow
  have height : 0 < l.fileH + 40 := Nat.succ_pos _
  have column : ((j % l.columns * l.fileW : Nat) : Int) = (i % l.columns * l.fileW : Nat) ↔
      j % l.columns = i % l.columns := by
    rw [Int.ofNat_inj, Nat.mul_left_inj (Nat.ne_of_gt l.filePos)]
  have row : ((j / l.columns * (l.fileH + 40) : Nat) : Int) =
      (i / l.columns * (l.fileH + 40) : Nat) + (l.fileH + 40) ↔ j / l.columns = i / l.columns + 1 := by
    have next : ((i / l.columns * (l.fileH + 40) : Nat) : Int) + (l.fileH + 40) =
        ((i / l.columns + 1) * (l.fileH + 40) : Nat) := by
      rw [Nat.succ_mul]
      simp
    rw [next, Int.ofNat_inj, Nat.mul_left_inj (Nat.ne_of_gt height)]
  rw [Below, cell_eq narrow i, cell_eq narrow j, column, row, And.comm, Nat.div_mod_unique pos]
  have whole := Nat.mod_add_div i l.columns
  have inside := Nat.mod_lt i pos
  rw [Nat.mul_add, Nat.mul_one]
  omega

/-- A row has as many entries as a step, or one less. -/
theorem perRow_eq (narrow : l.fileW < l.explorerW) :
    l.perRow = l.columns + if l.fileW ∣ l.explorerW then 1 else 0 := by
  have wide : l.explorerW = l.explorerW - 1 + 1 := by omega
  rw [perRow, columns, wide, Nat.succ_div, Nat.add_sub_cancel]

theorem perRow_eq_columns_iff (narrow : l.fileW < l.explorerW) :
    l.perRow = l.columns ↔ ¬ l.fileW ∣ l.explorerW := by
  rw [perRow_eq narrow]
  split
  · rename_i divides
    exact iff_of_false (by omega) (absurd divides)
  · rename_i rest
    exact iff_of_true rfl rest

end Layout

/-! ## Up and Down -/

/-- The selected entry is on the page. -/
def Explorer.OnPage (s : Explorer) : Prop :=
  0 ≤ s.explorerActiveIndex ∧ s.explorerActiveIndex < s.explorerCount

/-- Down selects the entry below and Up the one above, where the page has entries that far on. -/
structure Agrees (m : Machine) (s : Explorer) : Prop where
  down : s.explorerActiveIndex + m.layout.perRow < s.explorerCount →
    ∃ t, s.handleKey m .down = some t ∧ t.OnPage ∧
      m.layout.Below s.explorerActiveIndex.toNat t.explorerActiveIndex.toNat
  up : s.explorerActiveIndex - m.layout.perRow ≥ 0 →
    ∃ t, s.handleKey m .up = some t ∧ t.OnPage ∧
      m.layout.Below t.explorerActiveIndex.toNat s.explorerActiveIndex.toNat

section Moves

variable {m : Machine} {s : Explorer}

theorem down_index (page : s.activePage = .explorer)
    (room : s.explorerActiveIndex + m.layout.perRow < s.explorerCount) :
    s.handleKey m .down = some { s with
      explorerActiveIndex := s.explorerActiveIndex + m.layout.perRow, activePageDrawn := false } := by
  have inside : ¬ (s.explorerActiveIndex + (m.layout.perRow : Int) ≥ s.explorerCount) := by omega
  simp only [Explorer.handleKey, Explorer.moveTo, page, Explorer.notBeyond, inside, if_true, if_false]

theorem up_index (page : s.activePage = .explorer)
    (room : s.explorerActiveIndex - m.layout.perRow ≥ 0) :
    s.handleKey m .up = some { s with
      explorerActiveIndex := s.explorerActiveIndex - m.layout.perRow, activePageDrawn := false } := by
  have inside : ¬ (s.explorerActiveIndex - (m.layout.perRow : Int) < 0) := by omega
  simp only [Explorer.handleKey, Explorer.moveTo, page, Explorer.notBelow, inside, if_true, if_false]

/-- **The keys agree with the layout** exactly where the width of an icon does not divide that of the
page, or there are no entries that far on. -/
theorem navigation_agrees_iff (m : Machine) (s : Explorer) (narrow : m.layout.fileW < m.layout.explorerW)
    (page : s.activePage = .explorer) (selected : s.OnPage) :
    Agrees m s ↔ (m.layout.fileW ∣ m.layout.explorerW →
      s.explorerCount ≤ s.explorerActiveIndex + m.layout.perRow ∧
        s.explorerActiveIndex < m.layout.perRow) := by
  obtain ⟨low, high⟩ := selected
  have columns := Layout.perRow_eq_columns_iff narrow
  have pos := Layout.columns_pos narrow
  constructor
  · intro agrees divides
    have differ : m.layout.perRow ≠ m.layout.columns := fun eq => columns.1 eq divides
    constructor
    · apply Int.not_lt.1
      intro room
      obtain ⟨t, pressed, -, below⟩ := agrees.down room
      rw [down_index page room] at pressed
      cases pressed
      have same := (Layout.below_iff narrow _ _).1 below
      simp only at same
      omega
    · apply Int.not_le.1
      intro room
      have room : s.explorerActiveIndex - m.layout.perRow ≥ 0 := by omega
      obtain ⟨t, pressed, -, below⟩ := agrees.up room
      rw [up_index page room] at pressed
      cases pressed
      have same := (Layout.below_iff narrow _ _).1 below
      simp only at same
      omega
  · intro condition
    constructor
    · intro room
      have same : m.layout.perRow = m.layout.columns := by
        apply columns.2
        intro divides
        have none' := (condition divides).1
        omega
      refine ⟨_, down_index page room, ?_, (Layout.below_iff narrow _ _).2 ?_⟩
      · constructor
        · show 0 ≤ s.explorerActiveIndex + m.layout.perRow
          omega
        · exact room
      · simp only
        omega
    · intro room
      have same : m.layout.perRow = m.layout.columns := by
        apply columns.2
        intro divides
        have none' := (condition divides).2
        omega
      refine ⟨_, up_index page room, ?_, (Layout.below_iff narrow _ _).2 ?_⟩
      · constructor
        · exact room
        · show s.explorerActiveIndex - m.layout.perRow < s.explorerCount
          omega
      · simp only
        omega

end Moves

/-- A page that an icon does not fill exactly, and one that it does. -/
def ragged : Machine := { oneDisk with layout := { oneDisk.layout with explorerW := 350 } }

def flush : Machine := { oneDisk with layout := { oneDisk.layout with explorerW := 300 } }

/-- Four directories. -/
def fourEntries : List DirEntry := [⟨[97], true⟩, ⟨[98], true⟩, ⟨[99], true⟩, ⟨[100], true⟩]

theorem ragged_page_agrees :
    ∃ s, runActions (perform ragged 7) (fun _ _ => True) (chooseDisk fourEntries) blankExplorer = some s ∧
      s.OnPage ∧ Agrees ragged s := by
  have ends : (runActions (perform ragged 7) (fun _ _ => True) (chooseDisk fourEntries) blankExplorer).map
      (fun s => (s.explorerCount, s.explorerActiveIndex, s.activePage)) = some (4, 0, .explorer) := by
    decide
  obtain ⟨s, run, state⟩ := Option.map_eq_some_iff.1 ends
  simp only [Prod.mk.injEq] at state
  obtain ⟨count, index, page⟩ := state
  have selected : s.OnPage := by
    constructor
    · omega
    · omega
  refine ⟨s, run, selected, (navigation_agrees_iff ragged s (by decide) page selected).2 ?_⟩
  intro divides
  exact absurd divides (by decide)

/-- Three icons fill the page, a row has two: Down goes from the first entry to the second of the
next row. -/
theorem flush_page_disagrees :
    ∃ s, Reach (Step flush) (fun _ _ => True) Initial s ∧ s.explorerActiveIndex = 0 ∧
      s.items.map Item.cell = [(0, 0), (100, 0), (0, 140), (100, 140)] ∧
      (∃ t, s.handleKey flush .down = some t ∧ t.explorerActiveIndex = 3) ∧ ¬ Agrees flush s := by
  have ends : (runActions (perform flush 7) (fun _ _ => True) (chooseDisk fourEntries) blankExplorer).map
      (fun s => (s.explorerCount, s.explorerActiveIndex, s.activePage, s.items.map Item.cell)) =
      some (4, 0, .explorer, [(0, 0), (100, 0), (0, 140), (100, 140)]) := by
    decide
  obtain ⟨s, run, state⟩ := Option.map_eq_some_iff.1 ends
  simp only [Prod.mk.injEq] at state
  obtain ⟨count, index, page, cells⟩ := state
  have step : flush.layout.perRow = 3 := by decide
  have room : s.explorerActiveIndex + flush.layout.perRow < s.explorerCount := by omega
  have pressed := down_index page room
  refine ⟨s, .of_runActions (fun _ _ _ => perform_step) (.start blankExplorer_initial) run, index, cells,
    ⟨_, pressed, ?_⟩, ?_⟩
  · simp only
    omega
  · intro agrees
    obtain ⟨t, pressed', -, below⟩ := agrees.down room
    rw [pressed] at pressed'
    cases pressed'
    have columns : flush.layout.columns = 2 := by decide
    have same := (Layout.below_iff (by decide) _ _).1 below
    simp only at same
    omega

end Lavoro.Screen
