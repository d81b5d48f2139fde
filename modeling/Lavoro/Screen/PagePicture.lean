import Lavoro.Lib.Mosaic
import Lavoro.Screen.FontSafety
import Lavoro.Screen.Grid
import Lavoro.Screen.TextInside

/-!
# The picture of the explorer page

A redraw fills the page with white and draws, for every entry, its icon and below it a caption with its
name, a screen of `file.W` times 40 of its own. What comes of it is a mosaic: every icon and every
caption is to be seen in the cell of its entry, as much of it as is above the bottom of the page, and
between them the page is white (`redraw_picture`).
-/

namespace Lavoro.Screen
open Lib LScreen

/-- What the page is drawn with: the bitmaps, `ExplorerFont`, and what the memory holds that `new` finds. -/
structure PageArt where
  bitmap : Icon → LScreen
  explorerFont : Glyphs
  memory : Nat → BitVec 32

namespace PageArt

/-- `LScreen Caption (0, 0, file.W, 40)`, filled and with the name on it. -/
def caption (art : PageArt) (l : Layout) (name : Str16) : Except FontFault LScreen := do
  let caption := (LScreen.construct art.memory (BitVec.ofNat 32 l.fileW) (BitVec.ofNat 32 40)).fill 0xffffff
  let drawing ← art.explorerFont.drawText art.memory caption 20 name
  return drawing.screen

/-- The drawing that is done for an entry. -/
def drawItem (art : PageArt) (l : Layout) (explorer : LScreen) (i : Item) : Except FontFault LScreen := do
  let explorer := explorer.drawAt (art.bitmap i.icon) (BitVec.ofInt 32 i.x) (BitVec.ofInt 32 i.y)
  let caption ← art.caption l i.caption
  return explorer.drawAt caption (BitVec.ofInt 32 i.x) (BitVec.ofInt 32 (i.y + l.fileH))

/-- `Explorer.Fill(0xffffff)` and the drawing of the entries. -/
def drawPage (art : PageArt) (l : Layout) (explorer : LScreen) (items : List Item) : Except FontFault LScreen :=
  items.foldlM (art.drawItem l) (explorer.fill 0xffffff)

end PageArt

/-! ## The items of a redraw -/

/-- The item of the entry `i`. -/
def itemAt (l : Layout) (disks : Bool) (activeIndex : Int) (i : Nat) (e : DirEntry) : Item :=
  ⟨iconFor disks ((i : Int) == activeIndex) e, e.fileName, (l.cell i).1, (l.cell i).2⟩

/-- The entries have been drawn with their icons. -/
structure Iconed (disks : Bool) (activeIndex : Int) (taken : List DirEntry) (p : Page) : Prop where
  count : p.explorerCount = taken.length
  icons : taken.length ≤ explorerSlots →
    p.items.map Item.icon = taken.mapIdx fun i e => iconFor disks ((i : Int) == activeIndex) e

section Items

variable {l : Layout} {disks : Bool} {activeIndex : Int} {taken entries : List DirEntry} {p : Page}

theorem Iconed.next (h : Iconed disks activeIndex taken p) (l : Layout) (e : DirEntry) :
    Iconed disks activeIndex (taken ++ [e]) (drawEntry l disks activeIndex e p) := by
  have count := h.count
  by_cases room : taken.length < explorerSlots
  · have inside : 0 ≤ p.explorerCount ∧ p.explorerCount < (explorerSlots : Int) := by omega
    obtain ⟨types, putType, -⟩ := p.explorerTypes.put?_of_inside e.directory inside
    obtain ⟨names, putName, -⟩ := p.explorerNames.put?_of_inside e.fileName inside
    simp only [drawEntry, putType, putName]
    constructor
    · simp [count]
    · intro _
      rw [List.map_append, h.icons (Nat.le_of_lt room), List.mapIdx_append]
      simp [count]
  · have outside : ¬ (0 ≤ p.explorerCount ∧ p.explorerCount < (explorerSlots : Int)) := by omega
    simp only [drawEntry, Slots.put?_eq_none outside]
    constructor
    · simp [count]
    · intro short
      rw [List.length_append, List.length_singleton] at short
      omega

theorem iconed_drawEntries (h : Iconed disks activeIndex taken p) (l : Layout) (entries : List DirEntry) :
    Iconed disks activeIndex (taken ++ entries) (drawEntries l disks activeIndex entries p) := by
  induction entries generalizing taken p with
  | nil => rwa [List.append_nil]
  | cons e entries ih =>
    rw [List.append_cons]
    exact ih (h.next l e)

/-- **The items** of the page when all its entries have been drawn. -/
theorem drawEntries_items (l : Layout) (disks : Bool) (activeIndex : Int) {entries : List DirEntry}
    (types : Slots explorerSlots Bool) (names : Slots explorerSlots Str16) (room : entries.length ≤ explorerSlots) :
    (drawEntries l disks activeIndex entries (Page.blank types names)).items =
      entries.mapIdx (itemAt l disks activeIndex) := by
  have iconed : Iconed disks activeIndex [] (Page.blank types names) := ⟨rfl, fun _ => rfl⟩
  have blank : InCells l 0 (Page.blank types names) := ⟨rfl, fun _ => ⟨rfl, rfl⟩⟩
  have icons := (iconed_drawEntries iconed l entries).icons room
  have shown := ((drawEntries_drawn l disks activeIndex entries (drawn_blank types names)).shown room).1
  have cells := ((drawEntries_inCells l disks activeIndex entries blank).placed (by omega)).2
  rw [List.nil_append] at icons shown
  rw [Nat.zero_add] at cells
  generalize (drawEntries l disks activeIndex entries (Page.blank types names)).items = items at icons shown cells
  have length := congrArg List.length shown
  rw [List.length_map] at length
  apply List.ext_getElem
  · rw [length, List.length_mapIdx]
  · intro i left right
    have entry := congrArg (·[i]?) shown
    have icon := congrArg (·[i]?) icons
    have cell := congrArg (·[i]?) cells
    have inside : i < entries.length := by omega
    simp only [List.getElem?_map, List.getElem?_mapIdx, List.getElem?_eq_getElem left,
      List.getElem?_eq_getElem inside, List.getElem?_range inside, Option.map_some, Option.some.injEq] at entry icon cell
    rw [List.getElem_mapIdx, itemAt, ← icon, ← cell, ← entry]
    rfl

/-- What a redraw leaves on the page. -/
theorem draw_items {m : Machine} {s t : Explorer} {szBuffer : DirEntry} {read : List DirEntry} {fuel : Nat}
    (page : s.activePage = .explorer) (h : s.draw m szBuffer read fuel = some t)
    (room : (s.listing m read).entries.length ≤ explorerSlots) :
    t.items = (s.listing m read).entries.mapIdx
      (itemAt m.layout (decide (s.fileInterface = none)) s.explorerActiveIndex) := by
  simp only [Explorer.draw, page, Option.map_eq_some_iff] at h
  obtain ⟨r, run, rfl⟩ := h
  have leaves : Loop.Leaves _ _ r := ⟨fuel, run⟩
  show r.page.items = _
  by_cases none : s.fileInterface = none
  · have listing : s.listing m read = .disks m.fileInterfaces.length := if_pos none
    rw [listing] at leaves room ⊢
    obtain ⟨r', leaves', drawn⟩ := disks_draws m.layout s.explorerActiveIndex s.explorerTypes
      s.explorerNames szBuffer m.fileInterfaces.length
    rw [leaves.unique leaves', drawn, decide_eq_true none]
    exact drawEntries_items _ _ _ _ _ room
  · have listing : s.listing m read = .directory read := if_neg none
    rw [listing] at leaves room ⊢
    have going : (explorerStart s.explorerTypes s.explorerNames szBuffer (.directory read)).szBufferSize ≠ 0 :=
      Nat.succ_ne_zero 254
    obtain ⟨r', leaves', drawn⟩ := directory_draws m.layout s.explorerActiveIndex s.explorerTypes
      s.explorerNames szBuffer (fits_of_leaves going rfl leaves)
    rw [leaves.unique leaves', drawn, decide_eq_false none]
    exact drawEntries_items _ _ _ _ _ room

end Items

/-! ## Drawing in a column of the page -/

/-- The picture of a screen at a place. -/
def tileOf (s : LScreen) (x y : Int) : Tile (BitVec 32) := ⟨s.w.toNat, s.h.toNat, x, y, s.value s.w.toNat⟩

section Columns

variable {e f : Extent} {x y : Nat}

/-- **No row of a picture inside of its column runs over**, however far down the picture reaches. -/
theorem drawsInside_column (column : x + f.w ≤ e.w) (small : (y + f.h) * e.w < 2147483648) :
    DrawsInside e f x y := by
  by_cases narrow : f.w = 0
  · exact .inl narrow
  by_cases flat : f.h = 0
  · exact .inr (.inl flat)
  have rows : (y + f.h) * e.w = y * e.w + (f.h - 1) * e.w + e.w := by
    rw [← Nat.add_mul, ← Nat.succ_mul]
    congr 1
    omega
  have last : (((f.h - 1) * e.w : Nat) : Int) = ((f.h : Int) - 1) * e.w := by
    rw [Nat.cast_mul, Nat.cast_sub (Nat.pos_of_ne_zero flat), Nat.cast_one]
  have place : (y : Int) * e.w + x = (y * e.w + x : Nat) := by
    push_cast
    rfl
  have first (k : Nat) (bound : k < 2147483648) : (k : Int).bmod 4294967296 = k := by
    apply Int.bmod_eq_of_le_mul_two
    · omega
    · omega
  right
  right
  rw [place, first _ (by omega), ← last]
  refine ⟨Int.natCast_nonneg _, by omega, ?_⟩
  by_cases down : y < e.h
  · exact .inr ⟨Int.natCast_nonneg _, by omega, Int.natCast_nonneg _, by omega, .inl (by omega)⟩
  · left
    have below : e.h * e.w ≤ y * e.w := Nat.mul_le_mul_right e.w (Nat.le_of_not_lt down)
    rw [Nat.mul_comm] at below
    apply Int.ofNat_le.2
    exact Nat.le_trans below (Nat.le_add_right _ _)

/-- So it is clipped. -/
theorem drawAt_column {target source : LScreen} (has : target.Has e) (from' : source.Has f)
    (column : x + f.w ≤ e.w) (wide : 0 < e.w) (small : (y + f.h) * e.w < 2147483648) :
    (target.drawAt source (BitVec.ofInt 32 x) (BitVec.ofInt 32 y)).Has e ∧
      Clips e.w e.h (tileOf source x y).w (tileOf source x y).h x y (tileOf source x y).value target.pixels.cells
        (target.drawAt source (BitVec.ofInt 32 x) (BitVec.ofInt 32 y)).pixels.cells := by
  have down : y ≤ (y + f.h) * e.w := Nat.le_trans (Nat.le_add_right y f.h) (Nat.le_mul_of_pos_right _ wide)
  have left := e.width
  have placeX : (BitVec.ofInt 32 x).toInt = x := toInt_word (by omega)
  have placeY : (BitVec.ofInt 32 y).toInt = y := toInt_word (by omega)
  have inside : DrawsInside e f (BitVec.ofInt 32 x).toInt (BitVec.ofInt 32 y).toInt := by
    rw [placeX, placeY]
    exact drawsInside_column column small
  have clipped := (drawAt_clips_iff e f _ _).2 inside target source has from'
  have cells := clipped.cells
  rw [placeX, placeY] at cells
  refine ⟨clipped.has, ?_⟩
  show Clips e.w e.h source.w.toNat source.h.toNat x y (source.value source.w.toNat) _ _
  rw [from'.toNat_w, from'.toNat_h]
  exact cells

end Columns

/-! ## The picture -/

namespace PageArt

/-- The picture of the entry `i`: its icon and, below it, the screen with its name. -/
def tiles (art : PageArt) (l : Layout) (captions : Str16 → LScreen) (i : Item) : List (Tile (BitVec 32)) :=
  [tileOf (art.bitmap i.icon) i.x i.y, tileOf (captions i.caption) i.x (i.y + l.fileH)]

/-- No bitmap is larger than `file`, by which the page is laid out. -/
def Fits (art : PageArt) (l : Layout) : Prop :=
  ∀ icon, ∃ f : Extent, (art.bitmap icon).Has f ∧ f.w ≤ l.fileW ∧ f.h ≤ l.fileH

/-- The captions of these entries can be drawn, and are these screens. -/
def Captioned (art : PageArt) (l : Layout) (entries : List DirEntry) (captions : Str16 → LScreen) : Prop :=
  ∃ f : Extent, f.w = l.fileW ∧ f.h = 40 ∧ ∀ e ∈ entries,
    art.caption l e.fileName = .ok (captions e.fileName) ∧ (captions e.fileName).Has f

end PageArt

section Picture

variable {art : PageArt} {l : Layout} {captions : Str16 → LScreen} {e : Extent}

/-- The item can be drawn in its column. -/
structure Item.Placed (l : Layout) (e : Extent) (i : Item) : Prop where
  x : 0 ≤ i.x
  y : 0 ≤ i.y
  column : i.x + l.fileW ≤ e.w
  small : (i.y + (l.fileH + 40)) * e.w < 2147483648

/-- **An item is drawn.** -/
theorem drawItem_paints (fits : art.Fits l) (wide : 0 < e.w) {i : Item} (placed : i.Placed l e) {f : Extent}
    (width : f.w = l.fileW) (height : f.h = 40) (drawn : art.caption l i.caption = .ok (captions i.caption))
    (size : (captions i.caption).Has f) {explorer : LScreen} (has : explorer.Has e) :
    ∃ result, art.drawItem l explorer i = .ok result ∧ result.Has e ∧
      Painted e.w e.h explorer.pixels.cells (art.tiles l captions i) result.pixels.cells := by
  obtain ⟨g, icon, narrow, low⟩ := fits i.icon
  obtain ⟨icon', caption', x, y⟩ := i
  obtain ⟨x, rfl⟩ := Int.eq_ofNat_of_zero_le placed.x
  obtain ⟨y, rfl⟩ := Int.eq_ofNat_of_zero_le placed.y
  have column := placed.column
  have small : ((y : Int) + (l.fileH + 40)) * e.w < 2147483648 := placed.small
  norm_cast at small
  dsimp only at column icon drawn size
  have above : (y + g.h) * e.w ≤ (y + (l.fileH + 40)) * e.w := Nat.mul_le_mul_right _ (by omega)
  have below : (y + l.fileH + f.h) * e.w ≤ (y + (l.fileH + 40)) * e.w := Nat.mul_le_mul_right _ (by omega)
  obtain ⟨has', first⟩ := @drawAt_column e g x y _ _ has icon (by omega) wide (by omega)
  obtain ⟨has'', second⟩ := @drawAt_column e f x (y + l.fileH) _ _ has' size (by omega) wide (by omega)
  refine ⟨_, ?_, has'', .cons first (.cons second .nil)⟩
  rw [PageArt.drawItem, drawn]
  rfl

/-- **All items**, one after the other. -/
theorem drawItems_paint (fits : art.Fits l) (wide : 0 < e.w) {f : Extent} (width : f.w = l.fileW) (height : f.h = 40)
    {items : List Item} (placed : ∀ i ∈ items, i.Placed l e)
    (drawn : ∀ i ∈ items, art.caption l i.caption = .ok (captions i.caption) ∧ (captions i.caption).Has f)
    {explorer : LScreen} (has : explorer.Has e) :
    ∃ result, items.foldlM (art.drawItem l) explorer = .ok result ∧ result.Has e ∧
      Painted e.w e.h explorer.pixels.cells (items.flatMap (art.tiles l captions)) result.pixels.cells := by
  induction items generalizing explorer with
  | nil => exact ⟨explorer, rfl, has, .nil⟩
  | cons i items ih =>
    obtain ⟨here, others⟩ := List.forall_mem_cons.1 placed
    obtain ⟨⟨name, size⟩, names⟩ := List.forall_mem_cons.1 drawn
    obtain ⟨next, turn, has', first⟩ := drawItem_paints fits wide here width height name size has
    obtain ⟨result, run, has'', rest⟩ := ih others names has'
    refine ⟨result, ?_, has'', ?_⟩
    · rw [List.foldlM_cons, turn]
      exact run
    · rw [List.flatMap_cons]
      exact first.append rest

/-- The tiles of an item lie in its cell. -/
theorem tiles_within (fits : art.Fits l) {i : Item} {f : Extent} (width : f.w = l.fileW) (height : f.h = 40)
    (size : (captions i.caption).Has f) {t : Tile (BitVec 32)} (mem : t ∈ art.tiles l captions i) :
    t.Within l.fileW (l.fileH + 40) i.x i.y := by
  obtain ⟨g, icon, narrow, low⟩ := fits i.icon
  rcases List.mem_pair.1 mem with rfl | rfl
  · have w := icon.toNat_w
    have h := icon.toNat_h
    constructor
    · exact Int.le_refl _
    · show i.x + ((art.bitmap i.icon).w.toNat : Int) ≤ _
      omega
    · exact Int.le_refl _
    · show i.y + ((art.bitmap i.icon).h.toNat : Int) ≤ _
      omega
  · have w := size.toNat_w
    have h := size.toNat_h
    constructor
    · exact Int.le_refl _
    · show i.x + ((captions i.caption).w.toNat : Int) ≤ _
      omega
    · show i.y ≤ i.y + (l.fileH : Int)
      omega
    · show i.y + (l.fileH : Int) + ((captions i.caption).h.toNat : Int) ≤ _
      omega

/-- The icon and the caption of an item. -/
theorem tiles_pairwise (fits : art.Fits l) (i : Item) : (art.tiles l captions i).Pairwise Tile.Apart := by
  obtain ⟨g, icon, narrow, low⟩ := fits i.icon
  have h := icon.toNat_h
  apply List.pairwise_pair.2
  rintro p q ⟨-, -, -, above⟩ ⟨-, -, below, -⟩
  have above : (q : Int) < i.y + ((art.bitmap i.icon).h.toNat : Int) := above
  have below : i.y + (l.fileH : Int) ≤ q := below
  omega

/-- No cell has a point in common with another. -/
theorem items_pairwise (fits : art.Fits l) (narrow : l.fileW < l.explorerW) {entries : List DirEntry}
    (disks : Bool) (activeIndex : Int) (captioned : art.Captioned l entries captions) :
    ((entries.mapIdx (itemAt l disks activeIndex)).flatMap (art.tiles l captions)).Pairwise Tile.Apart := by
  obtain ⟨f, width, height, drawn⟩ := captioned
  refine List.pairwise_flatMap.2 ⟨fun i _ => tiles_pairwise fits i, ?_⟩
  rw [List.pairwise_iff_getElem]
  intro i j left right lt s first t second p q has has'
  rw [List.length_mapIdx] at left right
  rw [List.getElem_mapIdx] at first second
  have here := (tiles_within fits width height (drawn _ (List.getElem_mem left)).2 first).has has
  have there := (tiles_within fits width height (drawn _ (List.getElem_mem right)).2 second).has has'
  simp only [itemAt, Layout.cell_eq narrow] at here there
  have same := cells_apart here there
  omega

/-- The items lie in columns of the page. -/
theorem itemAt_placed (narrow : l.fileW < l.explorerW) (width : e.w = l.explorerW)
    (small : explorerSlots * (l.fileH + 40) * e.w < 2147483648) (disks : Bool) (activeIndex : Int) {i : Nat}
    (room : i < explorerSlots) (d : DirEntry) : (itemAt l disks activeIndex i d).Placed l e := by
  obtain ⟨start, column⟩ := Layout.cell_inside narrow i
  refine ⟨start, ?_, ?_, ?_⟩
  · show 0 ≤ (l.cell i).2
    rw [Layout.cell_eq narrow]
    exact Int.natCast_nonneg _
  · show (l.cell i).1 + l.fileW ≤ e.w
    omega
  · show ((l.cell i).2 + (l.fileH + 40)) * e.w < 2147483648
    rw [Layout.cell_eq narrow]
    show (((i / l.columns * (l.fileH + 40) : Nat) : Int) + (l.fileH + 40)) * e.w < 2147483648
    have row : i / l.columns + 1 ≤ explorerSlots := Nat.lt_of_le_of_lt (Nat.div_le_self _ _) room
    have rows := Nat.mul_le_mul_right e.w (Nat.mul_le_mul_right (l.fileH + 40) row)
    have below : (i / l.columns + 1) * (l.fileH + 40) * e.w < 2147483648 := Nat.lt_of_le_of_lt rows small
    rw [Nat.succ_mul] at below
    exact_mod_cast below

/-- **The picture of a page**, for any entries that there is room for. -/
theorem page_mosaic (fits : art.Fits l) {entries : List DirEntry} (captioned : art.Captioned l entries captions)
    (narrow : l.fileW < l.explorerW) (room : entries.length ≤ explorerSlots) {explorer : LScreen} (has : explorer.Has e)
    (width : e.w = l.explorerW) (small : explorerSlots * (l.fileH + 40) * e.w < 2147483648) (disks : Bool)
    (activeIndex : Int) :
    ∃ result, art.drawPage l explorer (entries.mapIdx (itemAt l disks activeIndex)) = .ok result ∧ result.Has e ∧
      Mosaic e.w e.h (fun _ => 0xffffff)
        ((entries.mapIdx (itemAt l disks activeIndex)).flatMap (art.tiles l captions)) result.pixels.cells := by
  have apart := items_pairwise fits narrow disks activeIndex captioned
  obtain ⟨f, captionW, captionH, drawn⟩ := captioned
  have wide : 0 < e.w := by omega
  have placed : ∀ i ∈ entries.mapIdx (itemAt l disks activeIndex), i.Placed l e := by
    intro i mem
    obtain ⟨k, inside, rfl⟩ := List.mem_mapIdx.1 mem
    exact itemAt_placed narrow width small disks activeIndex (by omega) _
  have names : ∀ i ∈ entries.mapIdx (itemAt l disks activeIndex),
      art.caption l i.caption = .ok (captions i.caption) ∧ (captions i.caption).Has f := by
    intro i mem
    obtain ⟨k, inside, rfl⟩ := List.mem_mapIdx.1 mem
    exact drawn _ (List.getElem_mem inside)
  rw [PageArt.drawPage, fill_eq has]
  obtain ⟨result, run, has', painted⟩ := drawItems_paint fits wide captionW captionH placed names
    (has_withCells has fun c => if c < e.w * e.h then 0xffffff else explorer.pixels.cells c)
  obtain ⟨shown, ground⟩ := painted.mosaic apart
  refine ⟨result, run, has', shown, fun p q left up none => ?_⟩
  rw [ground p q left up none]
  exact if_pos (cell_lt left up)

end Picture

/-! ## The captions -/

namespace PageArt

/-- The name can be set in a column: its characters have bitmaps that can be scaled and are not too wide, and its
lines have numbers that do not overflow. -/
structure Names (art : PageArt) (l : Layout) (name : Str16) : Prop where
  scalable : ∀ char ∈ name, Prints char → Scalable art.memory art.explorerFont 20 char
  narrow : ∀ char ∈ name, Prints char → art.explorerFont.boxWidth 20 char ≤ l.fileW
  short : (name.length + 1) * 20 * (l.fileW + 40) < 2147483648

/-- A caption, of `file.W` times 40 points and never written outside its array, which is white but for the cells of
the characters of the name. -/
structure Shows (art : PageArt) (l : Layout) (name : Str16) (caption : LScreen) : Prop where
  drawn : art.caption l name = .ok caption
  inside : ∃ f : Extent, f.w = l.fileW ∧ f.h = 40 ∧ caption.Has f
  ground : ∀ x y : Nat, x < l.fileW → y < 40 →
    (∀ c ∈ art.explorerFont.cells l.fileW 20 name, ¬ Covers c.w 20 c.x c.y x y) → caption.value l.fileW y x = 0xffffff

end PageArt

/-- **A caption is drawn.** -/
theorem caption_shows {art : PageArt} {l : Layout} {name : Str16} {f : Extent} (width : f.w = l.fileW) (height : f.h = 40)
    (fits : art.explorerFont.Fits) (some : art.explorerFont.charHeight ≠ 0) (names : art.Names l name) :
    ∃ caption, art.Shows l name caption ∧ caption.Has f := by
  have area : (name.length + 1) * 20 * f.w ≤ (name.length + 1) * 20 * (l.fileW + 40) :=
    Nat.mul_le_mul_left _ (by omega)
  have right : name.length * (f.w + 2 * 20) ≤ (name.length + 1) * 20 * (l.fileW + 40) :=
    Nat.mul_le_mul (by omega) (by omega)
  have short := names.short
  let cleared := ofCells f fun c => if c < f.w * f.h then 0 else art.memory c
  let white := cleared.fill 0xffffff
  have new : LScreen.construct art.memory (BitVec.ofNat 32 l.fileW) (BitVec.ofNat 32 40) = cleared := by
    rw [← width, ← height]
    exact LScreen.construct_eq art.memory f
  have filled := fill_eq (has_ofCells f fun c => if c < f.w * f.h then 0 else art.memory c) 0xffffff
  have has : white.Has f := by
    rw [show white = _ from filled]
    exact has_withCells (has_ofCells f _) _
  obtain ⟨d, drawn, has', frame⟩ := text_drawn art.memory fits some (by decide) has names.scalable
    (width ▸ names.narrow) (by omega) (by omega)
  refine ⟨d.screen, ⟨?_, ⟨f, width, height, has'⟩, fun x y left up none => ?_⟩, has'⟩
  · rw [PageArt.caption, new]
    show (art.explorerFont.drawText art.memory white (BitVec.ofNat 32 20) name >>= _) = _
    rw [drawn]
    rfl
  · rw [← width] at left none ⊢
    rw [frame x y left (height ▸ up) none, show white = _ from filled]
    exact if_pos (cell_lt left (height ▸ up))

/-- **A page with its captions**, for any entries that there is room for. -/
theorem page_shown {art : PageArt} {l : Layout} (fits : art.Fits l) (font : art.explorerFont.Fits)
    (some : art.explorerFont.charHeight ≠ 0) {entries : List DirEntry} (room : entries.length ≤ explorerSlots)
    (names : ∀ d ∈ entries, art.Names l d.fileName) (narrow : l.fileW < l.explorerW) {e : Extent} {explorer : LScreen}
    (has : explorer.Has e) (width : e.w = l.explorerW) (small : explorerSlots * (l.fileH + 40) * e.w < 2147483648)
    (disks : Bool) (activeIndex : Int) :
    ∃ captions : Str16 → LScreen, ∃ result,
      (∀ d ∈ entries, art.Shows l d.fileName (captions d.fileName)) ∧
      art.drawPage l explorer (entries.mapIdx (itemAt l disks activeIndex)) = .ok result ∧ result.Has e ∧
      Mosaic e.w e.h (fun _ => 0xffffff)
        ((entries.mapIdx (itemAt l disks activeIndex)).flatMap (art.tiles l captions)) result.pixels.cells := by
  have wide := e.width
  have column : l.fileW * 40 ≤ explorerSlots * (l.fileH + 40) * e.w := by
    rw [Nat.mul_comm]
    exact Nat.mul_le_mul (by rw [explorerSlots]; omega) (by omega)
  let f : Extent := ⟨l.fileW, 40, by omega, by decide, by omega⟩
  let captions (name : Str16) : LScreen := (art.caption l name).toOption.getD explorer
  have shown : ∀ d ∈ entries, art.Shows l d.fileName (captions d.fileName) ∧ (captions d.fileName).Has f := by
    intro d mem
    obtain ⟨caption, shows, size⟩ := @caption_shows art l d.fileName f rfl rfl font some (names d mem)
    have same : captions d.fileName = caption := by
      show (art.caption l d.fileName).toOption.getD explorer = caption
      rw [shows.drawn]
      rfl
    rw [same]
    exact ⟨shows, size⟩
  have captioned : art.Captioned l entries captions :=
    ⟨f, rfl, rfl, fun d mem => ⟨(shown d mem).1.drawn, (shown d mem).2⟩⟩
  obtain ⟨result, drawn, has', mosaic⟩ := page_mosaic fits captioned narrow room has width small disks activeIndex
  exact ⟨captions, result, fun d mem => (shown d mem).1, drawn, has', mosaic⟩

/-- **The picture of a redraw.** Whatever the state, where the bitmaps are no larger than `file`, the font has glyphs
and the names can be set in it, the page shows every icon and every caption in the cell of its entry, clipped at the
bottom, and is white everywhere else; the captions show the names, and neither they nor the page are written outside of
their arrays. -/
theorem redraw_picture {m : Machine} {s t : Explorer} {szBuffer : DirEntry} {read : List DirEntry} {fuel : Nat}
    (page : s.activePage = .explorer) (h : s.draw m szBuffer read fuel = some t)
    (room : (s.listing m read).entries.length ≤ explorerSlots) (narrow : m.layout.fileW < m.layout.explorerW)
    {art : PageArt} (fits : art.Fits m.layout) (font : art.explorerFont.Fits) (some : art.explorerFont.charHeight ≠ 0)
    (names : ∀ d ∈ (s.listing m read).entries, art.Names m.layout d.fileName) {e : Extent} {explorer : LScreen}
    (has : explorer.Has e) (width : e.w = m.layout.explorerW)
    (small : explorerSlots * (m.layout.fileH + 40) * e.w < 2147483648) :
    ∃ captions : Str16 → LScreen, ∃ result,
      (∀ d ∈ (s.listing m read).entries, art.Shows m.layout d.fileName (captions d.fileName)) ∧
      art.drawPage m.layout explorer t.items = .ok result ∧ result.Has e ∧
      Mosaic e.w e.h (fun _ => 0xffffff) (((s.listing m read).entries.mapIdx
        (itemAt m.layout (decide (s.fileInterface = none)) s.explorerActiveIndex)).flatMap
          (art.tiles m.layout captions)) result.pixels.cells := by
  rw [draw_items page h room]
  exact page_shown fits font some room names narrow has width small _ _

/-- The explorer page of a disk. -/
def onDisk : Explorer := { blankExplorer with activePage := .explorer, fileInterface := some 0 }

/-- Small bitmaps, and a font without glyphs. -/
def plainArt : PageArt := ⟨fun _ => ofCells square fun _ => 0, { Glyphs.new with charHeight := 2 }, fun _ => 0⟩

theorem plainArt_blank (char : UInt16) : plainArt.explorerFont.getCharBitmap char = none :=
  Glyphs.getCharBitmap_new char

theorem plainArt_font : plainArt.explorerFont.Fits := by
  intro char glyph there
  rw [plainArt_blank] at there
  cases there

theorem plainArt_fits : plainArt.Fits oneDisk.layout :=
  fun _ => ⟨square, has_ofCells square _, by decide, by decide⟩

theorem plainArt_names {name : Str16} (short : (name.length + 1) * 20 * 140 < 2147483648) :
    plainArt.Names oneDisk.layout name := by
  have whole : plainArt.explorerFont.Whole := by
    intro char glyph there
    rw [plainArt_blank] at there
    cases there
  have width (char : UInt16) : plainArt.explorerFont.bitmapWidth char = 1 := by
    rw [Glyphs.bitmapWidth, plainArt_blank]
    rfl
  have height (char : UInt16) : plainArt.explorerFont.bitmapHeight char = 2 := by
    rw [Glyphs.bitmapHeight, plainArt_blank]
    rfl
  refine ⟨fun char _ _ => ?_, fun char _ _ => ?_, short⟩
  · apply (scalable_iff _ whole char).2
    exact ⟨⟨1, 2, by decide, by decide, by decide⟩, width char, height char, by decide, by decide, by decide⟩
  · rw [Glyphs.boxWidth, width]
    decide

/-- A page of 800 times 600, with two entries. -/
theorem two_entries_shown :
    ∃ (t : Explorer) (captions : Str16 → LScreen) (result : LScreen),
      plainArt.drawPage oneDisk.layout (ofCells ⟨800, 600, by decide, by decide, by decide⟩ fun _ => 7) t.items =
        .ok result ∧
      Mosaic 800 600 (fun _ => 0xffffff)
        (([⟨[97], true⟩, ⟨[98], false⟩] : List DirEntry).mapIdx (itemAt oneDisk.layout false 0) |>.flatMap
          (plainArt.tiles oneDisk.layout captions)) result.pixels.cells := by
  have drawn : (onDisk.draw oneDisk ⟨[], false⟩ [⟨[97], true⟩, ⟨[98], false⟩] 5).isSome = true := by decide
  obtain ⟨t, drawn⟩ := Option.isSome_iff_exists.1 drawn
  have names : ∀ d ∈ (onDisk.listing oneDisk [⟨[97], true⟩, ⟨[98], false⟩]).entries,
      plainArt.Names oneDisk.layout d.fileName := by
    intro d mem
    have mem : d ∈ ([⟨[97], true⟩, ⟨[98], false⟩] : List DirEntry) := mem
    rcases List.mem_pair.1 mem with rfl | rfl
    · exact plainArt_names (by decide)
    · exact plainArt_names (by decide)
  obtain ⟨captions, result, -, made, -, mosaic⟩ := redraw_picture rfl drawn (by decide) (by decide) plainArt_fits
    plainArt_font (by decide) names (has_ofCells ⟨800, 600, by decide, by decide, by decide⟩ fun _ => 7) rfl (by decide)
  exact ⟨t, captions, result, made, mosaic⟩

end Lavoro.Screen
