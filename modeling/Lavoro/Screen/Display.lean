import Lavoro.Screen.PagePicture
import Lavoro.Screen.Viewer

/-!
# What is on the display

The four pages of `ScreenMode` are screens of one size. The active one is drawn into its screen and painted
below the logo when `ActivePageDrawn` says that this has not been done; keys only change what is to be drawn
next. So whenever the program waits for a key, the display shows the active page, the explorer page
shows the entries that `ExplorerNames` and `ExplorerTypes` hold, and nothing else of the display has changed
(`display_invariant`).
-/

namespace Lavoro.Screen
open Lib LScreen

/-- What the file of the selected entry is shown as: a bitmap, or a text of at most 4096 characters. -/
inductive Viewed where
  | bitmap (bitmap : MaskedScreen)
  | text (szContent : Str16)

/-- The screens of the pages and the video. -/
structure Display where
  control : Explorer
  pages : ActivePage → LScreen
  video : Frame

/-- The part for the viewer, whose font is that of the explorer. -/
def drawViewer (art : PageArt) (s : Explorer) (viewed : Viewed) (viewer : LScreen) : Except FontFault LScreen :=
  if s.fileInterface = none then .ok viewer
  else if s.explorerTypes.at? s.explorerActiveIndex = some false then
    match viewed with
    | .bitmap bitmap => .ok (showBitmap art.memory bitmap viewer)
    | .text szContent => do
      let drawing ← art.explorerFont.drawText art.memory (viewer.fill 0xFFFE91) 45 szContent
      return drawing.screen
  else .ok viewer

/-- What is drawn into the screen of the active page; `t` is the state behind it. -/
def drawActive (m : Machine) (art : PageArt) (s t : Explorer) (viewed : Viewed) (page : LScreen) :
    Except FontFault LScreen :=
  match s.activePage with
  | .help => .ok page
  | .explorer => art.drawPage m.layout page t.items
  | .viewer => drawViewer art s viewed page
  | .readme => .ok page

/-- `LScreen (0, logo.H + 4, ..)`, whose `top` is `logo.H + 4`. -/
def placedAt (top : Nat) (page : LScreen) : MaskedScreen where
  toLScreen := page
  x := 0
  y := BitVec.ofNat 32 top
  emptyColor := -1
  hasMask := false

/-- What happens in a round of `ScreenMode`. -/
inductive DisplayAction where
  | draw (szBuffer : DirEntry) (entries : List DirEntry) (viewed : Viewed)
  | key (k : Key)

/-- One action: the active page is drawn and painted, or a key is handled. -/
def DisplayStep (m : Machine) (art : PageArt) (top : Nat) (d : Display) : DisplayAction → Display → Prop
  | .draw szBuffer entries viewed, d' =>
    ∃ t page video, Step m d.control (.draw szBuffer entries) t ∧
      drawActive m art d.control t viewed (d.pages d.control.activePage) = .ok page ∧
      (placedAt top page).paint (some d.video) = some video ∧
      d' = ⟨t, Function.update d.pages d.control.activePage page, video⟩
  | .key k, d' => ∃ t, Step m d.control (.key k) t ∧ d' = { d with control := t }

/-! ## What a step leaves alone -/

section Control

variable {m : Machine} {s t : Explorer}

/-- A key changes no entry of the page, and a page that stays drawn stays active. -/
theorem handleKey_frame {k : Key} (h : s.handleKey m k = some t) :
    t.items = s.items ∧ (t.activePageDrawn = true → t.activePage = s.activePage ∧ s.activePageDrawn = true) := by
  have showPage (page : ActivePage) : (s.showPage page).items = s.items ∧
      ((s.showPage page).activePageDrawn = true →
        (s.showPage page).activePage = s.activePage ∧ s.activePageDrawn = true) := by
    unfold Explorer.showPage
    split
    · exact ⟨rfl, fun drawn => ⟨rfl, drawn⟩⟩
    · exact ⟨rfl, nofun⟩
  have moveTo (index : Int) : (s.moveTo index).items = s.items ∧
      ((s.moveTo index).activePageDrawn = true →
        (s.moveTo index).activePage = s.activePage ∧ s.activePageDrawn = true) := by
    unfold Explorer.moveTo
    split
    · exact ⟨rfl, nofun⟩
    · exact ⟨rfl, fun drawn => ⟨rfl, drawn⟩⟩
  cases k with
  | esc => cases h
  | f12 => cases h
  | f1 => cases h; exact showPage .help
  | f3 => cases h; exact showPage .viewer
  | f10 => cases h; exact showPage .readme
  | up => cases h; exact moveTo _
  | down => cases h; exact moveTo _
  | left => cases h; exact moveTo _
  | right => cases h; exact moveTo _
  | other => cases h; exact ⟨rfl, fun drawn => ⟨rfl, drawn⟩⟩
  | f2 =>
    cases h
    split
    · exact ⟨rfl, nofun⟩
    · exact showPage .explorer
  | enter =>
    cases h
    split
    · split
      · unfold Explorer.enterDisk
        split
        · exact ⟨rfl, fun drawn => ⟨rfl, drawn⟩⟩
        · split
          · exact ⟨rfl, fun drawn => ⟨rfl, drawn⟩⟩
          · exact ⟨rfl, nofun⟩
      · unfold Explorer.enterEntry
        split
        · exact ⟨rfl, fun drawn => ⟨rfl, drawn⟩⟩
        · split
          · exact ⟨rfl, fun drawn => ⟨rfl, drawn⟩⟩
          · exact ⟨rfl, nofun⟩
        · exact ⟨rfl, nofun⟩
    · exact ⟨rfl, fun drawn => ⟨rfl, drawn⟩⟩

theorem chooseFile_frame (s : Explorer) : s.chooseFile.activePage = s.activePage ∧ s.chooseFile.items = s.items := by
  unfold Explorer.chooseFile
  split
  · exact ⟨rfl, rfl⟩
  · exact ⟨rfl, rfl⟩
  · split
    · exact ⟨rfl, rfl⟩
    · exact ⟨rfl, rfl⟩

/-- A redraw leaves the active page active, and only that of the explorer changes its entries. -/
theorem draw_frame {szBuffer : DirEntry} {entries : List DirEntry} {fuel : Nat}
    (h : s.draw m szBuffer entries fuel = some t) :
    t.activePage = s.activePage ∧ (s.activePage ≠ .explorer → t.items = s.items) := by
  cases page : s.activePage with
  | explorer =>
    obtain ⟨p, -, rfl⟩ := draw_explorer page h
    exact ⟨page, fun other => absurd rfl other⟩
  | help =>
    simp only [Explorer.draw, page, Option.some.injEq] at h
    subst h
    exact ⟨rfl, fun _ => rfl⟩
  | readme =>
    simp only [Explorer.draw, page, Option.some.injEq] at h
    subst h
    exact ⟨rfl, fun _ => rfl⟩
  | viewer =>
    simp only [Explorer.draw, page] at h
    split at h
    · cases h
      exact ⟨rfl, fun _ => rfl⟩
    · cases h
      obtain ⟨active, items⟩ := chooseFile_frame s
      exact ⟨active.trans page, fun _ => items⟩

end Control

/-! ## What is drawn -/

/-- The pages, of size `e`, and what they are drawn with fit together. -/
structure Fitted (m : Machine) (art : PageArt) (e : Extent) : Prop where
  bitmaps : art.Fits m.layout
  font : art.explorerFont.Fits
  height : art.explorerFont.charHeight ≠ 0
  narrow : m.layout.fileW < m.layout.explorerW
  width : e.w = m.layout.explorerW
  rows : explorerSlots * (m.layout.fileH + 40) * e.w < 2147483648
  across : e.w * 100 + 99 < 2147483648
  down : e.h * 100 + 99 < 2147483648

/-- The viewer has room for it. -/
def Viewed.Fits (art : PageArt) (e : Extent) : Viewed → Prop
  | .bitmap picture => ∃ g, picture.toLScreen.Has g
  | .text szContent =>
    (∀ char ∈ szContent, Prints char → Scalable art.memory art.explorerFont 45 char) ∧
      (∀ char ∈ szContent, Prints char → art.explorerFont.boxWidth 45 char ≤ e.w) ∧
      (szContent.length + 1) * 45 * (e.w + 2) < 2147483648

/-- What an action does to the control. -/
def DisplayAction.action : DisplayAction → Action
  | .draw szBuffer entries _ => .draw szBuffer entries
  | .key k => .key k

/-- The page has room for what is drawn: the names of the explorer's entries can be set, and so can what the viewer
shows. -/
def HasRoom (m : Machine) (art : PageArt) (e : Extent) (d : Display) : DisplayAction → Prop
  | .draw _ entries viewed =>
    (d.control.activePage = .explorer →
      ∀ x ∈ (d.control.listing m entries).entries, art.Names m.layout x.fileName) ∧
    (d.control.activePage = .viewer → viewed.Fits art e)
  | .key _ => True

/-- The actions that are harmless to the selection and for which the page has room. -/
def Neat (m : Machine) (art : PageArt) (e : Extent) (d : Display) (a : DisplayAction) : Prop :=
  Harmless m d.control a.action ∧ HasRoom m art e d a

/-- The screen of the explorer page shows these items. -/
def ShowsItems (art : PageArt) (l : Layout) (e : Extent) (items : List Item) (page : LScreen) : Prop :=
  ∃ captions : Str16 → LScreen, (∀ i ∈ items, art.Shows l i.caption (captions i.caption)) ∧
    Mosaic e.w e.h (fun _ => 0xffffff) (items.flatMap (art.tiles l captions)) page.pixels.cells

section Draws

variable {m : Machine} {art : PageArt} {e : Extent}

/-- A bitmap is shown in the viewer. -/
theorem showBitmap_has (memory : Nat → BitVec 32) {bitmap : MaskedScreen} {g : Extent} (has : bitmap.toLScreen.Has g)
    {viewer : LScreen} (onto : viewer.Has e) (across : e.w * 100 + 99 < 2147483648)
    (down : e.h * 100 + 99 < 2147483648) : (showBitmap memory bitmap viewer).Has e := by
  obtain ⟨r, percent, chosen, fitsWidth, fitsHeight⟩ := viewerRatio_fits has onto (by omega) (by omega)
  have scales : g.Scales r := .of_le percent (by omega) (by omega)
  have image : (bitmap.scale memory (viewerRatio bitmap.toLScreen viewer)).toLScreen.Has (g.scaled r scales) := by
    rw [chosen, MaskedScreen.scale_eq memory has scales]
    exact has_ofCells _ _
  have narrow : (g.scaled r scales).w ≤ e.w := (place_le_iff (by decide)).2 (by omega)
  have flat : (g.scaled r scales).h ≤ e.h := (place_le_iff (by decide)).2 (by omega)
  have background : (viewer.fill 0xFFFE91).Has e := by
    rw [fill_eq onto]
    exact has_withCells onto _
  have inside := centred_inside narrow flat
  rw [← image.w, ← image.h, ← onto.w, ← onto.h] at inside
  exact ((drawAt_clips_iff e _ _ _).2 inside.draws _ _ background image).has

/-- The viewer keeps its size. -/
theorem drawViewer_has (fitted : Fitted m art e) {viewed : Viewed} (fits : viewed.Fits art e) (s : Explorer)
    {viewer page : LScreen} (has : viewer.Has e) (drawn : drawViewer art s viewed viewer = .ok page) : page.Has e := by
  unfold drawViewer at drawn
  split at drawn
  · cases drawn
    exact has
  split at drawn
  · cases viewed with
    | bitmap bitmap =>
      obtain ⟨g, size⟩ := fits
      cases drawn
      exact showBitmap_has art.memory size has fitted.across fitted.down
    | text szContent =>
      obtain ⟨scalable, narrow, short⟩ := fits
      have background : (viewer.fill 0xFFFE91).Has e := by
        rw [fill_eq has]
        exact has_withCells has _
      have area : (szContent.length + 1) * 45 * e.w ≤ (szContent.length + 1) * 45 * (e.w + 2) :=
        Nat.mul_le_mul_left _ (by omega)
      have right : szContent.length * (e.w + 2 * 45) ≤ (szContent.length + 1) * 45 * (e.w + 2) := by
        rw [Nat.mul_assoc]
        exact Nat.mul_le_mul (by omega) (by omega)
      obtain ⟨d, run, inside, -⟩ := text_drawn art.memory fitted.font fitted.height (by decide) background
        scalable narrow (by omega) (by omega)
      obtain ⟨d', run', done⟩ := Loop.bind_eq_ok drawn
      obtain rfl := Except.ok.inj (run.symm.trans run')
      cases done
      exact inside
  · cases drawn
    exact has

/-- **The screen of the active page** is drawn: it keeps its size; those of the help and of the readme stay as they
are, and that of the explorer shows the entries that have been read. -/
theorem drawActive_spec (fitted : Fitted m art e) {d : Display} {t : Explorer} {szBuffer : DirEntry}
    {entries : List DirEntry} {viewed : Viewed} {fuel : Nat} {page : LScreen}
    (neat : Neat m art e d (.draw szBuffer entries viewed)) (has : (d.pages d.control.activePage).Has e)
    (control : d.control.draw m szBuffer entries fuel = some t)
    (drawn : drawActive m art d.control t viewed (d.pages d.control.activePage) = .ok page) :
    page.Has e ∧ (d.control.activePage = .help ∨ d.control.activePage = .readme → page = d.pages d.control.activePage) ∧
      (d.control.activePage = .explorer → ShowsItems art m.layout e t.items page) := by
  unfold drawActive at drawn
  cases active : d.control.activePage with
  | help =>
    rw [active] at drawn has
    cases drawn
    exact ⟨has, fun _ => rfl, nofun⟩
  | readme =>
    rw [active] at drawn has
    cases drawn
    exact ⟨has, fun _ => rfl, nofun⟩
  | viewer =>
    rw [active] at drawn has
    exact ⟨drawViewer_has fitted (neat.2.2 active) d.control has drawn, by simp, nofun⟩
  | explorer =>
    have room := (neat.1.1 active).1
    have names := neat.2.1 active
    rw [active] at drawn has
    obtain ⟨captions, result, shows, made, has', mosaic⟩ := page_shown fitted.bitmaps fitted.font fitted.height room
      names fitted.narrow has fitted.width fitted.rows (decide (d.control.fileInterface = none))
      d.control.explorerActiveIndex
    rw [← draw_items active control room] at made mosaic
    obtain rfl := Except.ok.inj (made.symm.trans drawn)
    refine ⟨has', by simp, fun _ => ⟨captions, fun i mem => ?_, mosaic⟩⟩
    rw [draw_items active control room] at mem
    obtain ⟨k, inside, rfl⟩ := List.mem_mapIdx.1 mem
    exact shows _ (List.getElem_mem inside)

end Draws

/-! ## The invariant -/

/-- The state in which `ScreenMode` enters its loop: the page of the explorer has been filled with white. -/
structure DisplayInitial (e : Extent) (start : Display) : Prop where
  control : Initial start.control
  pages : ∀ page, (start.pages page).Has e
  white : ∀ k < e.w * e.h, (start.pages .explorer).pixels.cells k = 0xffffff

/-- The entries that the program goes by: `ExplorerCount` of them, in `ExplorerTypes` and `ExplorerNames`, whose
bounds have been kept to. -/
structure GoesBy (s : Explorer) (entries : List DirEntry) : Prop where
  count : s.explorerCount = entries.length
  holds : Holds s.explorerTypes s.explorerNames entries
  fine : s.fault = false

/-- What the arrays hold as long as the selection is sound. -/
theorem Sound.goesBy {m : Machine} {s : Explorer} (h : Sound m s) : GoesBy s (s.items.map Item.entry) where
  count := by rw [h.count, List.length_map]
  holds := h.holds
  fine := h.fine

/-- What is on the display in the state `d`, after a run from `start`. -/
structure Displays (m : Machine) (art : PageArt) (e : Extent) (top : Nat) (start d : Display) : Prop where
  pages : ∀ page, (d.pages page).Has e
  goesBy : GoesBy d.control (d.control.items.map Item.entry)
  still : d.pages .help = start.pages .help ∧ d.pages .readme = start.pages .readme
  explorer : ShowsItems art m.layout e d.control.items (d.pages .explorer)
  size : d.video.size = start.video.size
  around : ∀ p q, ¬ Covers e.w e.h 0 top p q → d.video.pixel p q = start.video.pixel p q
  shown : d.control.activePageDrawn = true → ∀ p q, p < e.w → q < e.h →
    d.video.pixel p (top + q) = colourOf ((d.pages d.control.activePage).value e.w q p)

section Invariant

variable {m : Machine} {art : PageArt} {e : Extent} {top : Nat} {start d d' : Display}

theorem displays_start (initial : DisplayInitial e start) : Displays m art e top start start where
  pages := initial.pages
  goesBy := (Sound.initial (m := m) initial.control).goesBy
  still := ⟨rfl, rfl⟩
  explorer := by
    rw [initial.control.items]
    refine ⟨fun _ => start.pages .explorer, nofun, nofun, fun p q left up _ => ?_⟩
    exact initial.white _ (cell_lt left up)
  size := rfl
  around _ _ _ := rfl
  shown drawn := absurd (drawn.symm.trans initial.control.activePageDrawn) nofun

/-- A page is painted: it is to be seen below the logo, and nothing else changes. -/
theorem paint_placed {page : LScreen} (has : page.Has e) {video video' : Frame} (wide : e.w ≤ video.size.w)
    (high : top + e.h ≤ video.size.h) (painted : (placedAt top page).paint (some video) = some video') :
    video'.size = video.size ∧ (∀ p q, ¬ Covers e.w e.h 0 top p q → video'.pixel p q = video.pixel p q) ∧
      ∀ p q, p < e.w → q < e.h → video'.pixel p (top + q) = colourOf (page.value e.w q p) := by
  have height := video.size.height
  have y : (BitVec.ofNat 32 top).toNat = top := toNat_word (by omega)
  have inside : 0 + page.w.toNat ≤ video.size.w ∧ (BitVec.ofNat 32 top).toNat + page.h.toNat ≤ video.size.h := by
    rw [y, has.toNat_w, has.toNat_h]
    omega
  have blt : video.blt page.pixels.cells 0 (BitVec.ofNat 32 top).toNat page.w.toNat page.h.toNat = video' :=
    Option.some.inj painted
  rw [Frame.blt, if_pos inside, y, has.toNat_w, has.toNat_h] at blt
  subst blt
  refine ⟨rfl, fun p q out => if_neg ?_, fun p q left up => ?_⟩
  · unfold Covers at out
    omega
  · have covered : 0 ≤ p ∧ p < 0 + e.w ∧ top ≤ top + q ∧ top + q < top + e.h := by omega
    show (if 0 ≤ p ∧ p < 0 + e.w ∧ top ≤ top + q ∧ top + q < top + e.h then _ else _) = _
    rw [if_pos covered, Nat.add_sub_cancel_left, Nat.sub_zero]
    rfl

/-- The control takes a step of its own. -/
theorem control_step {a : DisplayAction} (step : DisplayStep m art top d a d') :
    Step m d.control a.action d'.control := by
  cases a with
  | draw szBuffer entries viewed =>
    obtain ⟨t, page, video, control, -, -, rfl⟩ := step
    exact control
  | key k =>
    obtain ⟨t, control, rfl⟩ := step
    exact control

/-- **One action.** -/
theorem displays_step (fitted : Fitted m art e) (wide : e.w ≤ start.video.size.w) (high : top + e.h ≤ start.video.size.h)
    (sound : Sound m d.control) (h : Displays m art e top start d) {a : DisplayAction} (neat : Neat m art e d a)
    (step : DisplayStep m art top d a d') : Displays m art e top start d' := by
  have goesBy := (sound_step sound neat.1 (control_step step)).goesBy
  cases a with
  | key k =>
    obtain ⟨t, ⟨-, handled⟩, rfl⟩ := step
    obtain ⟨items, still⟩ := handleKey_frame handled
    refine ⟨h.pages, goesBy, h.still, ?_, h.size, h.around, fun drawn => ?_⟩
    · show ShowsItems art m.layout e t.items _
      rw [items]
      exact h.explorer
    · obtain ⟨active, before⟩ := still drawn
      show ∀ p q, _ → _ → d.video.pixel p (top + q) = colourOf ((d.pages t.activePage).value e.w q p)
      rw [active]
      exact h.shown before
  | draw szBuffer entries viewed =>
    obtain ⟨t, page, video, ⟨-, fuel, control⟩, drawn, painted, rfl⟩ := step
    obtain ⟨has, same, items⟩ := drawActive_spec fitted neat (h.pages _) control drawn
    obtain ⟨active, others⟩ := draw_frame control
    have size := h.size
    obtain ⟨size', around, shown⟩ := paint_placed has (size ▸ wide) (size ▸ high) painted
    refine ⟨fun p => ?_, goesBy, ?_, ?_, size'.trans size, fun p q out => ?_, fun _ => ?_⟩
    · show (Function.update d.pages d.control.activePage page p).Has e
      rw [Function.update_apply]
      split
      · exact has
      · exact h.pages p
    · show Function.update d.pages d.control.activePage page .help = _ ∧
        Function.update d.pages d.control.activePage page .readme = _
      rw [← h.still.1, ← h.still.2, Function.update_apply, Function.update_apply]
      constructor
      · split
        · rename_i is
          rw [same (.inl is.symm), is]
        · rfl
      · split
        · rename_i is
          rw [same (.inr is.symm), is]
        · rfl
    · show ShowsItems art m.layout e t.items (Function.update d.pages d.control.activePage page .explorer)
      by_cases is : d.control.activePage = .explorer
      · rw [is, Function.update_self]
        exact items is
      · rw [Function.update_of_ne (Ne.symm is), others is]
        exact h.explorer
    · rw [around p q out]
      exact h.around p q out
    · show ∀ p q, _ → _ → video.pixel p (top + q) =
        colourOf ((Function.update d.pages d.control.activePage page t.activePage).value e.w q p)
      rw [active, Function.update_self]
      exact shown

end Invariant

/-- **What is on the display**, after every run of `ScreenMode` that is harmless to the selection and for whose pages
there is room: the active page, as soon as it has been drawn, pixel by pixel; the explorer page with the entries that
the arrays hold, also where it waits in its screen; and around the pages what was there from the beginning. -/
theorem display_invariant {m : Machine} {art : PageArt} {e : Extent} (fitted : Fitted m art e) {top : Nat}
    {start d : Display} (initial : DisplayInitial e start) (wide : e.w ≤ start.video.size.w)
    (high : top + e.h ≤ start.video.size.h)
    (reach : Reach (DisplayStep m art top) (Neat m art e) (· = start) d) : Displays m art e top start d := by
  suffices all : Sound m d.control ∧ Displays m art e top start d from all.2
  apply Reach.invariant (fun d => Sound m d.control ∧ Displays m art e top start d) ?_ ?_ reach
  · rintro s rfl
    exact ⟨Sound.initial initial.control, displays_start initial⟩
  · rintro s a t ⟨sound, before⟩ neat step
    exact ⟨sound_step sound neat.1 (control_step step), displays_step fitted wide high sound before neat step⟩

/-- The size of the pages on a display of 800 times 724. -/
def pageSize : Extent := ⟨800, 600, by decide, by decide, by decide⟩

/-- The pages are white, and the display is black. -/
def whitePages : Display where
  control := blankExplorer
  pages _ := ofCells pageSize fun _ => 0xffffff
  video := ⟨⟨800, 724, by decide, by decide, by decide⟩, fun _ _ => colourOf 0⟩

theorem pageSize_fitted : Fitted oneDisk plainArt pageSize where
  bitmaps := plainArt_fits
  font := plainArt_font
  height := by decide
  narrow := by decide
  width := rfl
  rows := by decide
  across := by decide
  down := by decide

/-- The help has been shown, and then, behind F2, the disks. -/
theorem disks_displayed :
    ∃ d, Reach (DisplayStep oneDisk plainArt 124) (Neat oneDisk plainArt pageSize) (· = whitePages) d ∧
      d.control.activePage = .explorer ∧ d.control.activePageDrawn = true ∧
      Displays oneDisk plainArt pageSize 124 whitePages d := by
  let s₁ : Explorer := { blankExplorer with activePageDrawn := true }
  let s₂ : Explorer := { blankExplorer with activePage := .explorer }
  have ends : (s₂.draw oneDisk ⟨[], false⟩ [] 5).map (fun t => (t.activePage, t.activePageDrawn)) =
      some (.explorer, true) := by decide
  obtain ⟨s₃, drawn, state⟩ := Option.map_eq_some_iff.1 ends
  simp only [Prod.mk.injEq] at state
  have has : (ofCells pageSize fun _ => 0xffffff).Has pageSize := has_ofCells pageSize _
  have room : (s₂.listing oneDisk []).entries.length ≤ explorerSlots := by decide
  have off : (s₂.listing oneDisk []).entries ≠ [] →
      ((s₂.listing oneDisk []).entries.length : Int) ≠ s₂.explorerActiveIndex := fun _ => by decide
  have names : ∀ x ∈ (s₂.listing oneDisk []).entries, plainArt.Names oneDisk.layout x.fileName := by
    intro x mem
    have mem : x ∈ ([⟨[48], true⟩] : List DirEntry) := mem
    obtain rfl := List.mem_singleton.1 mem
    exact plainArt_names (by decide)
  obtain ⟨-, page, -, made, -, -⟩ := page_shown plainArt_fits plainArt_font (by decide) room names (by decide) has rfl
    (by decide) (decide (s₂.fileInterface = none)) s₂.explorerActiveIndex
  rw [← draw_items rfl drawn room] at made
  let Runs (d : Display) (s : Explorer) : Prop :=
    Reach (DisplayStep oneDisk plainArt 124) (Neat oneDisk plainArt pageSize) (· = whitePages) d ∧ d.control = s ∧
      d.pages .explorer = ofCells pageSize fun _ => 0xffffff
  obtain ⟨d₁, first, control₁, page₁⟩ : ∃ d, Runs d s₁ :=
    ⟨_, .next (a := .draw ⟨[], false⟩ [] (.text [])) (.start rfl) ⟨⟨nofun, nofun⟩, nofun, nofun⟩
      ⟨s₁, _, _, ⟨rfl, 0, rfl⟩, rfl, rfl, rfl⟩, rfl, rfl⟩
  have harmless : Harmless oneDisk d₁.control (.key .f2) := by
    rw [control₁]
    exact ⟨nofun, nofun⟩
  obtain ⟨d₂, second, control₂, page₂⟩ : ∃ d, Runs d s₂ :=
    ⟨{ d₁ with control := s₂ }, .next (a := .key .f2) first ⟨harmless, trivial⟩
      ⟨s₂, by rw [control₁]; exact ⟨rfl, rfl⟩, rfl⟩, rfl, page₁⟩
  have third : ∃ d, Reach (DisplayStep oneDisk plainArt 124) (Neat oneDisk plainArt pageSize) (· = whitePages) d ∧
      d.control = s₃ := by
    obtain ⟨control, pages, video⟩ := d₂
    obtain rfl : control = s₂ := control₂
    have page₂ : pages .explorer = ofCells pageSize fun _ => 0xffffff := page₂
    rw [← page₂] at made
    exact ⟨_, .next (a := .draw ⟨[], false⟩ [] (.text [])) second
      ⟨⟨fun _ => ⟨room, off⟩, nofun⟩, fun _ => names, nofun⟩ ⟨s₃, page, _, ⟨rfl, 5, drawn⟩, made, rfl, rfl⟩, rfl⟩
  obtain ⟨d, third, control₃⟩ := third
  refine ⟨d, third, control₃ ▸ state.1, control₃ ▸ state.2, ?_⟩
  apply display_invariant pageSize_fitted _ (by decide) (by decide) third
  exact ⟨blankExplorer_initial, fun _ => has, fun _ _ => rfl⟩

end Lavoro.Screen
