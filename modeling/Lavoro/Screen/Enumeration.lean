import Lavoro.Console.Ls
import Lavoro.Screen.Explorer

/-!
# Listing a directory completely

`ls` and the explorer page list a directory by the same loop. Both give a read room for 255
bytes, so an entry whose name has more than 86 units is refused in every turn and the loop
never ends; the explorer page also has room for 64 entries only.
-/

namespace Lavoro.Screen
open Lib Console

/-- The explorer page is drawn with every entry shown once, in order, inside its arrays. -/
def ExplorerComplete (l : Layout) (activeIndex : Int) (types : Slots explorerSlots Bool)
    (names : Slots explorerSlots Str16) (szBuffer : DirEntry) (entries : List DirEntry) : Prop :=
  ∃ r, Loop.Leaves (explorerTurn l activeIndex (.directory entries))
      (explorerStart types names szBuffer (.directory entries)) r ∧
    r.page.fault = false ∧ r.page.items.map Item.entry = entries

theorem explorerComplete_iff (l : Layout) (activeIndex : Int) (types : Slots explorerSlots Bool)
    (names : Slots explorerSlots Str16) (szBuffer : DirEntry) (entries : List DirEntry) :
    ExplorerComplete l activeIndex types names szBuffer entries ↔
      (∀ e ∈ entries, e.Fits) ∧ entries.length ≤ explorerSlots := by
  constructor
  · rintro ⟨r, leaves, fine, -⟩
    have going : (explorerStart types names szBuffer (.directory entries)).szBufferSize ≠ 0 :=
      Nat.succ_ne_zero 254
    have fits : ∀ e ∈ entries, e.Fits := fits_of_leaves going rfl leaves
    obtain ⟨r', leaves', drawn⟩ := directory_leaves l activeIndex types names szBuffer fits
    obtain rfl : r = r' := leaves.unique leaves'
    refine ⟨fits, Nat.le_of_not_lt fun long => ?_⟩
    rw [drawn.fault.2 long] at fine
    cases fine
  · rintro ⟨fits, room⟩
    obtain ⟨r, leaves, drawn⟩ := directory_leaves l activeIndex types names szBuffer fits
    have fine : r.page.fault = false := by
      rw [← Bool.not_eq_true, drawn.fault]
      omega
    exact ⟨r, leaves, fine, (drawn.shown room).1⟩

/-- **When a directory is listed completely**, by `ls` and on the explorer page: no name has
more than 86 units, and there are at most 64 entries. -/
theorem listed_completely_iff (l : Layout) (activeIndex : Int) (types : Slots explorerSlots Bool)
    (names : Slots explorerSlots Str16) (szBuffer : DirEntry) (entries : List DirEntry) :
    (LsComplete szBuffer entries ∧ ExplorerComplete l activeIndex types names szBuffer entries) ↔
      (∀ e ∈ entries, e.fileName.length ≤ 86) ∧ entries.length ≤ 64 := by
  rw [lsComplete_iff, explorerComplete_iff]
  simp only [DirEntry.fits_iff]
  exact and_iff_right_of_imp And.left

/-- A file whose name has 87 units. -/
def longName : DirEntry := ⟨List.replicate 87 97, false⟩

/-- A directory with this file alone makes `ls` read for ever. -/
theorem ls_spins_on_longName (szBuffer : DirEntry) :
    Loop.Spins lsTurn (lsStart szBuffer [longName]) :=
  enumTurn_spins (Nat.succ_ne_zero 254) rfl (by decide)

/-- Neither listing of it is complete. -/
theorem longName_not_listed : ¬ LsComplete longName [longName] ∧
    ¬ ∃ l activeIndex types names, ExplorerComplete l activeIndex types names longName [longName] := by
  constructor
  · rintro ⟨r, leaves, -⟩
    exact Loop.spins_iff.1 (ls_spins_on_longName longName) r leaves
  · rintro ⟨l, activeIndex, types, names, complete⟩
    exact absurd ((explorerComplete_iff l activeIndex types names _ _).1 complete).1 (by decide)

end Lavoro.Screen
