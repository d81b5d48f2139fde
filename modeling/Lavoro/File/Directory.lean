import Lavoro.Efi.Base
import Lavoro.Lib.Loop

/-!
# Reading a directory

`Handle->Read` on a directory hands out one `EFI_FILE_INFO` a call. `szBufferSize` is at
once the room given to the call, the size it reports and the condition of the loops that
list a directory; `enumTurn` is one turn of such a loop, over what reads the next entry
and what is done with it.
-/

namespace Lavoro
open Lib

/-- What the program uses of an `EFI_FILE_INFO`. -/
structure DirEntry where
  fileName : Str16
  directory : Bool
  deriving Repr, DecidableEq

/-- `MAX_PATH`. -/
def maxPath : Nat := 256

/-- `MAX_BUFFER_SIZE`. -/
def maxBufferSize : Nat := 256

/-- The bytes that an entry takes: the fixed fields, the name and its NUL. -/
def DirEntry.size (e : DirEntry) : Nat := 80 + 2 * (e.fileName.length + 1)

/-- What a call reports: its status, `szBufferSize` and `szBuffer` after it. -/
structure EntryRead where
  status : EfiStatus
  szBufferSize : Nat
  szBuffer : DirEntry

/-- `Handle->Read(&szBufferSize, szBuffer)` on a directory of which `unread` is left. -/
def readDirectory (szBufferSize : Nat) (szBuffer : DirEntry) :
    List DirEntry → EntryRead × List DirEntry
  | [] => (⟨efiSuccess, 0, szBuffer⟩, [])
  | e :: rest =>
    if e.size ≤ szBufferSize then (⟨efiSuccess, e.size, e⟩, rest)
    else (⟨efiBufferTooSmall, e.size, szBuffer⟩, e :: rest)

/-- An entry that the buffer given to the call has room for. -/
def DirEntry.Fits (e : DirEntry) : Prop := e.size ≤ maxBufferSize - 1

theorem DirEntry.fits_iff (e : DirEntry) : e.Fits ↔ e.fileName.length ≤ 86 := by
  unfold Fits size maxBufferSize
  omega

instance (e : DirEntry) : Decidable e.Fits := inferInstanceAs (Decidable (_ ≤ _))

/-- The state of a listing loop; `page` is what has been shown so far. -/
structure Enumeration (ρ : Type) where
  szBufferSize : Nat
  szBuffer : DirEntry
  unread : List DirEntry
  page : ρ

/-- One turn of `while (szBufferSize) { szBufferSize = MAX_BUFFER_SIZE - 1; ... }`. -/
def enumTurn {ρ : Type} (readNext : Nat → Enumeration ρ → EntryRead × List DirEntry)
    (handle : EntryRead → ρ → ρ) (st : Enumeration ρ) : Turn (Enumeration ρ) (Enumeration ρ) :=
  if st.szBufferSize = 0 then .leave st
  else
    let x := readNext (maxBufferSize - 1) st
    .again {
      szBufferSize := x.1.szBufferSize
      szBuffer := x.1.szBuffer
      unread := x.2
      page := handle x.1 st.page }

/-- Reading from the directory's handle. -/
def readHandle {ρ : Type} (szBufferSize : Nat) (st : Enumeration ρ) : EntryRead × List DirEntry :=
  readDirectory szBufferSize st.szBuffer st.unread

section Listing

variable {ρ : Type} {handle : EntryRead → ρ → ρ} {st : Enumeration ρ} {e : DirEntry}
variable {rest : List DirEntry}

/-- What is left of the listing once an entry has been read into the buffer. -/
theorem enumTurn_entry (going : st.szBufferSize ≠ 0) (here : st.unread = e :: rest) (fits : e.Fits) :
    enumTurn readHandle handle st = .again {
      szBufferSize := e.size
      szBuffer := e
      unread := rest
      page := handle ⟨efiSuccess, e.size, e⟩ st.page } := by
  have room : e.size ≤ maxBufferSize - 1 := fits
  simp [enumTurn, going, readHandle, here, readDirectory, room]

/-- An entry too large for the buffer stays where it is. -/
theorem enumTurn_tooLarge (going : st.szBufferSize ≠ 0) (here : st.unread = e :: rest)
    (large : ¬ e.Fits) :
    enumTurn readHandle handle st = .again { st with
      szBufferSize := e.size
      page := handle ⟨efiBufferTooSmall, e.size, st.szBuffer⟩ st.page } := by
  have room : ¬ e.size ≤ maxBufferSize - 1 := large
  simp [enumTurn, going, readHandle, here, readDirectory, room]

/-- Behind the last entry the size read is 0, and the next turn leaves. -/
theorem enumTurn_last (going : st.szBufferSize ≠ 0) (here : st.unread = []) :
    Loop.Leaves (enumTurn readHandle handle) st { st with
      szBufferSize := 0
      page := handle ⟨efiSuccess, 0, st.szBuffer⟩ st.page } := by
  have turn : enumTurn readHandle handle st = .again { st with
      szBufferSize := 0
      page := handle ⟨efiSuccess, 0, st.szBuffer⟩ st.page } := by
    simp [enumTurn, going, readHandle, here, readDirectory]
  have stop : enumTurn readHandle handle { st with
      szBufferSize := 0
      page := handle ⟨efiSuccess, 0, st.szBuffer⟩ st.page } = .leave { st with
      szBufferSize := 0
      page := handle ⟨efiSuccess, 0, st.szBuffer⟩ st.page } := rfl
  rw [Loop.leaves_again turn]
  exact (Loop.leaves_leave stop).2 rfl

theorem size_ne_zero (e : DirEntry) : e.size ≠ 0 := by
  unfold DirEntry.size
  omega

/-- **A listing meets an entry that does not fit for ever.** -/
theorem enumTurn_spins (going : st.szBufferSize ≠ 0) (here : st.unread = e :: rest)
    (large : ¬ e.Fits) : Loop.Spins (enumTurn readHandle handle) st := by
  apply Loop.spins_of_inv fun st => st.szBufferSize ≠ 0 ∧ st.unread = e :: rest
  · rintro st ⟨going, here⟩
    exact ⟨_, enumTurn_tooLarge going here large, size_ne_zero e, here⟩
  · exact ⟨going, here⟩

/-- **A listing that ends has met only entries that fit.** -/
theorem fits_of_leaves {entries : List DirEntry} :
    ∀ {st : Enumeration ρ}, st.szBufferSize ≠ 0 → st.unread = entries → ∀ {r},
      Loop.Leaves (enumTurn readHandle handle) st r → ∀ e ∈ entries, e.Fits := by
  induction entries with
  | nil => exact fun _ _ _ _ => nofun
  | cons a entries ih =>
    intro st going here r leaves
    by_cases fits : a.Fits
    · rw [Loop.leaves_again (enumTurn_entry going here fits)] at leaves
      exact List.forall_mem_cons.2 ⟨fits, ih (size_ne_zero a) rfl leaves⟩
    · have spins : Loop.Spins (enumTurn readHandle handle) st := enumTurn_spins going here fits
      exact absurd leaves (Loop.spins_iff.1 spins r)

/-- **A listing whose entries all fit ends**, having handled each of them once, in order. -/
theorem enumTurn_leaves {entries : List DirEntry} (fits : ∀ e ∈ entries, e.Fits) :
    ∀ {st : Enumeration ρ}, st.szBufferSize ≠ 0 → st.unread = entries →
      ∃ r szBuffer, Loop.Leaves (enumTurn readHandle handle) st r ∧
        r.page = handle ⟨efiSuccess, 0, szBuffer⟩
          (entries.foldl (fun page e => handle ⟨efiSuccess, e.size, e⟩ page) st.page) := by
  induction entries with
  | nil => exact fun going here => ⟨_, _, enumTurn_last going here, rfl⟩
  | cons a entries ih =>
    intro st going here
    obtain ⟨first, others⟩ := List.forall_mem_cons.1 fits
    let next : Enumeration ρ := ⟨a.size, a, entries, handle ⟨efiSuccess, a.size, a⟩ st.page⟩
    have turn : enumTurn readHandle handle st = .again next := enumTurn_entry going here first
    have going' : next.szBufferSize ≠ 0 := size_ne_zero a
    obtain ⟨r, szBuffer, leaves, page⟩ := ih others going' rfl
    exact ⟨r, szBuffer, (Loop.leaves_again turn).2 leaves, page⟩

end Listing

end Lavoro
