import Lavoro.File.Directory

/-!
# The command `ls`

`ls` prints one line for every entry it reads of the current directory, and a line for
every failing read.
-/

namespace Lavoro.Console
open Lib

/-- A line that `ls` prints; a directory is marked with `[d]`. -/
inductive LsLine where
  | entry (fileName : Str16) (directory : Bool)
  | error (status : EfiStatus)
  deriving Repr, DecidableEq

def LsLine.ofEntry (e : DirEntry) : LsLine := .entry e.fileName e.directory

/-- What `ls` does with the result of a read. -/
def lsHandle (x : EntryRead) (printed : List LsLine) : List LsLine :=
  if efiError x.status then printed ++ [.error x.status]
  else if x.szBufferSize ≠ 0 then printed ++ [.ofEntry x.szBuffer]
  else printed

/-- One turn of the loop of `ls`. -/
def lsTurn : Enumeration (List LsLine) → Turn (Enumeration (List LsLine)) (Enumeration (List LsLine)) :=
  enumTurn readHandle lsHandle

/-- The state in which `ls` enters its loop. -/
def lsStart (szBuffer : DirEntry) (entries : List DirEntry) : Enumeration (List LsLine) :=
  { szBufferSize := maxBufferSize - 1, szBuffer, unread := entries, page := [] }

theorem lsHandle_entries (entries : List DirEntry) (printed : List LsLine) :
    entries.foldl (fun page e => lsHandle ⟨efiSuccess, e.size, e⟩ page) printed =
      printed ++ entries.map .ofEntry := by
  induction entries generalizing printed with
  | nil => simp
  | cons e entries ih =>
    rw [List.foldl_cons, ih]
    simp [lsHandle, size_ne_zero]

/-- `ls` ends having printed every entry once, in order, and nothing else. -/
def LsComplete (szBuffer : DirEntry) (entries : List DirEntry) : Prop :=
  ∃ r, Loop.Leaves lsTurn (lsStart szBuffer entries) r ∧ r.page = entries.map .ofEntry

theorem lsComplete_iff (szBuffer : DirEntry) (entries : List DirEntry) :
    LsComplete szBuffer entries ↔ ∀ e ∈ entries, e.Fits := by
  have going : (lsStart szBuffer entries).szBufferSize ≠ 0 := Nat.succ_ne_zero 254
  constructor
  · rintro ⟨r, leaves, -⟩
    exact fits_of_leaves going rfl leaves
  · intro fits
    obtain ⟨r, last, leaves, page⟩ := enumTurn_leaves fits going rfl
    refine ⟨r, leaves, ?_⟩
    rw [page, lsHandle_entries]
    simp [lsHandle, lsStart]

end Lavoro.Console
