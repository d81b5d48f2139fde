import Lavoro.Efi.Base
import Lavoro.Lib.Loop
import Mathlib.Logic.Function.Basic

/-!
# The table of file systems (`lfs.cpp`)

`InitializeFileSystem` locates the handles that have a file system and asks each for its interface. An answer that
is an error leaves the cell of the table as it is, or with something else in it; the cell is counted all the same.
-/

namespace Lavoro
open Lib

/-- What `HandleProtocol` answers, and the pointer that it stores, if it stores any. That a success stores an interface
is what the firmware promises. -/
structure ProtocolAnswer where
  status : EfiStatus
  stored : Option (Option Nat)
  obtained : efiError status = false → ∃ i, stored = some (some i)

/-- `EFI_UNSUPPORTED`, and nothing stored. -/
def ProtocolAnswer.unsupported : ProtocolAnswer where
  status := efiErr 3
  stored := none
  obtained success := absurd (show false = true from success.symm) Bool.false_ne_true

/-- A success, with the interface `i`. -/
def ProtocolAnswer.serving (i : Nat) : ProtocolAnswer where
  status := efiSuccess
  stored := some (some i)
  obtained _ := ⟨i, rfl⟩

/-- The answers of the firmware: of `LibLocateHandle`, of `HandleProtocol` for each handle, and whether `\assets`
opens on an interface. -/
structure Volumes where
  located : EfiStatus
  handles : List Nat
  handleProtocol : Nat → ProtocolAnswer
  assets : Nat → Bool

/-- The interface `i` has been obtained for the handle. -/
def Volumes.Obtained (v : Volumes) (handle i : Nat) : Prop :=
  efiError (v.handleProtocol handle).status = false ∧ (v.handleProtocol handle).stored = some (some i)

/-- The globals of `lfs.cpp`. -/
structure FileSystem where
  szCurrentPath : Str16
  fileInterface : Option Nat
  fileInterfaces : Nat → Option Nat
  assetsFileInterface : Option Nat
  fileInterfacesCount : Int

/-- Before `InitializeFileSystem`, where `new` has left something in `szCurrentPath`. -/
def FileSystem.start (szCurrentPath : Str16) : FileSystem where
  szCurrentPath
  fileInterface := none
  fileInterfaces _ := none
  assetsFileInterface := none
  fileInterfacesCount := 0

/-- The body of the loop over the handles. -/
def obtainInterface (v : Volumes) (fs : FileSystem) (index : Nat) : FileSystem :=
  match v.handles[index]? with
  | none => fs
  | some handle =>
    let answer := v.handleProtocol handle
    let cell := answer.stored.getD (fs.fileInterfaces index)
    let fs := { fs with fileInterfaces := Function.update fs.fileInterfaces index cell }
    let fs :=
      if efiError answer.status then fs
      else { fs with
        fileInterface := cell
        assetsFileInterface := if cell.any v.assets then cell else fs.assetsFileInterface }
    { fs with fileInterfacesCount := fs.fileInterfacesCount + 1 }

/-- `InitializeFileSystem`; `memory` is what `new` leaves in the table. -/
def initializeFileSystem (v : Volumes) (memory : Nat → Option Nat) (fs : FileSystem) : FileSystem :=
  if efiError v.located then fs
  else
    let fs := (List.range v.handles.length).foldl (obtainInterface v) { fs with fileInterfaces := memory }
    { fs with fileInterface := none, szCurrentPath := [92] }

variable {v : Volumes} {memory : Nat → Option Nat}

/-- The table after `k` turns. -/
structure FileSystem.Filled (v : Volumes) (memory : Nat → Option Nat) (count : Int) (k : Nat) (fs : FileSystem) : Prop where
  count : fs.fileInterfacesCount = count + k
  done : ∀ i handle, i < k → v.handles[i]? = some handle →
    fs.fileInterfaces i = (v.handleProtocol handle).stored.getD (memory i)
  left : ∀ i, k ≤ i → fs.fileInterfaces i = memory i

/-- A turn fills one cell and counts it. -/
theorem FileSystem.Filled.obtain {count : Int} {k : Nat} {fs : FileSystem} (h : fs.Filled v memory count k)
    (more : k < v.handles.length) : (obtainInterface v fs k).Filled v memory count (k + 1) := by
  have here : v.handles[k]? = some v.handles[k] := List.getElem?_eq_getElem more
  have cells : (obtainInterface v fs k).fileInterfaces = Function.update fs.fileInterfaces k
      ((v.handleProtocol v.handles[k]).stored.getD (fs.fileInterfaces k)) := by
    simp only [obtainInterface, here]
    split <;> rfl
  have counted : (obtainInterface v fs k).fileInterfacesCount = fs.fileInterfacesCount + 1 := by
    simp only [obtainInterface, here]
    split <;> rfl
  refine ⟨?_, ?_, ?_⟩
  · rw [counted, h.count]
    omega
  · intro i handle lt found
    rw [cells]
    rcases Nat.lt_succ_iff_lt_or_eq.1 lt with before | rfl
    · rw [Function.update_of_ne (Nat.ne_of_lt before)]
      exact h.done i handle before found
    · obtain rfl : v.handles[i] = handle := Option.some.inj (here.symm.trans found)
      rw [Function.update_self, h.left i (Nat.le_refl i)]
  · intro i le
    rw [cells, Function.update_of_ne (by omega)]
    exact h.left i (by omega)

/-- **The table** has one cell for each handle located, with what the handle's answer has left there. -/
theorem initializeFileSystem_filled (memory : Nat → Option Nat) (found : efiError v.located = false) (fs : FileSystem) :
    (initializeFileSystem v memory fs).Filled v memory fs.fileInterfacesCount v.handles.length := by
  have blank : ({ fs with fileInterfaces := memory } : FileSystem).Filled v memory fs.fileInterfacesCount 0 :=
    ⟨(Int.add_zero _).symm, fun i _ lt => absurd lt (Nat.not_lt_zero i), fun _ _ => rfl⟩
  have filled := Loop.foldl_range (f := obtainInterface v) (fun k fs lt h => FileSystem.Filled.obtain h lt) blank
  simp only [initializeFileSystem, found, Bool.false_eq_true, if_false]
  exact ⟨filled.count, filled.done, filled.left⟩

theorem initializeFileSystem_nothing (missing : efiError v.located = true) (fs : FileSystem) :
    initializeFileSystem v memory fs = fs := by
  simp [initializeFileSystem, missing]

/-- The current path, which is left alone where no file system is found. -/
theorem initializeFileSystem_szCurrentPath (fs : FileSystem) : (initializeFileSystem v memory fs).szCurrentPath =
    if efiError v.located then fs.szCurrentPath else [92] := by
  unfold initializeFileSystem
  split <;> rfl

end Lavoro
