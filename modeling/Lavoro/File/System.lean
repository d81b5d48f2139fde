import Lavoro.Lib.Overwrite
import Lavoro.Stream.FileReader

/-!
# The firmware's file system

A `World` is the content of every file and the number of calls of each kind made so
far; a `Firmware` says how each call is answered, by that number, so that every
pattern of successes and failures is one `Firmware`. Paths name files through
`nodeOf`: two paths may name one file. A call through a missing handle sets
`trapped`; nothing is claimed of what follows it.
-/

namespace Lavoro
open Lib

/-- The answer to `OpenVolume` and `Open` together. -/
inductive OpenAnswer where
  | noVolume
  | refused
  | granted
  deriving Repr, DecidableEq

/-- The answer to `Read`: an error, or at most `more + 1` of the bytes that are left. -/
inductive ReadAnswer where
  | fails
  | gives (more : Nat)
  deriving Repr, DecidableEq

/-- The answer to `Write`: success, or an error after the first `after` bytes were stored. -/
inductive WriteAnswer where
  | stores
  | fails (after : Nat)
  deriving Repr, DecidableEq

structure Firmware (Node : Type) where
  nodeOf : Str16 → Node
  opens : Nat → OpenAnswer
  reads : Nat → ReadAnswer
  writes : Nat → WriteAnswer
  deletes : Nat → Bool
  seeks : Nat → Bool
  /-- What the memory of the reader constructed for the n-th opened file holds. -/
  heap : Nat → Buffer readerBufferSize

/-- `EFI_FILE*`: the file it is open on and the current position. -/
structure Handle (Node : Type) where
  node : Node
  position : Nat
  deriving Repr

structure World (Node : Type) where
  file : Node → Option (List UInt8)
  opens : Nat
  reads : Nat
  writes : Nat
  deletes : Nat
  seeks : Nat
  trapped : Bool

/-- The bytes that a write answered so stores. -/
def WriteAnswer.stored : WriteAnswer → List UInt8 → List UInt8
  | .stores, payload => payload
  | .fails after, payload => payload.take after

variable {Node : Type} [DecidableEq Node]

namespace World

/-- The state in which a command starts, no call made yet. -/
def start (file : Node → Option (List UInt8)) : World Node :=
  { file, opens := 0, reads := 0, writes := 0, deletes := 0, seeks := 0, trapped := false }

def content (w : World Node) (n : Node) : List UInt8 := (w.file n).getD []

def setFile (w : World Node) (n : Node) (c : Option (List UInt8)) : World Node :=
  { w with file := fun m => if m = n then c else w.file m }

def trap (w : World Node) : World Node := { w with trapped := true }

@[simp] theorem setFile_file_same (w : World Node) (n : Node) (c : Option (List UInt8)) :
    (w.setFile n c).file n = c := if_pos rfl

omit [DecidableEq Node] in
@[simp] theorem content_start (file : Node → Option (List UInt8)) (n : Node) :
    (start file).content n = (file n).getD [] := rfl

theorem setFile_file_ne (w : World Node) {n m : Node} (c : Option (List UInt8)) (ne : m ≠ n) :
    (w.setFile n c).file m = w.file m := if_neg ne

end World

namespace Efi

/-- `Handle->Read`. -/
def read (fw : Firmware Node) : Reader.HandleRead (Option (Handle Node) × World Node) := fun n s =>
  match s.1 with
  | none => (efiSuccess, [], none, s.2.trap)
  | some h =>
    match fw.reads s.2.reads with
    | .fails => (efiDeviceError, [], some h, { s.2 with reads := s.2.reads + 1 })
    | .gives more =>
      let bytes := ((s.2.content h.node).drop h.position).take (min n (more + 1))
      (efiSuccess, bytes, some { h with position := h.position + bytes.length },
        { s.2 with reads := s.2.reads + 1 })

/-- `Handle->Write`; the callers only print its status. -/
def write (fw : Firmware Node) (payload : List UInt8) (s : Option (Handle Node) × World Node) :
    Option (Handle Node) × World Node :=
  match s.1 with
  | none => (none, s.2.trap)
  | some h =>
    let stored := (fw.writes s.2.writes).stored payload
    (some { h with position := h.position + stored.length },
      { s.2.setFile h.node ((s.2.file h.node).map fun old => overwrite 0 old h.position stored) with
        writes := s.2.writes + 1 })

/-- `Handle->Delete`: whether the file is gone. -/
def delete (fw : Firmware Node) (h : Handle Node) (w : World Node) : Bool × World Node :=
  if fw.deletes w.deletes then (true, { w.setFile h.node none with deletes := w.deletes + 1 })
  else (false, { w with deletes := w.deletes + 1 })

/-- `Handle->SetPosition`; the callers only print its status. The largest position stands for
the end of the file. -/
def setPosition (fw : Firmware Node) (position : Nat) (h : Handle Node) (w : World Node) :
    Handle Node × World Node :=
  let target := if position = 18446744073709551615 then (w.content h.node).length else position
  (if fw.seeks w.seeks then { h with position := target } else h, { w with seeks := w.seeks + 1 })

/-- `OpenVolume` and `Volume->Open`: a file that is not there is created when `create` is
asked for, one that is there is opened at its start as it is. -/
def openFile (fw : Firmware Node) (path : Str16) (create : Bool) (w : World Node) :
    Option (Handle Node) × World Node :=
  let n := fw.nodeOf path
  match fw.opens w.opens with
  | .granted =>
    match w.file n, create with
    | some _, _ => (some ⟨n, 0⟩, { w with opens := w.opens + 1 })
    | none, true => (some ⟨n, 0⟩, { w.setFile n (some []) with opens := w.opens + 1 })
    | none, false => (none, { w with opens := w.opens + 1 })
  | _ => (none, { w with opens := w.opens + 1 })

omit [DecidableEq Node] in
theorem read_fits (fw : Firmware Node) : Reader.FitsBuffer (read fw) := by
  intro n s
  unfold read
  split
  · exact Nat.zero_le n
  · split
    · exact Nat.zero_le n
    · simp only [List.length_take]
      omega

end Efi

end Lavoro
