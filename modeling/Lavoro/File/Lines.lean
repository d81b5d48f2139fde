import Lavoro.Lib.Loop
import Lavoro.File.Directory
import Lavoro.File.LFile
import Lavoro.Stream.Requests

/-!
# Lines of a file

`ReadLine` takes units off a reader up to the next line feed. It stores them behind each other
and then a NUL, over the last unit where that is a carriage return; where it has stored
nothing, the unit it looks at is the one in front of the buffer.
-/

namespace Lavoro
open Lib

variable {Node : Type} [DecidableEq Node]

namespace LFile

/-- One turn of the loop of `ReadLine`, with the units stored so far. -/
def readLineTurn (fw : Firmware Node) (x : Str16 × LFile Node × World Node) :
    Turn (Str16 × LFile Node × World Node) (Str16 × LFile Node × World Node) :=
  if Reader.atEnd x.2.1.reader then .leave x
  else
    let c := current fw x.2
    if c.1 = 10 then .leave (x.1, next fw c.2)
    else
      let d := current fw c.2
      .again (x.1 ++ [toUnit d.1], next fw d.2)

/-- The loop of `Reader.ReadLine(Buffer)`. -/
def readLine (fw : Firmware Node) (turns : Nat) (s : LFile Node × World Node) :
    Turn (Str16 × LFile Node × World Node) (Str16 × LFile Node × World Node) :=
  Loop.after (readLineTurn fw) turns ([], s)

omit [DecidableEq Node] in
/-- A turn on the reader of the file. -/
theorem readLineTurn_onReader (fw : Firmware Node) (f : LFile Node)
    (y : Str16 × LReader × Option (Handle Node) × World Node) :
    readLineTurn fw (y.1, f.onReader y.2) =
      (Reader.readLineTurn (readBuffer fw) y).map fun z => (z.1, f.onReader z.2) := by
  unfold readLineTurn Reader.readLineTurn
  by_cases ended : Reader.atEnd y.2.1 = true
  · rw [if_pos ended]
    exact if_pos ended
  · rw [if_neg ended]
    apply (if_neg ended).trans
    by_cases feed : (Reader.current (readBuffer fw) y.2).1 = 10
    · simp only [feed, if_true]
      exact if_pos feed
    · simp only [feed, if_false]
      exact if_neg feed

omit [DecidableEq Node] in
/-- `ReadLine` of the file is that of its reader. -/
theorem readLine_eq (fw : Firmware Node) (turns : Nat) (s : LFile Node × World Node) :
    readLine fw turns s =
      (Reader.readLine (readBuffer fw) turns (s.1.reader, s.1.handle, s.2)).map fun z =>
        (z.1, s.1.onReader z.2) :=
  Loop.after_map (fun z : Str16 × LReader × Option (Handle Node) × World Node => (z.1, s.1.onReader z.2))
    (readLineTurn_onReader fw s.1) turns ([], s.1.reader, s.1.handle, s.2)

/-- `Writer.Write(pbuffer, size)` of `CHAR16` units. -/
def writeUnits (fw : Firmware Node) (units : Str16) (s : LFile Node × World Node) : LFile Node × World Node :=
  s.1.onWriter (Writer.writeUnits (writeBuffer fw) units (s.1.writer, s.1.handle, s.2))

/-- `Writer.Write(pbuffer, size)`. -/
def writeAll (fw : Firmware Node) (bytes : List UInt8) (s : LFile Node × World Node) : LFile Node × World Node :=
  s.1.onWriter (Writer.writeAll (writeBuffer fw) bytes (s.1.writer, s.1.handle, s.2))

end LFile

/-- A buffer that lines are read into and the unit in front of it. It has no bound of its own: a line that an array of
`MAX_PATH` units has room for is one that `Fits`. -/
structure LineBuffer where
  before : UInt16
  units : Str16
  deriving Repr, DecidableEq

namespace LineBuffer

/-- `units` and a NUL at the start of the buffer. -/
def put (b : LineBuffer) (units : Str16) : LineBuffer :=
  { b with units := units ++ 0 :: b.units.drop (units.length + 1) }

/-- What `ReadLine` leaves in the buffer when it has stored these units. -/
def readInto (b : LineBuffer) (stored : Str16) : LineBuffer :=
  match stored.getLast? with
  | some c => if c = 13 then b.put stored.dropLast else b.put stored
  | none => if b.before = 13 then { b with before := 0 } else b.put []

/-- When `ReadLine` stores these units, it writes inside an array of `MAX_PATH` units, the NUL included. -/
def Fits (stored : Str16) : Prop :=
  stored.length < maxPath ∨ stored.length = maxPath ∧ stored.getLast? = some 13

instance (stored : Str16) : Decidable (Fits stored) := inferInstanceAs (Decidable (_ ∨ _ ∧ _))

end LineBuffer

end Lavoro
