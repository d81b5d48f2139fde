import Lavoro.Console.Copy
import Lavoro.Console.Ls
import Lavoro.File.Lines

/-!
# What the commands do with their files

The bodies of the commands that work on files, behind the point where their paths are known. A
loop is given a number of turns, and what it has not finished by then is `again`: the world is
the one it has got to.
-/

namespace Lavoro.Console
open Lib

variable {Node : Type} [DecidableEq Node]

/-- A loop over a directory that reads it through a handle. -/
def throughHandle {ρ : Type} (turn : Enumeration ρ → Turn (Enumeration ρ) (Enumeration ρ))
    (handle : Option (Handle Node)) (s : Enumeration ρ × World Node) :
    Turn (Enumeration ρ × World Node) (Enumeration ρ × World Node) :=
  if s.1.szBufferSize = 0 then .leave s
  else
    match handle with
    | none => .leave (s.1, s.2.trap)
    | some _ => (turn s.1).map fun e => (e, s.2)

/-- `ls`, where `entries` are those of a directory. -/
def ls (fw : Firmware Node) (entries : Node → List DirEntry) (szBuffer : DirEntry) (turns : Nat)
    (path : Str16) (w : World Node) : Turn (World Node) (World Node) :=
  let file := LFile.construct fw path false w
  let unread := match file.1.handle with
    | some h => entries h.node
    | none => []
  (Loop.after (throughHandle lsTurn file.1.handle) turns (lsStart szBuffer unread, file.2)).map
    fun s => LFile.destroy (file.1, s.2)

/-- One turn of the loop of `cat`. -/
def catTurn (fw : Firmware Node) (s : LFile Node × World Node) :
    Turn (LFile Node × World Node) (LFile Node × World Node) :=
  if Reader.atEnd s.1.reader then .leave s
  else
    let c := LFile.current fw (LFile.next fw s)
    if c.1 ≠ readerEof then .again (LFile.current fw c.2).2 else .leave c.2

def cat (fw : Firmware Node) (turns : Nat) (path : Str16) (w : World Node) : Turn (World Node) (World Node) :=
  (Loop.after (catTurn fw) turns (LFile.construct fw path false w)).map LFile.destroy

def rm (fw : Firmware Node) (path : Str16) (w : World Node) : World Node :=
  LFile.destroy (LFile.delete fw (LFile.construct fw path false w))

/-- `cp` and `mv`; what is done with the source behind the copy is `finish`. -/
def copyThen (fw : Firmware Node) (turns : Nat) (finish : LFile Node × World Node → LFile Node × World Node)
    (src dst : Str16) (w : World Node) : Turn (World Node) (World Node) :=
  let copied := (Loop.after (copyTurn fw) turns (openBoth fw src dst w)).andThen fun st =>
    let flushed := LFile.flush fw (st.fileCopy, st.world)
    let finished := finish (st.file, flushed.2)
    { file := finished.1, fileCopy := flushed.1, world := finished.2 }
  copied.map fun st => LFile.destroy (st.fileCopy, LFile.destroy (st.file, st.world))

/-- One turn of the loop of `addline` that finds the end of the file; `Position` counts the bytes of
a file, whose size is a `UINT64` as well. -/
def countTurn (fw : Firmware Node) (x : Nat × LFile Node × World Node) :
    Turn (Nat × LFile Node × World Node) (Nat × LFile Node × World Node) :=
  if Reader.atEnd x.2.1.reader then .leave x else .again (x.1 + 1, LFile.next fw x.2)

/-- `addline` behind that loop. -/
def append (fw : Firmware Node) (text : Str16) (position : Nat) (s : LFile Node × World Node) :
    LFile Node × World Node :=
  LFile.flush fw (LFile.writeAll fw [13, 10] (LFile.writeUnits fw text (LFile.setPosition fw position s)))

def addline (fw : Firmware Node) (turns : Nat) (path text : Str16) (w : World Node) :
    Turn (World Node) (World Node) :=
  let counted := Loop.after (countTurn fw) turns (0, LFile.next fw (LFile.construct fw path true w))
  (counted.andThen fun x => (x.1, append fw text x.1 x.2)).map fun x => LFile.destroy x.2

def mkdir (fw : Firmware Node) (path : Str16) (w : World Node) : World Node :=
  LFile.destroy (LFile.construct fw path true w)

end Lavoro.Console
