import Lavoro.Console.Buffers
import Lavoro.Console.Commands
import Lavoro.Console.Dispatch
import Lavoro.Efi.Str

/-!
# The console (`ConsoleMode`)

A round of `ConsoleMode` executes the command in `szLine` and reads the next line, from the
keyboard or from a batch file. `batch` runs `ConsoleMode` on a file; the files of the runs that
have not returned yet are the stack `batches`. What the commands print is left out, and with
it those that do nothing else: `cwd`, `accept`, the demos and the packages.
-/

namespace Lavoro.Console
open Lib

variable {Node : Type} [DecidableEq Node]

/-- `Mode` and `Attributes` of an `LFile`. -/
inductive OpenMode where
  | read
  | readWrite
  | createFile
  | createDirectory
  deriving Repr, DecidableEq

/-- What the console runs on: the firmware, the entries of its directories, what `szBuffer` holds
when a listing starts, and whether there is a graphics output. -/
structure Environment (Node : Type) where
  fw : Firmware Node
  entries : Node → List DirEntry
  szBuffer : DirEntry
  gop : Bool

/-- The state of the console; `opened` are the files that have been asked for, in order. -/
structure ConsoleState (Node : Type) where
  szLine : LineBuffer
  szPath : PathBuffer
  szCurrentPath : PathBuffer
  remoteAddress : List UInt8
  remotePort : UInt16
  batches : List (LFile Node)
  opened : List (Str16 × OpenMode)
  world : World Node

/-- What follows a command or a round: `ConsoleMode` goes on, a batch is entered, `ConsoleMode`
returns, or more turns of a loop would be needed. -/
inductive Control where
  | next
  | enter
  | leave
  | unfinished
  deriving Repr, DecidableEq

/-! ## The arguments of `connect` -/

def digit (c : UInt16) : Bool := 48 ≤ c.toNat ∧ c.toNat ≤ 57

/-- `while (*p >= L'0' && *p <= L'9')`: the number and what is behind it. -/
def number (p : Str16) : Nat × Str16 := (atoiDigits 0 p, p.dropWhile digit)

/-- `n` numbers, behind each of which one unit is skipped. -/
def numbers : Nat → Str16 → List UInt8 × Str16
  | 0, p => ([], p)
  | n + 1, p =>
    let rest := numbers n (number p).2.tail
    (UInt8.ofNat (number p).1 :: rest.1, rest.2)

/-- The port, which is left as it is where there is no digit. -/
def port (remotePort : UInt16) (p : Str16) : UInt16 :=
  if digit (p.headD 0) then UInt16.ofNat (number p).1 else remotePort

namespace ConsoleState

/-- The state with other units from `szLine` on. -/
def holding (st : ConsoleState Node) (units : Str16) : ConsoleState Node :=
  { st with szLine := { st.szLine with units } }

/-- The argument at unit `i` of `szLine`, as a path in `szPath`. -/
def locateAt (i : Nat) (st : ConsoleState Node) : ConsoleState Node :=
  { st with szPath := locate st.szPath st.szCurrentPath (strAt st.szLine.units i) }

/-- `new LFile(path, NULL, ...)`. -/
def asks (path : Str16) (mode : OpenMode) (st : ConsoleState Node) : ConsoleState Node :=
  { st with opened := st.opened ++ [(path, mode)] }

/-- The state behind a command that works on files. -/
def finish (st : ConsoleState Node) : Turn (World Node) (World Node) → ConsoleState Node × Control
  | .again world => ({ st with world }, .unfinished)
  | .leave world => ({ st with world }, .next)

omit [DecidableEq Node] in
@[simp] theorem finish_world (st : ConsoleState Node) (t : Turn (World Node) (World Node)) :
    (st.finish t).1.world = t.state := by
  cases t <;> rfl

omit [DecidableEq Node] in
@[simp] theorem finish_batches (st : ConsoleState Node) (t : Turn (World Node) (World Node)) :
    (st.finish t).1.batches = st.batches := by
  cases t <;> rfl

omit [DecidableEq Node] in
@[simp] theorem finish_opened (st : ConsoleState Node) (t : Turn (World Node) (World Node)) :
    (st.finish t).1.opened = st.opened := by
  cases t <;> rfl

omit [DecidableEq Node] in
@[simp] theorem finish_szCurrentPath (st : ConsoleState Node) (t : Turn (World Node) (World Node)) :
    (st.finish t).1.szCurrentPath = st.szCurrentPath := by
  cases t <;> rfl

def cd (st : ConsoleState Node) : ConsoleState Node :=
  let st := st.locateAt 3
  { st with szCurrentPath := st.szCurrentPath.copy st.szPath.units }

def connect (st : ConsoleState Node) : ConsoleState Node :=
  let x := numbers 4 (st.szLine.units.drop 8)
  { st with remoteAddress := x.1, remotePort := port st.remotePort x.2 }

/-- `cp` and `mv`. -/
def copyFiles (fw : Firmware Node) (turns : Nat) (cut : Str16 → Str16) (mode : OpenMode)
    (last : LFile Node × World Node → LFile Node × World Node) (st : ConsoleState Node) : ConsoleState Node × Control :=
  let first := (st.holding (cutFrom cut 3 st.szLine.units)).locateAt 3
  let asked := first.asks first.szPath.str mode
  let second := asked.locateAt (strLen asked.szLine.units + 1)
  (second.asks second.szPath.str .createFile).finish
    (copyThen fw turns last first.szPath.str second.szPath.str st.world)

def addText (fw : Firmware Node) (turns : Nat) (st : ConsoleState Node) : ConsoleState Node × Control :=
  let st := (st.holding (cutFrom cutFirst 8 st.szLine.units)).locateAt 8
  let text := strAt st.szLine.units (strLen st.szLine.units + 1)
  (st.asks st.szPath.str .createFile).finish (addline fw turns st.szPath.str text st.world)

def enterBatch (fw : Firmware Node) (st : ConsoleState Node) : ConsoleState Node × Control :=
  let st := st.locateAt 6
  let file := LFile.construct fw st.szPath.str false st.world
  ({ st.asks st.szPath.str .read with batches := file.1 :: st.batches, world := file.2 }, .enter)

/-- The command in `szLine`. -/
def exec (env : Environment Node) (turns : Nat) (st : ConsoleState Node) : ConsoleState Node × Control :=
  match dispatch st.szLine.units with
  | none => (st, .next)
  | some .box => (st, .next)
  | some .pyramids => (st, .next)
  | some .antTSP => (st, .next)
  | some .ls =>
    (st.asks st.szCurrentPath.str .read).finish
      (ls env.fw env.entries env.szBuffer turns st.szCurrentPath.str st.world)
  | some .cd => (st.cd, .next)
  | some .cwd => (st, .next)
  | some .cat =>
    let st := st.locateAt 4
    (st.asks st.szPath.str .read).finish (cat env.fw turns st.szPath.str st.world)
  | some .connect => (st.connect, .next)
  | some .accept => (st, .next)
  | some .filldemo => (st, if env.gop then .next else .leave)
  | some .printmodes => (st, if env.gop then .next else .leave)
  | some .quit => (st, .leave)
  | some .end_ => (st, .leave)
  | some .rm =>
    let st := st.locateAt 3
    (st.asks st.szPath.str .readWrite).finish (.leave (rm env.fw st.szPath.str st.world))
  | some .cp => st.copyFiles env.fw turns cutFirst .read id
  | some .mv => st.copyFiles env.fw turns cutAll .readWrite (LFile.delete env.fw)
  | some .addline => st.addText env.fw turns
  | some .mkdir =>
    let st := st.locateAt 6
    (st.asks st.szPath.str .createDirectory).finish (.leave (mkdir env.fw st.szPath.str st.world))
  | some .batch => st.enterBatch env.fw

/-! ## Rounds -/

/-- The next line: typed, or from the innermost batch. -/
def readNext (fw : Firmware Node) (turns : Nat) (typed : Str16) (st : ConsoleState Node) :
    ConsoleState Node × Control :=
  match st.batches with
  | [] => ({ st with szLine := st.szLine.put typed }, .next)
  | batch :: outer =>
    match LFile.readLine fw turns (batch, st.world) with
    | .again x => ({ st with batches := x.2.1 :: outer, world := x.2.2 }, .unfinished)
    | .leave x =>
      ({ st with szLine := st.szLine.readInto x.1, batches := x.2.1 :: outer, world := x.2.2 }, .next)

/-- `if (Batch && Batch->Reader.AtEnd()) break`, and so in the runs around it. -/
def leaveEnded (st : ConsoleState Node) : ConsoleState Node :=
  { st with batches := st.batches.dropWhile fun batch => Reader.atEnd batch.reader }

/-- A command and the reading of the next line; `leave` where the outermost `ConsoleMode` returns. -/
def round (env : Environment Node) (turns : Nat) (typed : Str16) (st : ConsoleState Node) :
    ConsoleState Node × Control :=
  match exec env turns st with
  | (st, .unfinished) => (st, .unfinished)
  | (st, .next) => st.leaveEnded.readNext env.fw turns typed
  | (st, .enter) => st.readNext env.fw turns typed
  | (st, .leave) =>
    match st.batches with
    | [] => (st, .leave)
    | _ :: outer => { st with batches := outer }.leaveEnded.readNext env.fw turns typed

/-- Rounds of `ConsoleMode`, with the line that is typed where the round asks for one. -/
def run (env : Environment Node) (turns : Nat) : List Str16 → ConsoleState Node → ConsoleState Node × Control
  | [], st => (st, .next)
  | typed :: more, st =>
    match round env turns typed st with
    | (st, .next) => run env turns more st
    | ended => ended

end ConsoleState

end Lavoro.Console
