import Lavoro.Console.Overflow
import Lavoro.Stream.Lines
import Mathlib.Logic.Function.Basic

/-!
# What the commands of the console mean

To its user the console is a current path and the files of a disk. An `Order` is a command with its
arguments, and `follow` is what it makes of the disk: there are no buffers, no handles and no `szLine`
in it. `Runs` is the meaning of a list of jobs, each of them an order or a file of such jobs. A directory is
an empty file of the disk: what the machine reads of one as the source of `cp` or `mv`, or for `cat`, is left out.
-/

namespace Lavoro.Console
open Lib

/-- The current path and the files. -/
structure Disk (Node : Type) where
  szCurrentPath : Str16
  file : Node → Option (List UInt8)

/-- A command with its arguments. -/
inductive Order where
  | ls
  | cd (path : Str16)
  | cat (path : Str16)
  | rm (path : Str16)
  | mkdir (path : Str16)
  | cp (src dst : Str16)
  | mv (src dst : Str16)
  | addline (path text : Str16)
  /-- A line that does not work on files, whatever it is. -/
  | other (line : Str16)

/-- A line that leaves the path and the files alone: it runs no command, or `cwd`. -/
def Idle (line : Str16) : Prop := dispatch line = none ∨ dispatch line = some .cwd

instance (line : Str16) : Decidable (Idle line) := inferInstanceAs (Decidable (_ ∨ _))

namespace Order

/-- The line of an order, as it is typed. -/
def line : Order → Str16
  | .ls => Command.ls.name
  | .cd path => Command.cd.name ++ space :: path
  | .cat path => Command.cat.name ++ space :: path
  | .rm path => Command.rm.name ++ space :: path
  | .mkdir path => Command.mkdir.name ++ space :: path
  | .cp src dst => Command.cp.name ++ space :: src ++ space :: dst
  | .mv src dst => Command.mv.name ++ space :: src ++ space :: dst
  | .addline path text => Command.addline.name ++ space :: path ++ space :: text
  | .other line => line

end Order

namespace Disk

variable {Node : Type} [DecidableEq Node]

/-- The file that an argument names. -/
def named (nodeOf : Str16 → Node) (d : Disk Node) (path : Str16) : Node := nodeOf (resolve d.szCurrentPath path)

def content (d : Disk Node) (n : Node) : List UInt8 := (d.file n).getD []

def write (d : Disk Node) (n : Node) (c : Option (List UInt8)) : Disk Node :=
  { d with file := Function.update d.file n c }

/-- The first file over the start of the second. -/
def copy (d : Disk Node) (src dst : Node) : Disk Node :=
  d.write dst (some (d.content src ++ (d.content dst).drop (d.content src).length))

/-- **What an order makes of the disk.** -/
def follow (nodeOf : Str16 → Node) (d : Disk Node) : Order → Disk Node
  | .ls => d
  | .cd path => { d with szCurrentPath := resolve d.szCurrentPath path }
  | .cat _ => d
  | .rm path => d.write (d.named nodeOf path) none
  | .mkdir path => d.write (d.named nodeOf path) (some (d.content (d.named nodeOf path)))
  | .cp src dst => d.copy (d.named nodeOf src) (d.named nodeOf dst)
  | .mv src dst => (d.copy (d.named nodeOf src) (d.named nodeOf dst)).write (d.named nodeOf src) none
  | .addline path text =>
    d.write (d.named nodeOf path) (some (d.content (d.named nodeOf path) ++ text.map UInt16.toUInt8 ++ [13, 10]))
  | .other _ => d

/-- The argument has room in `szPath`, and it ends where the line does. -/
structure Argument (d : Disk Node) (path : Str16) : Prop where
  clean : 0 ∉ path
  fits : Fits d.szCurrentPath path

/-- An argument that another one follows. -/
structure First (d : Disk Node) (path : Str16) : Prop extends Argument d path where
  one : space ∉ path

/-- The order can be carried out: its arguments are such, and what it reads is there. -/
def Allows (nodeOf : Str16 → Node) (entries : Node → List DirEntry) (d : Disk Node) : Order → Prop
  | .ls => (d.file (nodeOf d.szCurrentPath)).isSome ∧ ∀ e ∈ entries (nodeOf d.szCurrentPath), e.Fits
  | .cd path => d.Argument path
  | .cat path => d.Argument path ∧ (d.file (d.named nodeOf path)).isSome
  | .rm path => d.Argument path
  | .mkdir path => d.Argument path
  | .cp src dst => d.First src ∧ d.Argument dst ∧ (d.file (d.named nodeOf src)).isSome
  | .mv src dst => d.First src ∧ d.First dst ∧ (d.file (d.named nodeOf src)).isSome
  | .addline path text => d.First path ∧ 0 ∉ text
  | .other line => 0 ∉ line ∧ Idle line

end Disk

/-! ## Jobs -/

/-- An order, or the file of a batch. -/
inductive Job where
  | order (o : Order)
  | batch (path : Str16)

def Job.line : Job → Str16
  | .order o => o.line
  | .batch path => Command.batch.name ++ space :: path

/-- The lines end, or there is one of those that end a batch. -/
inductive Stops : List Str16 → Prop where
  | none : Stops []
  | quit (more : List Str16) : Stops (Command.quit.name :: more)
  | end_ (more : List Str16) : Stops (Command.end_.name :: more)

/-- The jobs of a file. -/
structure Script (content : List UInt8) (jobs : List Job) : Prop where
  some' : content ≠ []
  lines : ∃ more, fileLines content = jobs.map Job.line ++ more ∧ Stops more

section Runs

variable {Node : Type} [DecidableEq Node]

/-- **What jobs make of a disk** while the files `open'` are being run, which stay as they are. -/
inductive Runs (nodeOf : Str16 → Node) (entries : Node → List DirEntry) :
    List Node → Disk Node → List Job → Disk Node → Prop where
  | done {open' d} : Runs nodeOf entries open' d [] d
  | order {open' d d' o jobs} (allowed : d.Allows nodeOf entries o) (short : o.line.length < maxPath)
      (stay : ∀ n ∈ open', (d.follow nodeOf o).file n = d.file n)
      (rest : Runs nodeOf entries open' (d.follow nodeOf o) jobs d') :
      Runs nodeOf entries open' d (.order o :: jobs) d'
  | batch {open' d d₁ d' path content body jobs} (argument : d.Argument path)
      (short : (Job.batch path).line.length < maxPath)
      (there : d.file (d.named nodeOf path) = some content) (script : Script content body)
      (inner : Runs nodeOf entries (d.named nodeOf path :: open') d body d₁)
      (rest : Runs nodeOf entries open' d₁ jobs d') :
      Runs nodeOf entries open' d (.batch path :: jobs) d'

variable {nodeOf : Str16 → Node} {entries : Node → List DirEntry} {open' : List Node} {d d₁ d' : Disk Node}
variable {jobs more : List Job}

/-- The files that are being run stay. -/
theorem Runs.stay (h : Runs nodeOf entries open' d jobs d') : ∀ n ∈ open', d'.file n = d.file n := by
  induction h with
  | done => exact fun n _ => rfl
  | order _ _ stay _ ih => exact fun n mem => (ih n mem).trans (stay n mem)
  | batch _ _ _ _ _ _ inner rest => exact fun n mem => (rest n mem).trans (inner n (List.mem_cons_of_mem _ mem))

/-- What may be done while files are run may be done while fewer of them are. -/
theorem Runs.mono {fewer : List Node} (h : Runs nodeOf entries open' d jobs d') (sub : fewer ⊆ open') :
    Runs nodeOf entries fewer d jobs d' := by
  induction h generalizing fewer with
  | done => exact .done
  | order allowed short stay _ ih => exact .order allowed short (fun n mem => stay n (sub mem)) (ih sub)
  | batch argument short there script _ _ inner rest =>
    exact .batch argument short there script (inner (List.cons_subset_cons _ sub)) (rest sub)

/-- Jobs one after the other. -/
theorem Runs.append (h : Runs nodeOf entries open' d jobs d₁) (h' : Runs nodeOf entries open' d₁ more d') :
    Runs nodeOf entries open' d (jobs ++ more) d' := by
  induction h with
  | done => exact h'
  | order allowed short stay _ ih => exact .order allowed short stay (ih h')
  | batch argument short there script inner _ _ ih => exact .batch argument short there script inner (ih h')

end Runs

end Lavoro.Console
