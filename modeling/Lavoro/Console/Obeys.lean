import Lavoro.Console.Duplicate
import Lavoro.Console.Nesting
import Lavoro.Console.Orders

/-!
# The commands do what the orders say

On a file system without failures, from any state that stands for a disk: the command of an order that
the disk allows comes to its end in a state that stands for what the order makes of the disk.
-/

namespace Lavoro.Console
open Lib

variable {Node : Type} [DecidableEq Node] {env : Environment Node} {st st' : ConsoleState Node}
variable {d d' : Disk Node} {path src dst text rest : Str16}

/-- The console stands for a disk: its arrays are sound, no call has trapped, and in front of `szLine` there
is no carriage return. -/
structure Stands (d : Disk Node) (st : ConsoleState Node) : Prop where
  held : Held st
  path : st.szCurrentPath.str = d.szCurrentPath
  file : st.world.file = d.file
  fine : st.world.trapped = false
  before : st.szLine.before ≠ 13

omit [DecidableEq Node] in
/-- Other lines and other open batches do not matter. -/
theorem Stands.transfer (h : Stands d st) (szPath : st'.szPath = st.szPath)
    (szCurrentPath : st'.szCurrentPath = st.szCurrentPath) (file : st'.world.file = st.world.file)
    (fine : st'.world.trapped = false) (before : st'.szLine.before = st.szLine.before) : Stands d st' where
  held := by
    rw [held_iff h.held szCurrentPath, szPath]
    exact h.held.szPath
  path := by
    rw [szCurrentPath]
    exact h.path
  file := file.trans h.file
  fine
  before := by
    rw [before]
    exact h.before

/-- What the command in `szLine` has to do to get to `d'`. -/
structure Obeys (env : Environment Node) (st : ConsoleState Node) (d' : Disk Node) : Prop where
  other : dispatch st.szLine.units ≠ some .batch
  fits : CommandFits st.szCurrentPath.str st.szLine.units
  opens : st.CommandOpens env
  runs : ∃ enough st', (∀ turns, enough ≤ turns → st.exec env turns = (st', .next)) ∧
    st'.szCurrentPath.str = d'.szCurrentPath ∧ st'.world.file = d'.file

/-- A command that has come to its end leaves what is in front of `szLine`. -/
theorem Executed.before (h : Executed env st (st', .next)) : st'.szLine.before = st.szLine.before := by
  cases h with
  | works _ _ _ _ _ before => exact before

/-- **Such a command** comes to a state that stands for `d'`, with the same open batches. -/
theorem Obeys.stands (h : Obeys env st d') (stands : Stands d st) :
    ∃ enough st', (∀ turns, enough ≤ turns → st.exec env turns = (st', .next)) ∧ Stands d' st' ∧
      st'.batches = st.batches := by
  obtain ⟨enough, st', runs, path, file⟩ := h.runs
  have ran := runs enough (Nat.le_refl _)
  have executed := exec_executed env enough st
  have held : Held (st.exec env enough).1 := (exec_held stands.held).2 h.fits
  have fine := (ConsoleState.exec_neverTraps stands.fine h.other).2 h.opens enough
  rw [ran] at executed held
  simp only [ran] at fine
  refine ⟨enough, st', runs, ⟨held, path, file, fine, ?_⟩, executed.next⟩
  rw [executed.before]
  exact stands.before

/-- A command that works on files: `body` is what it does with them. -/
theorem obeys_finish {c : Command} (runs : dispatch st.szLine.units = some c) (other : c ≠ .batch)
    (fits : CommandFits st.szCurrentPath.str st.szLine.units) (opens : st.CommandOpens env)
    {x : ConsoleState Node} {body : Nat → Turn (World Node) (World Node)} {enough : Nat} {w' : World Node}
    (ran : ∀ turns, st.exec env turns = x.finish (body turns)) (leaves : ∀ turns, enough ≤ turns → body turns = .leave w')
    (path : x.szCurrentPath.str = d'.szCurrentPath) (file : w'.file = d'.file) : Obeys env st d' where
  other := by
    rw [runs]
    exact fun eq => other (Option.some.inj eq)
  fits
  opens
  runs := by
    refine ⟨enough, { x with world := w' }, fun turns le => ?_, path, file⟩
    rw [ran, leaves turns le]
    rfl

/-! ## Arguments -/

/-- The command of a name that only has to begin the line. -/
theorem dispatch_begins {c : Command} (start : c.compare = .start) (behind : Str16) :
    dispatch (c.name ++ behind) = some c := by
  apply dispatch_eq_some_iff.2
  rw [test_iff, start]
  have clean : 0 ∉ c.name := by
    cases c <;> decide
  rw [strAt_zero, List.takeWhile_append_of_pos fun u mem => by simpa using ne_of_mem_of_not_mem mem clean]
  exact List.prefix_append _ _

/-- The command of a name that is the whole line. -/
theorem dispatch_whole {c : Command} (whole : c.compare = .whole) (rest : Str16) :
    dispatch (c.name ++ 0 :: rest) = some c := by
  apply dispatch_eq_some_iff.2
  rw [test_iff, whole]
  exact strAt_line (by cases c <;> decide) rest

omit [DecidableEq Node] in
/-- The path that an argument has in `szPath`, where the current path is still that of `st`. -/
theorem Stands.located (h : Stands d st) (argument : d.Argument path) {x : ConsoleState Node}
    (same : x.szCurrentPath = st.szCurrentPath) {i : Nat} (at' : strAt x.szLine.units i = path) :
    (x.locateAt i).szPath.str = resolve d.szCurrentPath path ∧ Fits st.szCurrentPath.str (strAt x.szLine.units i) := by
  have fits : Fits st.szCurrentPath.str path := by
    rw [h.path]
    exact argument.fits
  have sound : (locate x.szPath st.szCurrentPath path).str = resolve st.szCurrentPath.str path ∧ _ :=
    locate_sound argument.clean h.held.ends fits
  rw [h.path] at sound
  refine ⟨?_, by rwa [at']⟩
  rw [ConsoleState.locateAt, at', same]
  exact sound.1

omit [DecidableEq Node] in
/-- A command with one argument: its branch, its path, and that the path fits. -/
theorem Stands.one (h : Stands d st) {c : Command} (start : c.compare = .start) (argument : d.Argument path)
    (line : st.szLine.units = c.name ++ space :: path ++ 0 :: rest) {i : Nat} (at' : i = c.name.length + 1) :
    dispatch st.szLine.units = some c ∧ (st.locateAt i).szPath.str = resolve d.szCurrentPath path ∧
      Fits st.szCurrentPath.str (strAt st.szLine.units i) := by
  have arg : strAt st.szLine.units i = path := by
    rw [line]
    exact strAt_oneArgument argument.clean at'
  refine ⟨?_, h.located argument rfl arg⟩
  rw [line, List.append_assoc]
  exact dispatch_begins start _

omit [DecidableEq Node] in
/-- A file that is there opens. -/
theorem opens_present (well : Readable env.fw) {w : World Node} (named : path ≠ [])
    (there : (w.file (env.fw.nodeOf path)).isSome) : LFile.Opens env.fw path false w :=
  ⟨named, well.opens _, .inr there⟩

/-! ## Commands with one argument -/

section One

theorem cd_obeys (h : Stands d st) (argument : d.Argument path)
    (line : st.szLine.units = (Order.cd path).line ++ 0 :: rest) :
    Obeys env st (d.follow env.fw.nodeOf (.cd path)) := by
  obtain ⟨runs, located, fits⟩ := h.one (c := .cd) rfl argument line (i := 3) rfl
  have arg : strAt st.szLine.units 3 = path := by
    rw [line]
    exact strAt_oneArgument argument.clean rfl
  refine ⟨by rw [runs]; decide, by rw [CommandFits, runs]; exact fits,
    by rw [ConsoleState.CommandOpens, runs]; trivial, 0, st.cd, fun turns _ => ?_, ?_, h.file⟩
  · rw [ConsoleState.exec, runs]
  · rw [(cd_sound h.held.ends fits).1, arg, h.path]
    rfl

theorem cat_obeys (well : Healthy env.fw) (h : Stands d st) (argument : d.Argument path)
    (there : (d.file (d.named env.fw.nodeOf path)).isSome)
    (line : st.szLine.units = (Order.cat path).line ++ 0 :: rest) :
    Obeys env st (d.follow env.fw.nodeOf (.cat path)) := by
  obtain ⟨runs, located, fits⟩ := h.one (c := .cat) rfl argument line (i := 4) rfl
  have named := resolve_ne_nil d.szCurrentPath path
  rw [← h.file] at there
  obtain ⟨c, content⟩ := Option.isSome_iff_exists.1 there
  obtain ⟨enough, w', leaves⟩ := cat_leaves well.toReadable named st.world content
  have file := cat_file env.fw enough (resolve d.szCurrentPath path) st.world
  rw [leaves enough (Nat.le_refl _)] at file
  rw [← located] at leaves
  have ran : ∀ turns, st.exec env turns = ((st.locateAt 4).asks (st.locateAt 4).szPath.str .read).finish
      (cat env.fw turns (st.locateAt 4).szPath.str st.world) := by
    intro turns
    rw [ConsoleState.exec, runs]
    rfl
  refine obeys_finish runs (by decide) ?_ ?_ ran leaves h.path (file.trans h.file)
  · rw [CommandFits, runs]
    exact fits
  · rw [ConsoleState.CommandOpens, runs]
    simp only [located]
    exact opens_present well.toReadable named there

theorem rm_obeys (well : Healthy env.fw) (h : Stands d st) (argument : d.Argument path)
    (line : st.szLine.units = (Order.rm path).line ++ 0 :: rest) :
    Obeys env st (d.follow env.fw.nodeOf (.rm path)) := by
  obtain ⟨runs, located, fits⟩ := h.one (c := .rm) rfl argument line (i := 3) rfl
  have file : (rm env.fw (st.locateAt 3).szPath.str st.world).file = (d.follow env.fw.nodeOf (.rm path)).file := by
    rw [located, rm_file well (resolve_ne_nil _ _), h.file]
    rfl
  have ran : ∀ turns, st.exec env turns = ((st.locateAt 3).asks (st.locateAt 3).szPath.str .readWrite).finish
      (.leave (rm env.fw (st.locateAt 3).szPath.str st.world)) := by
    intro turns
    rw [ConsoleState.exec, runs]
    rfl
  refine obeys_finish runs (by decide) ?_ ?_ ran (fun turns (_ : 0 ≤ turns) => rfl) h.path file
  · rw [CommandFits, runs]
    exact fits
  · rw [ConsoleState.CommandOpens, runs]
    trivial

theorem mkdir_obeys (well : Healthy env.fw) (h : Stands d st) (argument : d.Argument path)
    (line : st.szLine.units = (Order.mkdir path).line ++ 0 :: rest) :
    Obeys env st (d.follow env.fw.nodeOf (.mkdir path)) := by
  obtain ⟨runs, located, fits⟩ := h.one (c := .mkdir) rfl argument line (i := 6) rfl
  have file : (mkdir env.fw (st.locateAt 6).szPath.str st.world).file =
      (d.follow env.fw.nodeOf (.mkdir path)).file := by
    rw [located, mkdir_file well.toReadable (resolve_ne_nil _ _), World.content, h.file]
    rfl
  have ran : ∀ turns, st.exec env turns = ((st.locateAt 6).asks (st.locateAt 6).szPath.str .createDirectory).finish
      (.leave (mkdir env.fw (st.locateAt 6).szPath.str st.world)) := by
    intro turns
    rw [ConsoleState.exec, runs]
    rfl
  refine obeys_finish runs (by decide) ?_ ?_ ran (fun turns (_ : 0 ≤ turns) => rfl) h.path file
  · rw [CommandFits, runs]
    exact fits
  · rw [ConsoleState.CommandOpens, runs]
    trivial

end One

/-! ## Commands without one -/

theorem ls_obeys (well : Healthy env.fw) (h : Stands d st)
    (there : (d.file (env.fw.nodeOf d.szCurrentPath)).isSome)
    (fits : ∀ e ∈ env.entries (env.fw.nodeOf d.szCurrentPath), e.Fits)
    (line : st.szLine.units = Order.ls.line ++ 0 :: rest) : Obeys env st (d.follow env.fw.nodeOf .ls) := by
  have runs : dispatch st.szLine.units = some .ls := by
    rw [line]
    exact dispatch_whole (c := .ls) rfl rest
  have named := h.held.some
  rw [← h.file, ← h.path] at there
  rw [← h.path] at fits
  obtain ⟨c, content⟩ := Option.isSome_iff_exists.1 there
  obtain ⟨enough, w', leaves⟩ := ls_leaves well.toReadable named env.entries env.szBuffer st.world content fits
  have file := ls_file env.fw env.entries env.szBuffer enough st.szCurrentPath.str st.world
  rw [leaves enough (Nat.le_refl _)] at file
  have ran : ∀ turns, st.exec env turns = (st.asks st.szCurrentPath.str .read).finish
      (ls env.fw env.entries env.szBuffer turns st.szCurrentPath.str st.world) := by
    intro turns
    rw [ConsoleState.exec, runs]
  refine obeys_finish runs (by decide) ?_ ?_ ran leaves h.path (file.trans h.file)
  · rw [CommandFits, runs]
    trivial
  · rw [ConsoleState.CommandOpens, runs]
    exact opens_present well.toReadable named there

theorem other_obeys (h : Stands d st) {other : Str16} (idle : Idle other)
    (line : st.szLine.units = (Order.other other).line ++ 0 :: rest) :
    Obeys env st (d.follow env.fw.nodeOf (.other other)) := by
  have same : dispatch st.szLine.units = dispatch other := by
    rw [line]
    exact dispatch_congr (strAt_append (Nat.zero_le _) rest)
  have still : ∀ turns, st.exec env turns = (st, .next) := by
    intro turns
    rcases idle with runs | runs <;> rw [ConsoleState.exec, same, runs]
  refine ⟨?_, ?_, ?_, 0, st, fun turns _ => still turns, h.path, h.file⟩
  · rcases idle with runs | runs <;> rw [same, runs]
    · exact fun eq => by cases eq
    · decide
  · rcases idle with runs | runs <;> rw [CommandFits, same, runs] <;> trivial
  · rcases idle with runs | runs <;> rw [ConsoleState.CommandOpens, same, runs] <;> trivial

/-! ## Commands with two arguments -/

section Two

/-- A line whose first argument has been cut off. -/
structure Cut (name src dst rest units : Str16) : Prop where
  units : units = name ++ space :: src ++ 0 :: (dst ++ 0 :: rest)
  named : 0 ∉ name
  first : 0 ∉ src
  second : 0 ∉ dst

theorem Cut.strAt_first {name units : Str16} (h : Cut name src dst rest units) {i : Nat} (at' : i = name.length + 1) :
    strAt units i = src := by
  rw [h.units]
  exact Console.strAt_first h.first at' _

theorem Cut.strAt_second {name units : Str16} (h : Cut name src dst rest units) :
    strAt units (strLen units + 1) = dst := by
  rw [h.units]
  exact Console.strAt_second h.named (by decide) h.first h.second

omit [DecidableEq Node] in
/-- The paths of `cp` and `mv` behind the cut. -/
theorem Stands.two (h : Stands d st) (source : d.Argument src) (destination : d.Argument dst) {name : Str16}
    {cut : Str16 → Str16} {i : Nat} (at' : i = name.length + 1)
    (behind : Cut name src dst rest (cutFrom cut i st.szLine.units)) (mode : OpenMode) :
    let first := (st.holding (cutFrom cut i st.szLine.units)).locateAt i
    let second := (first.asks first.szPath.str mode).locateAt (strLen first.szLine.units + 1)
    (first.szPath.str = resolve d.szCurrentPath src ∧ second.szPath.str = resolve d.szCurrentPath dst) ∧
      Fits st.szCurrentPath.str (strAt (cutFrom cut i st.szLine.units) i) ∧
        Fits st.szCurrentPath.str
          (strAt (cutFrom cut i st.szLine.units) (strLen (cutFrom cut i st.szLine.units) + 1)) := by
  intro first second
  obtain ⟨located, fits⟩ := h.located source (x := st.holding (cutFrom cut i st.szLine.units)) rfl
    (behind.strAt_first at')
  obtain ⟨located', fits'⟩ := h.located destination (x := first.asks first.szPath.str mode) rfl behind.strAt_second
  exact ⟨⟨located, located'⟩, fits, fits'⟩

/-- `cp` and `mv`, by what their copy comes to. -/
theorem copyFiles_obeys (well : Healthy env.fw) (h : Stands d st) {c : Command} (name : c.name.length = 2)
    {cut : Str16 → Str16} {mode : OpenMode} {last : LFile Node × World Node → LFile Node × World Node}
    (runs : dispatch st.szLine.units = some c) (other : c ≠ .batch)
    (source : d.Argument src) (destination : d.Argument dst)
    (behind : Cut c.name src dst rest (cutFrom cut 3 st.szLine.units))
    (there : (st.world.file (d.named env.fw.nodeOf src)).isSome)
    (fits : Fits st.szCurrentPath.str (strAt (cutFrom cut 3 st.szLine.units) 3) ∧
      Fits st.szCurrentPath.str (strAt (cutFrom cut 3 st.szLine.units) (strLen (cutFrom cut 3 st.szLine.units) + 1)) →
      CommandFits st.szCurrentPath.str st.szLine.units)
    (opens : st.FilesOpen env.fw cut → st.CommandOpens env)
    (ran : ∀ turns, st.exec env turns = st.copyFiles env.fw turns cut mode last)
    {enough : Nat} {w' : World Node} (leaves : ∀ turns, enough ≤ turns →
      copyThen env.fw turns last (resolve d.szCurrentPath src) (resolve d.szCurrentPath dst) st.world = .leave w')
    (path : d'.szCurrentPath = d.szCurrentPath) (file : w'.file = d'.file) : Obeys env st d' := by
  obtain ⟨⟨first, second⟩, both⟩ := h.two source destination (i := 3) (by rw [name]) behind mode
  have source' : LFile.Opens env.fw (resolve d.szCurrentPath src) false st.world :=
    ⟨resolve_ne_nil _ _, well.opens _, .inr there⟩
  have destination' : LFile.Opens env.fw (resolve d.szCurrentPath dst) true
      { st.world with opens := st.world.opens + 1 } := ⟨resolve_ne_nil _ _, well.opens _, .inl rfl⟩
  rw [← first] at source' leaves
  rw [← second] at destination' leaves
  exact obeys_finish runs other (fits both) (opens ⟨source', .inl destination'⟩) ran leaves (h.path.trans path.symm) file

theorem cp_obeys (well : Healthy env.fw) (h : Stands d st) (source : d.First src) (destination : d.Argument dst)
    (there : (d.file (d.named env.fw.nodeOf src)).isSome)
    (line : st.szLine.units = (Order.cp src dst).line ++ 0 :: rest) :
    Obeys env st (d.follow env.fw.nodeOf (.cp src dst)) := by
  have runs : dispatch st.szLine.units = some .cp := by
    rw [line, Order.line, List.append_assoc, List.append_assoc]
    exact dispatch_begins (c := .cp) rfl _
  have behind : Cut Command.cp.name src dst rest (cutFrom cutFirst 3 st.szLine.units) := by
    refine ⟨?_, by decide, source.clean, destination.clean⟩
    rw [line]
    exact cutFirst_twoArguments source.clean source.one rfl
  obtain ⟨c, content⟩ := Option.isSome_iff_exists.1 there
  have held : d.content (d.named env.fw.nodeOf src) = c := by rw [Disk.content, content, Option.getD_some]
  rw [← h.file] at content there
  obtain ⟨enough, w', leaves, file⟩ := cp_file well (resolve_ne_nil d.szCurrentPath src)
    (resolve_ne_nil d.szCurrentPath dst) st.world content
  have followed : w'.file = (d.follow env.fw.nodeOf (.cp src dst)).file := by
    rw [file, World.content, h.file, ← held]
    rfl
  have ran : ∀ turns, st.exec env turns = st.copyFiles env.fw turns cutFirst .read id := by
    intro turns
    rw [ConsoleState.exec, runs]
  refine copyFiles_obeys well h (c := .cp) rfl runs (by decide) source.toArgument destination behind there
    (fun fits => ?_) (fun opens => ?_) ran leaves rfl followed
  · rw [CommandFits, runs]
    exact fits
  · rw [ConsoleState.CommandOpens, runs]
    exact opens

theorem mv_obeys (well : Healthy env.fw) (h : Stands d st) (source : d.First src) (destination : d.First dst)
    (there : (d.file (d.named env.fw.nodeOf src)).isSome)
    (line : st.szLine.units = (Order.mv src dst).line ++ 0 :: rest) :
    Obeys env st (d.follow env.fw.nodeOf (.mv src dst)) := by
  have runs : dispatch st.szLine.units = some .mv := by
    rw [line, Order.line, List.append_assoc, List.append_assoc]
    exact dispatch_begins (c := .mv) rfl _
  have behind : Cut Command.mv.name src dst rest (cutFrom cutAll 3 st.szLine.units) := by
    refine ⟨?_, by decide, source.clean, destination.clean⟩
    rw [line]
    exact cutAll_twoArguments source.clean source.one destination.one rfl
  obtain ⟨c, content⟩ := Option.isSome_iff_exists.1 there
  have held : d.content (d.named env.fw.nodeOf src) = c := by rw [Disk.content, content, Option.getD_some]
  rw [← h.file] at content there
  obtain ⟨enough, w', leaves, file⟩ := mv_file well (resolve_ne_nil d.szCurrentPath src)
    (resolve_ne_nil d.szCurrentPath dst) st.world content
  have followed : w'.file = (d.follow env.fw.nodeOf (.mv src dst)).file := by
    rw [file, World.content, h.file, ← held]
    rfl
  have ran : ∀ turns, st.exec env turns = st.copyFiles env.fw turns cutAll .readWrite (LFile.delete env.fw) := by
    intro turns
    rw [ConsoleState.exec, runs]
  refine copyFiles_obeys well h (c := .mv) rfl runs (by decide) source.toArgument destination.toArgument behind there
    (fun fits => ?_) (fun opens => ?_) ran leaves rfl followed
  · rw [CommandFits, runs]
    exact fits
  · rw [ConsoleState.CommandOpens, runs]
    exact opens

theorem addline_obeys (well : Healthy env.fw) (h : Stands d st) (first : d.First path) (clean : 0 ∉ text)
    (line : st.szLine.units = (Order.addline path text).line ++ 0 :: rest) :
    Obeys env st (d.follow env.fw.nodeOf (.addline path text)) := by
  have runs : dispatch st.szLine.units = some .addline := by
    rw [line, Order.line, List.append_assoc, List.append_assoc]
    exact dispatch_begins (c := .addline) rfl _
  have behind : Cut Command.addline.name path text rest (cutFrom cutFirst 8 st.szLine.units) := by
    refine ⟨?_, by decide, first.clean, clean⟩
    rw [line]
    exact cutFirst_twoArguments first.clean first.one rfl
  obtain ⟨located, fits⟩ := h.located first.toArgument (x := st.holding (cutFrom cutFirst 8 st.szLine.units)) rfl
    (behind.strAt_first (i := 8) rfl)
  obtain ⟨enough, w', leaves, file⟩ := addline_file well (resolve_ne_nil d.szCurrentPath path) text st.world
  have followed : w'.file = (d.follow env.fw.nodeOf (.addline path text)).file := by
    rw [file, World.content, h.file]
    rfl
  rw [← located, ← behind.strAt_second] at leaves
  have ran : ∀ turns, st.exec env turns = st.addText env.fw turns := by
    intro turns
    rw [ConsoleState.exec, runs]
  refine obeys_finish runs (by decide) ?_ ?_ ran leaves h.path followed
  · rw [CommandFits, runs]
    exact fits
  · have opens : LFile.Opens env.fw (resolve d.szCurrentPath path) true st.world :=
      ⟨resolve_ne_nil _ _, well.opens _, .inl rfl⟩
    rw [← located] at opens
    rw [ConsoleState.CommandOpens, runs]
    exact opens

end Two

/-- **The command of an order** that the disk allows. -/
theorem exec_obeys (well : Healthy env.fw) {o : Order} (h : Stands d st)
    (allowed : d.Allows env.fw.nodeOf env.entries o) (line : st.szLine.units = o.line ++ 0 :: rest) :
    Obeys env st (d.follow env.fw.nodeOf o) := by
  cases o with
  | ls => exact ls_obeys well h allowed.1 allowed.2 line
  | cd path => exact cd_obeys h allowed line
  | cat path => exact cat_obeys well h allowed.1 allowed.2 line
  | rm path => exact rm_obeys well h allowed line
  | mkdir path => exact mkdir_obeys well h allowed line
  | cp src dst => exact cp_obeys well h allowed.1 allowed.2.1 allowed.2.2 line
  | mv src dst => exact mv_obeys well h allowed.1 allowed.2.1 allowed.2.2 line
  | addline path text => exact addline_obeys well h allowed.1 allowed.2 line
  | other other => exact other_obeys h allowed.2 line

end Lavoro.Console
