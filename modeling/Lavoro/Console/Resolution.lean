import Lavoro.Console.Arguments

/-!
# Where the commands find their paths

The code that makes a path of an argument is copied ten times in `ConsoleMode`. The copies find
their argument at different places of `szLine`, some of them behind a NUL that the command has
written into the line; what they make of it is `resolve` (`paths_agree`).
-/

namespace Lavoro.Console
open Lib

/-- `szPath` of a command whose argument is at unit `i`. -/
def pathAt (i : Nat) (szCurrentPath szLine : Str16) : Str16 := resolve szCurrentPath (strAt szLine i)

def cdPath : Str16 → Str16 → Str16 := pathAt 3
def catPath : Str16 → Str16 → Str16 := pathAt 4
def rmPath : Str16 → Str16 → Str16 := pathAt 3
def mkdirPath : Str16 → Str16 → Str16 := pathAt 6
def batchPath : Str16 → Str16 → Str16 := pathAt 6

/-- The path of `addline`. -/
def addlinePath (szCurrentPath szLine : Str16) : Str16 :=
  pathAt 8 szCurrentPath (cutFrom cutFirst 8 szLine)

/-- The text of `addline`: what follows the first NUL. -/
def addlineText (szLine : Str16) : Str16 :=
  let line := cutFrom cutFirst 8 szLine
  strAt line (strLen line + 1)

/-- A line with the argument `p` behind the command's name and one unit more, and what is left
of older lines. -/
def oneArgument (name : Str16) (sep : UInt16) (p rest : Str16) : Str16 := name ++ sep :: p ++ 0 :: rest

/-- A line with two arguments. -/
def twoArguments (name : Str16) (sep : UInt16) (p q rest : Str16) : Str16 :=
  name ++ sep :: p ++ space :: q ++ 0 :: rest

/-! ## Arguments -/

section Arguments

variable {name p q rest : Str16} {sep : UInt16}

/-- A string that stands behind others. -/
theorem strAt_front (front : Str16) (clean : 0 ∉ p) (rest : Str16) :
    strAt (front ++ p ++ 0 :: rest) front.length = p := by
  rw [strAt, List.append_assoc, List.drop_left]
  exact CString.text_terminated clean rest

theorem strAt_oneArgument (clean : 0 ∉ p) {i : Nat} (at' : i = name.length + 1) :
    strAt (oneArgument name sep p rest) i = p := by
  have found := strAt_front (name ++ [sep]) clean rest
  rw [List.length_append, List.length_singleton, ← at'] at found
  simpa [oneArgument] using found

/-- A loop that cuts at spaces, at the first of them. -/
theorem cut_word {cut behind : Str16 → Str16} (cons : ∀ c x, cut (c :: x) =
      if c = 0 then c :: x else if c = space then 0 :: behind x else c :: cut x)
    (clean : 0 ∉ p) (one : space ∉ p) (x : Str16) : cut (p ++ space :: x) = p ++ 0 :: behind x := by
  induction p with
  | nil => rw [List.nil_append, cons, if_neg (by decide), if_pos rfl, List.nil_append]
  | cons c p ih =>
    rw [List.mem_cons, not_or] at clean one
    rw [List.cons_append, cons, if_neg (Ne.symm clean.1), if_neg (Ne.symm one.1), ih clean.2 one.2,
      List.cons_append]

/-- What a cut makes of the line: a NUL stands for the first space. -/
theorem cutFrom_twoArguments {cut behind : Str16 → Str16}
    (word : ∀ x, cut (p ++ space :: x) = p ++ 0 :: behind x) {i : Nat} (at' : i = name.length + 1)
    (kept : behind (q ++ 0 :: rest) = q ++ 0 :: rest) :
    cutFrom cut i (twoArguments name sep p q rest) = name ++ sep :: p ++ 0 :: (q ++ 0 :: rest) := by
  have split : twoArguments name sep p q rest = (name ++ [sep]) ++ (p ++ space :: (q ++ 0 :: rest)) := by
    simp [twoArguments]
  have length : i = (name ++ [sep]).length := by rw [List.length_append, at']; rfl
  rw [cutFrom, split, length, List.take_left, List.drop_left, word, kept]
  simp

theorem cutFirst_twoArguments (clean : 0 ∉ p) (one : space ∉ p) {i : Nat} (at' : i = name.length + 1) :
    cutFrom cutFirst i (twoArguments name sep p q rest) = name ++ sep :: p ++ 0 :: (q ++ 0 :: rest) := by
  have word : ∀ x, cutFirst (p ++ space :: x) = p ++ 0 :: id x := cut_word (fun _ _ => rfl) clean one
  exact cutFrom_twoArguments word at' rfl

theorem cutAll_twoArguments (clean : 0 ∉ p) (one : space ∉ p) (oneMore : space ∉ q) {i : Nat}
    (at' : i = name.length + 1) :
    cutFrom cutAll i (twoArguments name sep p q rest) = name ++ sep :: p ++ 0 :: (q ++ 0 :: rest) := by
  apply cutFrom_twoArguments (cut_word (fun _ _ => rfl) clean one) at'
  rw [cutAll_cuts.append, cutAll_cuts.uncut q oneMore]

/-- A single argument is not cut. -/
theorem cutFrom_oneArgument {cut : Str16 → Str16} (cuts : Cuts cut) (one : space ∉ p) {i : Nat}
    (at' : i = name.length + 1) :
    cutFrom cut i (oneArgument name sep p rest) = oneArgument name sep p rest := by
  have split : name ++ sep :: p = (name ++ [sep]) ++ p := by simp
  have length : i = (name ++ [sep]).length := by rw [List.length_append, at']; rfl
  have inside : i ≤ (name ++ sep :: p).length := by
    rw [split, at']
    simp
  have uncut : space ∉ (name ++ sep :: p).drop i := by rwa [split, length, List.drop_left]
  rw [oneArgument, cutFrom_append cuts inside, cutFrom_uncut cuts uncut]

/-- The first argument of a line that has been cut. -/
theorem strAt_first (clean : 0 ∉ p) {i : Nat} (at' : i = name.length + 1) (behind : Str16) :
    strAt (name ++ sep :: p ++ 0 :: behind) i = p :=
  strAt_oneArgument clean at'

/-- The second one. -/
theorem strAt_second (named : 0 ∉ name) (set : sep ≠ 0) (clean : 0 ∉ p) (cleanMore : 0 ∉ q) :
    strAt (name ++ sep :: p ++ 0 :: (q ++ 0 :: rest))
      (strLen (name ++ sep :: p ++ 0 :: (q ++ 0 :: rest)) + 1) = q := by
  have front : 0 ∉ name ++ sep :: p := by
    rw [List.mem_append, List.mem_cons, not_or, not_or]
    exact ⟨named, Ne.symm set, clean⟩
  have length : strLen (name ++ sep :: p ++ 0 :: (q ++ 0 :: rest)) = (name ++ sep :: p).length := by
    rw [strLen, strAt_line front]
  rw [length, strAt_behind, strAt_line cleanMore]

end Arguments

/-! ## The ten copies -/

/-- The commands that take the rest of the line for their argument. -/
structure OnesAgree (szCurrentPath p : Str16) (sep : UInt16) (rest : Str16) : Prop where
  cd : cdPath szCurrentPath (oneArgument Command.cd.name sep p rest) = resolve szCurrentPath p
  cat : catPath szCurrentPath (oneArgument Command.cat.name sep p rest) = resolve szCurrentPath p
  rm : rmPath szCurrentPath (oneArgument Command.rm.name sep p rest) = resolve szCurrentPath p
  mkdir : mkdirPath szCurrentPath (oneArgument Command.mkdir.name sep p rest) = resolve szCurrentPath p
  batch : batchPath szCurrentPath (oneArgument Command.batch.name sep p rest) = resolve szCurrentPath p

/-- The commands that cut the line at spaces, alone with their first argument and with both. -/
structure TwosAgree (szCurrentPath p q : Str16) (sep : UInt16) (rest : Str16) : Prop where
  cpAlone : cpSource szCurrentPath (oneArgument Command.cp.name sep p rest) = resolve szCurrentPath p
  mvAlone : mvSource szCurrentPath (oneArgument Command.mv.name sep p rest) = resolve szCurrentPath p
  addlineAlone : addlinePath szCurrentPath (oneArgument Command.addline.name sep p rest) = resolve szCurrentPath p
  cpFirst : cpSource szCurrentPath (twoArguments Command.cp.name sep p q rest) = resolve szCurrentPath p
  cpSecond : cpDestination szCurrentPath (twoArguments Command.cp.name sep p q rest) = resolve szCurrentPath q
  mvFirst : mvSource szCurrentPath (twoArguments Command.mv.name sep p q rest) = resolve szCurrentPath p
  mvSecond : mvDestination szCurrentPath (twoArguments Command.mv.name sep p q rest) = resolve szCurrentPath q
  addlineFirst : addlinePath szCurrentPath (twoArguments Command.addline.name sep p q rest) = resolve szCurrentPath p

/-- **The ten copies agree**: on every argument on the line they make the path of `resolve`. -/
structure PathsAgree (szCurrentPath : Str16) : Prop where
  one : ∀ p sep rest, 0 ∉ p → OnesAgree szCurrentPath p sep rest
  two : ∀ p q sep rest, 0 ∉ p → 0 ∉ q → space ∉ p → space ∉ q → sep ≠ 0 →
    TwosAgree szCurrentPath p q sep rest

theorem paths_agree (szCurrentPath : Str16) : PathsAgree szCurrentPath := by
  constructor
  · intro p sep rest clean
    exact {
      cd := congrArg (resolve szCurrentPath) (strAt_oneArgument clean rfl)
      cat := congrArg (resolve szCurrentPath) (strAt_oneArgument clean rfl)
      rm := congrArg (resolve szCurrentPath) (strAt_oneArgument clean rfl)
      mkdir := congrArg (resolve szCurrentPath) (strAt_oneArgument clean rfl)
      batch := congrArg (resolve szCurrentPath) (strAt_oneArgument clean rfl) }
  · intro p q sep rest clean cleanMore one oneMore set
    have alone : ∀ (cut : Str16 → Str16) (name : Str16) (i : Nat), Cuts cut → i = name.length + 1 →
        resolve szCurrentPath (strAt (cutFrom cut i (oneArgument name sep p rest)) i) = resolve szCurrentPath p := by
      intro cut name i cuts at'
      rw [cutFrom_oneArgument cuts one at', strAt_oneArgument clean at']
    have first : ∀ (name : Str16) (i : Nat), i = name.length + 1 →
        resolve szCurrentPath (strAt (name ++ sep :: p ++ 0 :: (q ++ 0 :: rest)) i) = resolve szCurrentPath p :=
      fun name i at' => congrArg (resolve szCurrentPath) (strAt_first clean at' _)
    have second : ∀ name : Str16, 0 ∉ name →
        resolve szCurrentPath (strAt (name ++ sep :: p ++ 0 :: (q ++ 0 :: rest))
          (strLen (name ++ sep :: p ++ 0 :: (q ++ 0 :: rest)) + 1)) = resolve szCurrentPath q :=
      fun name named => congrArg (resolve szCurrentPath) (strAt_second named set clean cleanMore)
    refine ⟨alone _ _ 3 cutFirst_cuts rfl, alone _ _ 3 cutAll_cuts rfl, alone _ _ 8 cutFirst_cuts rfl,
      ?_, ?_, ?_, ?_, ?_⟩
    · rw [cpSource, cutFirst_twoArguments clean one (i := 3) rfl]
      exact first _ _ rfl
    · rw [cpDestination, cutFirst_twoArguments clean one (i := 3) rfl]
      exact second _ (by decide)
    · rw [mvSource, cutAll_twoArguments clean one oneMore (i := 3) rfl]
      exact first _ _ rfl
    · rw [mvDestination, cutAll_twoArguments clean one oneMore (i := 3) rfl]
      exact second _ (by decide)
    · rw [addlinePath, pathAt, cutFirst_twoArguments clean one (i := 8) rfl]
      exact first _ _ rfl

/-- The text of `addline` may have spaces. -/
theorem addlineText_eq {sep : UInt16} {p q rest : Str16} (clean : 0 ∉ p) (one : space ∉ p) (cleanMore : 0 ∉ q)
    (set : sep ≠ 0) : addlineText (twoArguments Command.addline.name sep p q rest) = q := by
  rw [addlineText, cutFirst_twoArguments clean one (i := 8) rfl]
  exact strAt_second (by decide) set clean cleanMore

theorem addlinePath_eq {sep : UInt16} {p q rest : Str16} (szCurrentPath : Str16) (clean : 0 ∉ p)
    (one : space ∉ p) :
    addlinePath szCurrentPath (twoArguments Command.addline.name sep p q rest) = resolve szCurrentPath p := by
  rw [addlinePath, pathAt, cutFirst_twoArguments clean one (i := 8) rfl]
  exact congrArg (resolve szCurrentPath) (strAt_first clean rfl _)

end Lavoro.Console
