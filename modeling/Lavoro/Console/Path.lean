import Lavoro.Efi.Base

/-!
# Arguments and paths of the console's commands

A command works on the units of `szLine`, in which the typed line ends at the first NUL
and what an earlier line left may follow. Commands with two arguments write NULs over
spaces, so that each argument is a string of its own, and resolve a path against
`szCurrentPath`. Strings are unbounded here.
-/

namespace Lavoro.Console

def backslash : UInt16 := 92
def space : UInt16 := 32

/-- The string that starts at unit `i`. -/
def strAt (mem : Str16) (i : Nat) : Str16 := (mem.drop i).takeWhile (· ≠ 0)

/-- `StrLen`. -/
def strLen (mem : Str16) : Nat := (strAt mem 0).length

/-- `for (; *p; ++p) if (*p == L' ') { *p = L'\0'; break; }`, as in `cp` and `addline`. -/
def cutFirst : Str16 → Str16
  | [] => []
  | c :: rest => if c = 0 then c :: rest else if c = space then 0 :: rest else c :: cutFirst rest

/-- The same loop without the `break`, as in `mv`. -/
def cutAll : Str16 → Str16
  | [] => []
  | c :: rest => if c = 0 then c :: rest else if c = space then 0 :: cutAll rest else c :: cutAll rest

/-- `szLine` after a loop `cut` that starts at unit `i`. -/
def cutFrom (cut : Str16 → Str16) (i : Nat) (mem : Str16) : Str16 := mem.take i ++ cut (mem.drop i)

/-- The path in `szPath` for the argument `szCatPath`. -/
def resolve (szCurrentPath szCatPath : Str16) : Str16 :=
  if szCatPath.head? ≠ some backslash then
    szCurrentPath ++ (if szCurrentPath.getLast? ≠ some backslash then [backslash] else []) ++ szCatPath
  else szCatPath

theorem resolve_ne_nil (szCurrentPath szCatPath : Str16) : resolve szCurrentPath szCatPath ≠ [] := by
  unfold resolve
  split
  · intro empty
    obtain ⟨none, -⟩ := List.append_eq_nil_iff.1 empty
    obtain ⟨rfl, bar⟩ := List.append_eq_nil_iff.1 none
    simp at bar
  · rename_i absolute
    rintro rfl
    simp at absolute

/-- From an absolute path every argument leads to an absolute one. -/
theorem head?_resolve {szCurrentPath : Str16} (absolute : szCurrentPath.head? = some backslash)
    (szCatPath : Str16) : (resolve szCurrentPath szCatPath).head? = some backslash := by
  unfold resolve
  split
  · rw [List.append_assoc, List.head?_append, absolute]
    rfl
  · exact Decidable.not_not.1 ‹_›

end Lavoro.Console
