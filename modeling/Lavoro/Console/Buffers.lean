import Lavoro.Console.Path
import Lavoro.File.Directory
import Lavoro.Lib.CString

/-!
# Paths in their buffers

`szPath` and `szCurrentPath` are arrays of `MAX_PATH` units. The commands put a path together in
`szPath`, from the current path, a backslash where it does not end in one, and the argument;
`locate_sound` says when that stays inside the array, and that the path is then the one of
`resolve`.
-/

namespace Lavoro.Console
open Lib

abbrev PathBuffer := CString.Field (0 : UInt16) maxPath

/-- An array of NULs. -/
def blank : PathBuffer := ⟨List.replicate 256 0, List.length_replicate, false⟩

/-- `if (szCurrentPath[StrLen(szCurrentPath) - 1] != '\\') StrCat (b, L"\\")`. -/
def separate (b : PathBuffer) (szCurrentPath : Str16) : PathBuffer :=
  if szCurrentPath.getLast? ≠ some backslash then b.cat [backslash] else b

/-- `szPath` for the argument `szCatPath`. -/
def locate (szPath szCurrentPath : PathBuffer) (szCatPath : Str16) : PathBuffer :=
  if szCatPath.head? ≠ some backslash then
    (separate (szPath.copy szCurrentPath.units) szCurrentPath.str).cat szCatPath
  else szPath.copy szCatPath

/-- What is appended to the current path in front of an argument. -/
def bar (szCurrentPath : Str16) : Str16 := if szCurrentPath.getLast? ≠ some backslash then [backslash] else []

/-- The path of an argument has room in a buffer. -/
def Fits (szCurrentPath szCatPath : Str16) : Prop := (resolve szCurrentPath szCatPath).length < maxPath

instance (szCurrentPath szCatPath : Str16) : Decidable (Fits szCurrentPath szCatPath) :=
  inferInstanceAs (Decidable (_ < _))

section Buffers

variable {b szPath szCurrentPath : PathBuffer} {cur name szCatPath : Str16}

theorem resolve_relative (relative : szCatPath.head? ≠ some backslash) :
    resolve cur szCatPath = cur ++ bar cur ++ szCatPath := if_pos relative

theorem resolve_absolute (absolute : szCatPath.head? = some backslash) : resolve cur szCatPath = szCatPath :=
  if_neg (not_not_intro absolute)

/-- The separator behind a path that the buffer holds. -/
theorem separate_sound (held : b.str = cur) (ends : b.Terminated) (fits : (cur ++ bar cur).length < maxPath) :
    (separate b cur).str = cur ++ bar cur ∧ (separate b cur).Terminated ∧
      ((separate b cur).overflow = false ↔ b.overflow = false) := by
  unfold separate bar at *
  split <;> rename_i last
  · have room : b.str.length + (CString.text 0 [backslash]).length < maxPath := by
      rw [if_pos last, List.length_append] at fits
      rwa [held]
    obtain ⟨str, terminated⟩ := CString.Field.cat_sound room
    rw [held] at str
    exact ⟨str, terminated, by simp [CString.Field.cat_overflow, room]⟩
  · exact ⟨by rw [held, List.append_nil], ends, Iff.rfl⟩

theorem separate_overflow (held : b.str = cur) (ends : b.Terminated) :
    (separate b cur).overflow = false ↔ b.overflow = false ∧ (cur ++ bar cur).length < maxPath := by
  have room := ends.length_lt
  rw [held] at room
  unfold separate bar
  split
  · rw [CString.Field.cat_overflow, held, List.length_append]
    rfl
  · simp [room]

/-- **A path and a name**, with the separator between them. -/
theorem join_sound (held : b.str = cur) (ends : b.Terminated)
    (fits : (cur ++ bar cur ++ CString.text 0 name).length < maxPath) :
    ((separate b cur).cat name).str = cur ++ bar cur ++ CString.text 0 name ∧
      ((separate b cur).cat name).Terminated := by
  rw [List.length_append] at fits
  obtain ⟨str, -, -⟩ := separate_sound held ends (by omega)
  have room : (separate b cur).str.length + (CString.text 0 name).length < maxPath := by rwa [str]
  obtain ⟨joined, terminated⟩ := CString.Field.cat_sound room
  rw [str] at joined
  exact ⟨joined, terminated⟩

theorem join_overflow (held : b.str = cur) (ends : b.Terminated) :
    ((separate b cur).cat name).overflow = false ↔
      b.overflow = false ∧ (cur ++ bar cur ++ CString.text 0 name).length < maxPath := by
  have length : (cur ++ bar cur ++ CString.text 0 name).length =
      (cur ++ bar cur).length + (CString.text 0 name).length := List.length_append
  rw [CString.Field.cat_overflow, separate_overflow held ends, length]
  constructor
  · rintro ⟨⟨fine, room⟩, fits⟩
    rw [(separate_sound held ends room).1] at fits
    exact ⟨fine, fits⟩
  · rintro ⟨fine, fits⟩
    have room : (cur ++ bar cur).length < maxPath := by omega
    rw [(separate_sound held ends room).1]
    exact ⟨⟨fine, room⟩, fits⟩

/-- **The path of an argument that has room** is the one of `resolve`. -/
theorem locate_sound (clean : 0 ∉ szCatPath) (ends : szCurrentPath.Terminated)
    (fits : Fits szCurrentPath.str szCatPath) :
    (locate szPath szCurrentPath szCatPath).str = resolve szCurrentPath.str szCatPath ∧
      (locate szPath szCurrentPath szCatPath).Terminated := by
  have named := CString.text_of_clean clean
  unfold locate Fits at *
  split <;> rename_i kind
  · rw [resolve_relative kind] at fits ⊢
    have room : (CString.text 0 szCurrentPath.units).length < maxPath := ends.length_lt
    obtain ⟨str, terminated⟩ := CString.Field.copy_sound (b := szPath) room
    obtain ⟨joined, ends'⟩ := join_sound str terminated (by rw [named]; exact fits)
    rw [named] at joined
    exact ⟨joined, ends'⟩
  · have absolute := Decidable.not_not.1 kind
    rw [resolve_absolute absolute] at fits ⊢
    have room : (CString.text 0 szCatPath).length < maxPath := by rwa [named]
    obtain ⟨str, terminated⟩ := CString.Field.copy_sound (b := szPath) room
    exact ⟨str.trans named, terminated⟩

/-- **An argument overflows the buffer** exactly if its path does not fit. -/
theorem locate_overflow (clean : 0 ∉ szCatPath) (ends : szCurrentPath.Terminated) :
    (locate szPath szCurrentPath szCatPath).overflow = false ↔
      szPath.overflow = false ∧ Fits szCurrentPath.str szCatPath := by
  unfold locate Fits
  split <;> rename_i kind
  · have room : (CString.text 0 szCurrentPath.units).length < maxPath := ends.length_lt
    obtain ⟨str, terminated⟩ := CString.Field.copy_sound (b := szPath) room
    have held : (szPath.copy szCurrentPath.units).str = szCurrentPath.str := str
    rw [resolve_relative kind, join_overflow held terminated, CString.Field.copy_overflow, CString.text_of_clean clean]
    simp [room]
  · rw [resolve_absolute (Decidable.not_not.1 kind), CString.Field.copy_overflow, CString.text_of_clean clean]

end Buffers

end Lavoro.Console
