import Lavoro.Lib.CString

/-!
# Strings printed page by page

Units are collected on a page of `room` units. A full page is printed as a string, that is up to its
first `nul`, and the next page begins; what is left at the end is printed as well. `paged` is all
that is printed, from a page that already holds some units. Without a `nul` it is all the units
(`paged_clean`), wherever the pages break.
-/

namespace Lavoro.Lib.CString

variable {α : Type} [DecidableEq α] {nul : α} {room : Nat}

/-- What is printed of the units on the page and of those still to come. -/
def paged (nul : α) (room : Nat) : List α → List α → List α
  | page, [] => text nul page
  | page, u :: more =>
    if page.length + 1 = room then text nul (page ++ [u]) ++ paged nul room [] more
    else paged nul room (page ++ [u]) more

/-- Units without a `nul` that have been collected are printed first. -/
theorem paged_append {front : List α} (clean : nul ∉ front) (more page : List α)
    (set : nul ∉ page) (short : page.length < room) :
    ∃ before page', nul ∉ page' ∧ page'.length < room ∧ before ++ page' = page ++ front ∧
      paged nul room page (front ++ more) = before ++ paged nul room page' more := by
  induction front generalizing page with
  | nil => exact ⟨[], page, set, short, by simp, by simp⟩
  | cons u front ih =>
    have head : nul ≠ u := fun same => clean (same ▸ List.mem_cons_self)
    have tail : nul ∉ front := fun later => clean (List.mem_cons_of_mem u later)
    have set' : nul ∉ page ++ [u] := by
      simp only [List.mem_append, List.mem_singleton, not_or]
      exact ⟨set, head⟩
    rw [List.cons_append, paged]
    split
    · obtain ⟨before, page', clean', short', same, printed⟩ :=
        ih tail [] List.not_mem_nil (Nat.lt_of_le_of_lt (Nat.zero_le _) short)
      refine ⟨page ++ [u] ++ before, page', clean', short', ?_, ?_⟩
      · rw [List.append_assoc, same, List.nil_append, List.append_assoc, List.singleton_append]
      · rw [printed, text_of_clean set', List.append_assoc, List.append_assoc, List.append_assoc]
    · rename_i notFull
      obtain ⟨before, page', clean', short', same, printed⟩ :=
        ih tail _ set' (by rw [List.length_append, List.length_singleton]; omega)
      exact ⟨before, page', clean', short', by simpa using same, printed⟩

/-- **Without a `nul` everything is printed.** -/
theorem paged_clean {l : List α} (clean : nul ∉ l) (some : 0 < room) : paged nul room [] l = l := by
  obtain ⟨before, page, set, -, same, printed⟩ :=
    paged_append clean [] [] List.not_mem_nil some
  rw [List.append_nil] at printed
  rw [printed, paged, text_of_clean set, same, List.nil_append]

/-- The string on a page is printed first, whatever comes behind it. -/
theorem prefix_paged (more page : List α) : text nul page <+: paged nul room page more := by
  induction more generalizing page with
  | nil => exact List.prefix_rfl
  | cons u more ih =>
    have front : text nul page <+: text nul (page ++ [u]) := by
      unfold text
      rw [List.takeWhile_append]
      split
      · rename_i whole
        have all := (List.takeWhile_prefix (· ≠ nul) (l := page)).eq_of_length whole
        rw [all]
        exact List.prefix_append page _
      · exact List.prefix_rfl
    rw [paged]
    split
    · exact front.trans (List.prefix_append _ _)
    · exact front.trans (ih (page ++ [u]))

/-- **A unit is printed behind units without a `nul`** exactly if it is none itself. -/
theorem paged_behind (more : List α) {l : List α} {u : α} (clean : nul ∉ l) (some : 0 < room)
    (byte : u ≠ nul) : paged nul room [] (l ++ u :: more) ≠ l := by
  obtain ⟨before, page, set, short, same, printed⟩ :=
    paged_append clean (u :: more) [] List.not_mem_nil some
  rw [List.nil_append] at same
  have set' : nul ∉ page ++ [u] := by
    simp only [List.mem_append, List.mem_singleton, not_or]
    exact ⟨set, byte.symm⟩
  have shown : page ++ [u] <+: paged nul room page (u :: more) := by
    rw [paged]
    split
    · rw [text_of_clean set']
      exact List.prefix_append _ _
    · have first : text nul (page ++ [u]) <+: paged nul room (page ++ [u]) more := prefix_paged more _
      rwa [text_of_clean set'] at first
  intro nothing
  rw [printed, ← same, List.append_cancel_left_eq] at nothing
  have length := shown.length_le
  rw [nothing, List.length_append, List.length_singleton] at length
  omega

/-- A page that begins with a `nul` prints nothing. -/
theorem paged_nul {more page : List α} (starts : page.head? = some nul) (short : page.length + more.length < room) :
    paged nul room page more = [] := by
  induction more generalizing page with
  | nil =>
    cases page with
    | nil => cases starts
    | cons a page =>
      cases starts
      simp [paged, text]
  | cons u more ih =>
    rw [List.length_cons] at short
    rw [paged, if_neg (by omega)]
    apply ih
    · rw [List.head?_append, starts]
      rfl
    · rw [List.length_append, List.length_singleton]
      omega

end Lavoro.Lib.CString
