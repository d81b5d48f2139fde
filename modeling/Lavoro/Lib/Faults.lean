import Mathlib.Data.List.Basic

/-!
# Computations with faults

A computation may fail with several faults, of which some are bad. `Spares bad` says that it fails with none of
these. A loop over a list spares them if no turn fails badly in front of the first one that ends the loop with
another fault (`spares_foldlM_iff`). With only one fault, and turns of which it is known from their elements
whether they fail, a loop fails when some turn does (`FailsWhen.foldlM`), and so do loops in loops.
-/

namespace Lavoro.Lib

variable {ε α β σ : Type} {bad : ε → Prop}

/-- No bad fault occurs. -/
def Spares (bad : ε → Prop) (x : Except ε α) : Prop := ∀ e, bad e → x ≠ .error e

theorem spares_ok (a : α) : Spares bad (.ok a : Except ε α) := fun _ _ => nofun

theorem spares_error_iff {e : ε} : Spares bad (.error e : Except ε α) ↔ ¬ bad e := by
  constructor
  · exact fun spares own => spares e own rfl
  · rintro good e' own same
    cases same
    exact good own

/-- **Two computations** one behind the other. -/
theorem spares_bind_iff {x : Except ε α} {f : α → Except ε β} :
    Spares bad (x >>= f) ↔ Spares bad x ∧ ∀ a, x = .ok a → Spares bad (f a) := by
  cases x with
  | error e =>
    show Spares bad (.error e : Except ε β) ↔ _
    rw [spares_error_iff, spares_error_iff]
    exact ⟨fun good => ⟨good, nofun⟩, And.left⟩
  | ok a =>
    show Spares bad (f a) ↔ _
    refine ⟨fun later => ⟨spares_ok a, ?_⟩, fun both => both.2 a rfl⟩
    rintro a' same
    cases same
    exact later

/-- A computation that fails with `e` in one case, and otherwise not at all. -/
def FailsWhen (P : Prop) (e : ε) (x : Except ε α) : Prop := P ∧ x = .error e ∨ ¬ P ∧ ∃ a, x = .ok a

namespace FailsWhen

variable {P Q : Prop} {e : ε} {x : Except ε α}

theorem error (h : FailsWhen P e x) (p : P) : x = .error e := by
  rcases h with ⟨-, fault⟩ | ⟨not, -⟩
  · exact fault
  · exact absurd p not

theorem ok (h : FailsWhen P e x) (not : ¬ P) : ∃ a, x = .ok a := by
  rcases h with ⟨p, -⟩ | ⟨-, done⟩
  · exact absurd p not
  · exact done

theorem congr (same : P ↔ Q) (h : FailsWhen P e x) : FailsWhen Q e x := by
  rcases h with ⟨p, fault⟩ | ⟨not, done⟩
  · exact .inl ⟨same.1 p, fault⟩
  · exact .inr ⟨mt same.2 not, done⟩

/-- What comes behind it does not fail. -/
theorem bind {f : α → Except ε β} (h : FailsWhen P e x) (total : ∀ a, ∃ b, f a = .ok b) : FailsWhen P e (x >>= f) := by
  rcases h with ⟨p, rfl⟩ | ⟨not, a, rfl⟩
  · exact .inl ⟨p, rfl⟩
  · exact .inr ⟨not, total a⟩

/-- **A loop** fails when some turn does. -/
theorem foldlM {P : α → Prop} {f : σ → α → Except ε σ} (turn : ∀ s a, FailsWhen (P a) e (f s a)) (l : List α) (s : σ) :
    FailsWhen (∃ a ∈ l, P a) e (l.foldlM f s) := by
  induction l generalizing s with
  | nil => exact .inr ⟨fun ⟨_, mem, _⟩ => List.not_mem_nil mem, s, rfl⟩
  | cons b l ih =>
    rw [List.foldlM_cons]
    apply FailsWhen.congr (List.exists_mem_cons_iff P b l).symm
    rcases turn s b with ⟨own, fault⟩ | ⟨fine, t, done⟩
    · rw [fault]
      exact .inl ⟨.inl own, rfl⟩
    · rw [done]
      exact (ih t).congr (or_iff_right fine).symm

end FailsWhen

namespace Loop

variable {f : σ → α → Except ε σ} {l : List α} {s t : σ}

/-- What a turn does is known from its element: it ends the loop with a fault that is not bad, or with
one that is, or it goes on. -/
structure Judged (bad : ε → Prop) (f : σ → α → Except ε σ) (ends fails : α → Prop) : Prop where
  ending : ∀ s a, ends a → ∃ e, ¬ bad e ∧ f s a = .error e
  failing : ∀ s a, ¬ ends a → fails a → ∃ e, bad e ∧ f s a = .error e
  going : ∀ s a, ¬ ends a → ¬ fails a → ∃ t, f s a = .ok t

variable {ends fails : α → Prop}

theorem Judged.of_cases (turn : ∀ s a, ends a ∧ (∃ e, ¬ bad e ∧ f s a = .error e) ∨
      ¬ ends a ∧ fails a ∧ (∃ e, bad e ∧ f s a = .error e) ∨ ¬ ends a ∧ ¬ fails a ∧ ∃ t, f s a = .ok t) :
    Judged bad f ends fails where
  ending s a last := by
    rcases turn s a with ⟨-, fault⟩ | ⟨goes, -⟩ | ⟨goes, -⟩
    · exact fault
    · exact absurd last goes
    · exact absurd last goes
  failing s a goes own := by
    rcases turn s a with ⟨last, -⟩ | ⟨-, -, fault⟩ | ⟨-, fine, -⟩
    · exact absurd last goes
    · exact fault
    · exact absurd own fine
  going s a goes fine := by
    rcases turn s a with ⟨last, -⟩ | ⟨-, own, -⟩ | ⟨-, -, done⟩
    · exact absurd last goes
    · exact absurd own fine
    · exact done

/-- **The rule for a loop**: no turn fails badly in front of the one that ends it. -/
theorem spares_foldlM_iff [DecidablePred ends] (judged : Judged bad f ends fails) (l : List α) (s : σ) :
    Spares bad (l.foldlM f s) ↔ ∀ a ∈ l.takeWhile (¬ ends ·), ¬ fails a := by
  induction l generalizing s with
  | nil => exact ⟨fun _ => nofun, fun _ => spares_ok s⟩
  | cons b l ih =>
    rw [List.foldlM_cons]
    by_cases last : ends b
    · obtain ⟨e, good, turn⟩ := judged.ending s b last
      rw [turn, List.takeWhile_cons_of_neg (by simpa using last)]
      exact ⟨fun _ => nofun, fun _ => spares_error_iff.2 good⟩
    · rw [List.takeWhile_cons_of_pos (by simpa using last), List.forall_mem_cons]
      by_cases own : fails b
      · obtain ⟨e, own', turn⟩ := judged.failing s b last own
        rw [turn]
        exact ⟨fun spares => absurd own' (spares_error_iff.1 spares), fun all => absurd own all.1⟩
      · obtain ⟨t, turn⟩ := judged.going s b last own
        rw [turn]
        exact (ih t).trans ⟨fun later => ⟨own, later⟩, And.right⟩

end Loop

end Lavoro.Lib
