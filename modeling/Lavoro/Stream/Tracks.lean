import Lavoro.Stream.Reader

/-!
# Readers over sources that agree

Two `ReadBuffer()`s that do the same as long as nothing goes wrong. `Tracks` says so of two calls:
`μ` numbers what has been asked of the source, and while all that a call asks is `ok`, the other
call is the same.
-/

namespace Lavoro.Reader

variable {σ α : Type} {μ : σ → Nat} {ok : Nat → Prop}

structure Tracks (μ : σ → Nat) (ok : Nat → Prop) (f f' : LReader × σ → α × LReader × σ) : Prop where
  grows : ∀ p, μ p.2 ≤ μ (f p).2.2
  same : ∀ p, (∀ i, μ p.2 ≤ i → i < μ (f p).2.2 → ok i) → f p = f' p

/-- `Current()` over two `Next()`s. -/
theorem currentStep_tracks {next next' : LReader × σ → Int × LReader × σ}
    (h : Tracks μ ok next next') : Tracks μ ok (currentStep next) (currentStep next') := by
  constructor
  · intro p
    unfold currentStep
    split
    · exact Nat.le_refl _
    · split
      · exact Nat.le_refl _
      · simp only
        split
        · exact h.grows p
        · exact Nat.le_refl _
  · intro p fine
    unfold currentStep at fine ⊢
    by_cases ended : atEnd p.1 = true
    · rw [if_pos ended, if_pos ended]
    · rw [if_neg ended] at fine
      rw [if_neg ended, if_neg ended]
      by_cases nul : (p.1.isText && p.1.buffer.get p.1.current == 0) = true
      · rw [if_pos nul, if_pos nul]
      · rw [if_neg nul] at fine
        rw [if_neg nul, if_neg nul]
        by_cases used : (p.1.current == p.1.size) = true
        · simp only [used, if_true] at fine
          simp only [used, if_true, h.same p fine]
        · simp only [used, Bool.false_eq_true, if_false]

/-- `Next()` over two `ReadBuffer()`s and two `Current()`s. -/
theorem nextStep_tracks {readBuffer readBuffer' : ReadBuffer σ}
    {current current' : LReader × σ → Int × LReader × σ} (refill : Tracks μ ok readBuffer readBuffer')
    (shown : Tracks μ ok current current') :
    Tracks μ ok (nextStep readBuffer current) (nextStep readBuffer' current') := by
  constructor
  · intro p
    have grown := refill.grows p
    unfold nextStep
    split
    · exact Nat.le_refl _
    · split
      · exact shown.grows ({ p.1 with current := p.1.current + 1 }, p.2)
      · match hr : readBuffer p with
        | (false, r, s) =>
          rw [hr] at grown
          exact grown
        | (true, r, s) =>
          rw [hr] at grown
          simp only
          split
          · exact grown
          · exact Nat.le_trans grown (shown.grows ({ r with current := 0 }, s))
  · intro p fine
    have grown := refill.grows p
    have agree := refill.same p
    unfold nextStep at fine ⊢
    by_cases ended : atEnd p.1 = true
    · rw [if_pos ended, if_pos ended]
    · rw [if_neg ended] at fine
      rw [if_neg ended, if_neg ended]
      by_cases inside : (p.1.current != p.1.size) = true
      · rw [if_pos inside] at fine
        rw [if_pos inside, if_pos inside]
        exact shown.same ({ p.1 with current := p.1.current + 1 }, p.2) fine
      · rw [if_neg inside] at fine
        rw [if_neg inside, if_neg inside]
        match hr : readBuffer p with
        | (false, r, s) =>
          rw [hr] at agree fine
          rw [← agree fine]
        | (true, r, s) =>
          rw [hr] at grown agree fine
          by_cases empty : (r.size == 0) = true
          · simp only [empty, if_true] at fine ⊢
            rw [← agree fine]
            simp only [empty, if_true]
          · simp only [empty, Bool.false_eq_true, if_false] at fine ⊢
            have later : μ s ≤ μ (current ({ r with current := 0 }, s)).2.2 :=
              shown.grows ({ r with current := 0 }, s)
            have stored := agree fun i low high => fine i low (Nat.lt_of_lt_of_le high later)
            rw [← stored]
            simp only [empty, Bool.false_eq_true, if_false]
            exact shown.same ({ r with current := 0 }, s) fun i low high =>
              fine i (Nat.le_trans grown low) high

variable {readBuffer readBuffer' : ReadBuffer σ}

/-- **`Current()`** asks no more than its `ReadBuffer()`. -/
theorem current_tracks (refill : Tracks μ ok readBuffer readBuffer') :
    Tracks μ ok (current readBuffer) (current readBuffer') := by
  have still : Tracks μ ok (fun p : LReader × σ => (readerEof, p)) fun p => (readerEof, p) :=
    ⟨fun p => Nat.le_refl _, fun p _ => rfl⟩
  exact currentStep_tracks (nextStep_tracks refill (currentStep_tracks still))

/-- **`Next()`** neither. -/
theorem next_tracks (refill : Tracks μ ok readBuffer readBuffer') :
    Tracks μ ok (next readBuffer) (next readBuffer') :=
  nextStep_tracks refill (current_tracks refill)

end Lavoro.Reader
