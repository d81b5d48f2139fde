/-!
# Trying one choice after the other

`anyOf` tries the choices of a list until one of them succeeds. A try works on a state it shares
with the others, so that it has to take back what it did when it fails; `anyOf_iff` is the rule
for a try that does.
-/

namespace Lavoro.Lib

variable {σ ι : Type}

/-- `for(i : choices) if(try(i)) return 1; return 0;` -/
def anyOf (attempt : ι → σ → Bool × σ) : List ι → σ → Bool × σ
  | [], s => (false, s)
  | i :: choices, s =>
    if (attempt i s).1 then attempt i s else anyOf attempt choices (attempt i s).2

/-- **Some choice succeeds**, or everything a failed try keeps is kept. -/
theorem anyOf_iff {attempt : ι → σ → Bool × σ} {Keeps : σ → Prop} {Succeeds : ι → Prop}
    {choices : List ι}
    (tried : ∀ i ∈ choices, ∀ s, Keeps s →
      ((attempt i s).1 = true ↔ Succeeds i) ∧ ((attempt i s).1 = false → Keeps (attempt i s).2))
    {s : σ} (hs : Keeps s) :
    ((anyOf attempt choices s).1 = true ↔ ∃ i ∈ choices, Succeeds i) ∧
      ((anyOf attempt choices s).1 = false → Keeps (anyOf attempt choices s).2) := by
  induction choices generalizing s with
  | nil => simp [anyOf, hs]
  | cons i choices ih =>
    obtain ⟨succeeds, kept⟩ := tried i List.mem_cons_self s hs
    unfold anyOf
    by_cases won : (attempt i s).1 = true
    · rw [if_pos won]
      refine ⟨⟨fun _ => ⟨i, List.mem_cons_self, succeeds.1 won⟩, fun _ => won⟩, ?_⟩
      intro lost
      rw [won] at lost
      cases lost
    · rw [if_neg won]
      have later := ih (fun j mem => tried j (List.mem_cons_of_mem i mem))
        (kept (Bool.eq_false_iff.2 won))
      refine ⟨later.1.trans ?_, later.2⟩
      constructor
      · rintro ⟨j, mem, hj⟩
        exact ⟨j, List.mem_cons_of_mem i mem, hj⟩
      · rintro ⟨j, mem, hj⟩
        rcases List.mem_cons.1 mem with rfl | mem
        · exact absurd (succeeds.2 hj) won
        · exact ⟨j, mem, hj⟩

end Lavoro.Lib
