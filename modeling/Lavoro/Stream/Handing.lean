import Lavoro.Stream.History

/-!
# A writer and a sink that may refuse

What a sink receives of the payloads that it is handed is said by a relation between sequences
(`Cuts`): all of it, or what is left where payloads have been dropped. The relation then holds
between what it has received and the bytes written, at any moment and from any state of the writer.
-/

namespace Lavoro.Writer

variable {σ : Type} {send : List UInt8 → σ → σ} {received : σ → List UInt8} {Good : σ → Prop}
variable {rel : List UInt8 → List UInt8 → Prop}

/-- A relation between what is kept of a sequence and the sequence, part by part. -/
structure Cuts (rel : List UInt8 → List UInt8 → Prop) : Prop where
  whole : ∀ bytes, rel bytes bytes
  append : ∀ {a a' b b'}, rel a a' → rel b b' → rel (a ++ b) (a' ++ b')
  trans : ∀ {a b c}, rel a b → rel b c → rel a c

theorem cuts_eq : Cuts Eq where
  whole _ := rfl
  append h h' := congrArg₂ (· ++ ·) h h'
  trans := Eq.trans

theorem cuts_sublist : Cuts List.Sublist where
  whole := List.Sublist.refl
  append := List.Sublist.append
  trans := List.Sublist.trans

/-- Of a payload the sink receives what the relation allows. -/
def Receives (send : List UInt8 → σ → σ) (received : σ → List UInt8) (Good : σ → Prop)
    (rel : List UInt8 → List UInt8 → Prop) : Prop :=
  ∀ payload s, Good s → Good (send payload s) ∧ ∃ kept, received (send payload s) = received s ++ kept ∧ rel kept payload

/-- Between two moments the sink has received `kept`, which with what is still in the buffer is what
the buffer held and what has been `written` since. -/
structure Handed (received : σ → List UInt8) (Good : σ → Prop) (rel : List UInt8 → List UInt8 → Prop)
    (written : List UInt8) (p q : LWriter × σ) : Prop where
  good : Good q.2
  handed : ∃ kept, received q.2 = received p.2 ++ kept ∧ rel (kept ++ q.1.pending) (p.1.pending ++ written)

variable {p q : LWriter × σ} {written : List UInt8}

theorem Handed.start (cuts : Cuts rel) (good : Good p.2) : Handed received Good rel [] p p where
  good
  handed := by
    refine ⟨[], (List.append_nil _).symm, ?_⟩
    rw [List.nil_append, List.append_nil]
    exact cuts.whole _

/-- **A flush** at any fill level. -/
theorem Handed.flush (cuts : Cuts rel) (receives : Receives send received Good rel)
    (h : Handed received Good rel written p q) :
    Handed received Good rel written p (flush (sendPending send) q) := by
  obtain ⟨kept, eq, cut⟩ := h.handed
  unfold Writer.flush sendPending
  split
  · obtain ⟨good, new, eq', cut'⟩ := receives q.1.pending q.2 h.good
    refine ⟨good, kept ++ new, ?_, ?_⟩
    · rw [← List.append_assoc, ← eq]
      exact eq'
    · show rel (kept ++ new ++ []) _
      rw [List.append_nil]
      exact cuts.trans (cuts.append (cuts.whole kept) cut') cut
  · rename_i none
    rw [Decidable.not_not.1 none] at cut
    exact ⟨h.good, kept, eq, cut⟩

/-- **A byte**, before which a full buffer is flushed. -/
theorem Handed.write (cuts : Cuts rel) (receives : Receives send received Good rel)
    (h : Handed received Good rel written p q) (ch : UInt8) :
    Handed received Good rel (written ++ [ch]) p (write (sendPending send) ch q) := by
  unfold Writer.write
  split
  · obtain ⟨good, kept, eq, cut⟩ := h.flush cuts receives
    refine ⟨good, kept, eq, ?_⟩
    have behind := cuts.append cut (cuts.whole [ch])
    rw [List.append_assoc, List.append_assoc] at behind
    exact behind
  · obtain ⟨kept, eq, cut⟩ := h.handed
    refine ⟨h.good, kept, eq, ?_⟩
    have behind := cuts.append cut (cuts.whole [ch])
    rw [List.append_assoc, List.append_assoc] at behind
    exact behind

/-- **A run of steps** from any state of the writer. -/
theorem handed_runSteps (cuts : Cuts rel) (receives : Receives send received Good rel) (good : Good p.2)
    (steps : List WriteStep) :
    Handed received Good rel (bytesWritten steps) p (runSteps (sendPending send) steps p) := by
  induction steps using List.reverseRecOn with
  | nil => exact Handed.start cuts good
  | append_singleton steps a ih =>
    rw [runSteps_snoc]
    cases a with
    | put ch =>
      rw [bytesWritten_snoc_put]
      exact ih.write cuts receives ch
    | flush =>
      rw [bytesWritten_snoc_flush]
      exact ih.flush cuts receives

/-- **A call.** -/
theorem handed_call (cuts : Cuts rel) (receives : Receives send received Good rel) (good : Good p.2)
    (c : WriteCall) : Handed received Good rel (bytesWritten c.steps) p (call (sendPending send) c p) := by
  rw [call_eq_runSteps]
  exact handed_runSteps cuts receives good c.steps

end Lavoro.Writer
