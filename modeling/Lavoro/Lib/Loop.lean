/-!
# Loops that may run for ever

A `while` loop is a body that, from a state, either goes round again or leaves
with a result. `run` takes a number of turns; `Leaves` is the loop's result for
some number of turns and `Spins` says that no number of turns is enough. The rules a
client uses are `leaves_of_consuming` (a loop over what a list still holds gives a result),
`leaves_of_decreasing` (so does one whose turns make less of a number), `run_keeps` and
`after_keeps` (what every turn keeps holds of the result, and wherever the loop gets to),
`after_makes` (so does what the first turn brings about), `run_rel` and `run_map_eq` (two loops whose
turns go together), `after_congr` (two loops whose turns agree as far as one of them gets),
`after_settles` (more turns than needed change nothing), `foldl_reaches` (a `for` loop of which one turn
brings about what is wanted), `foldlM_range` and `foldl_range` (a `for` loop each turn of which does its
part), `foldlM_some_mono` (two of them, of which one fails less often), `foldlM_range_none` (a `for` loop with a turn that
fails), `spins_of_inv` (an invariant under which every turn goes round again), and `finishes_again` and `finishes_leave` for a loop whose turns have a fuel
of their own.
-/

namespace Lavoro.Lib

/-- What one turn of a loop does. -/
inductive Turn (σ ρ : Type) where
  | again (s : σ)
  | leave (r : ρ)
  deriving Repr

namespace Turn

variable {σ τ : Type}

/-- The state reached, whether the loop has been left or not. -/
def state : Turn σ σ → σ
  | .again s => s
  | .leave s => s

/-- What is made of the state reached. -/
def map (f : σ → τ) : Turn σ σ → Turn τ τ
  | .again s => .again (f s)
  | .leave s => .leave (f s)

/-- What comes behind a loop, once it has been left. -/
def andThen (f : σ → σ) : Turn σ σ → Turn σ σ
  | .again s => .again s
  | .leave s => .leave (f s)

@[simp] theorem state_map (f : σ → τ) (t : Turn σ σ) : (t.map f).state = f t.state := by
  cases t <;> rfl

/-- Where the one has left, the other has left with the same. -/
def Settles {ρ : Type} (t t' : Turn σ ρ) : Prop := ∀ r, t = .leave r → t' = .leave r

theorem Settles.map {t t' : Turn σ σ} (h : t.Settles t') (f : σ → τ) : (t.map f).Settles (t'.map f) := by
  intro r left
  cases t with
  | again s => cases left
  | leave s =>
    rw [h s rfl]
    exact left

theorem Settles.andThen {t t' : Turn σ σ} (h : t.Settles t') (f : σ → σ) :
    (t.andThen f).Settles (t'.andThen f) := by
  intro r left
  cases t with
  | again s => cases left
  | leave s =>
    rw [h s rfl]
    exact left

/-- Two turns that go round again, or leave, together. -/
inductive Rel {σ' ρ ρ' : Type} (R : σ → σ' → Prop) (Q : ρ → ρ' → Prop) : Turn σ ρ → Turn σ' ρ' → Prop where
  | again {s s'} (h : R s s') : Rel R Q (.again s) (.again s')
  | leave {r r'} (h : Q r r') : Rel R Q (.leave r) (.leave r')

end Turn

namespace Loop

variable {σ ρ : Type}

/-- At most `n` turns of the loop. -/
def run (body : σ → Turn σ ρ) : Nat → σ → Option ρ
  | 0, _ => none
  | n + 1, s =>
    match body s with
    | .again s' => run body n s'
    | .leave r => some r

/-- Where at most `n` turns of the loop get to. -/
def after (body : σ → Turn σ ρ) : Nat → σ → Turn σ ρ
  | 0, s => .again s
  | n + 1, s =>
    match body s with
    | .again s' => after body n s'
    | .leave r => .leave r

/-- The loop leaves with `r`. -/
def Leaves (body : σ → Turn σ ρ) (s : σ) (r : ρ) : Prop :=
  ∃ n, run body n s = some r

/-- The loop never leaves. -/
def Spins (body : σ → Turn σ ρ) (s : σ) : Prop :=
  ∀ n, run body n s = none

variable {body : σ → Turn σ ρ} {s s' : σ} {r r' : ρ} {n m : Nat}

theorem run_again (h : body s = .again s') : run body (n + 1) s = run body n s' := by
  simp only [run, h]

theorem run_leave (h : body s = .leave r) : run body (n + 1) s = some r := by
  simp only [run, h]

theorem after_again (h : body s = .again s') : after body (n + 1) s = after body n s' := by
  simp only [after, h]

theorem after_leave (h : body s = .leave r) : after body (n + 1) s = .leave r := by
  simp only [after, h]

/-- **The simulation rule.** Two loops whose turns go together have results that go together. -/
theorem run_rel {σ' ρ' : Type} {body' : σ' → Turn σ' ρ'} {R : σ → σ' → Prop} {Q : ρ → ρ' → Prop} {t : σ'}
    (turn : ∀ s t, R s t → Turn.Rel R Q (body s) (body' t)) (n : Nat) (h : R s t) :
    Option.Rel Q (run body n s) (run body' n t) := by
  induction n generalizing s t with
  | zero => exact .none
  | succ n ih =>
    have once := turn s t h
    unfold run
    generalize body s = made, body' t = made' at once
    cases once with
    | again later => exact ih later
    | leave post => exact .some post

/-- What is made of such results is the same, if it is the same of two that go together. -/
theorem run_map_eq {σ' ρ' τ : Type} {body' : σ' → Turn σ' ρ'} {R : σ → σ' → Prop} {Q : ρ → ρ' → Prop} {t : σ'}
    (turn : ∀ s t, R s t → Turn.Rel R Q (body s) (body' t)) (n : Nat) (h : R s t) {f : ρ → τ} {g : ρ' → τ}
    (post : ∀ r r', Q r r' → f r = g r') : (run body n s).map f = (run body' n t).map g := by
  have results := run_rel turn n h
  generalize run body n s = result, run body' n t = result' at results
  cases results with
  | none => rfl
  | some together => exact congrArg some (post _ _ together)

/-- More turns than needed change nothing. -/
theorem run_mono (h : run body n s = some r) (le : n ≤ m) : run body m s = some r := by
  induction n generalizing s m with
  | zero => cases h
  | succ n ih =>
    obtain ⟨m, rfl⟩ : ∃ k, m = k + 1 := ⟨m - 1, by omega⟩
    cases hb : body s with
    | again s' =>
      rw [run_again hb] at h ⊢
      exact ih h (by omega)
    | leave r' =>
      rw [run_leave hb] at h ⊢
      exact h

/-- The same for what is made of the result. -/
theorem run_map_mono {τ : Type} {f : ρ → τ} {t : τ} (le : n ≤ m) (h : (run body n s).map f = some t) :
    (run body m s).map f = some t := by
  obtain ⟨r, hr, rfl⟩ := Option.map_eq_some_iff.1 h
  rw [run_mono hr le]
  rfl

theorem after_eq_leave_iff : after body n s = .leave r ↔ run body n s = some r := by
  induction n generalizing s with
  | zero => simp [after, run]
  | succ n ih =>
    unfold after run
    split
    · exact ih
    · simp

theorem after_settles (body : σ → Turn σ ρ) (s : σ) (le : n ≤ m) : (after body n s).Settles (after body m s) :=
  fun _ left => after_eq_leave_iff.2 (run_mono (after_eq_leave_iff.1 left) le)

/-- **The invariant rule.** What every turn keeps holds wherever the loop gets to. -/
theorem after_keeps {body : σ → Turn σ σ} {Inv : σ → Prop} (turn : ∀ s, Inv s → Inv (body s).state)
    (n : Nat) (hs : Inv s) : Inv (after body n s).state := by
  induction n generalizing s with
  | zero => exact hs
  | succ n ih =>
    have moved := turn s hs
    unfold after
    split
    · rename_i s' again
      rw [again] at moved
      exact ih moved
    · rename_i r left
      rw [left] at moved
      exact moved

/-- Two loops get to the same place while all that is done on the way is what both do: `μ` numbers
what is done, and `ok` is what both do. -/
theorem after_congr {body body' : σ → Turn σ σ} {μ : σ → Nat} {ok : Nat → Prop}
    (grows : ∀ s, μ s ≤ μ (body s).state)
    (same : ∀ s, (∀ i, μ s ≤ i → i < μ (body s).state → ok i) → body s = body' s) (n : Nat) (s : σ)
    (fine : ∀ i, μ s ≤ i → i < μ (after body n s).state → ok i) : after body n s = after body' n s := by
  induction n generalizing s with
  | zero => rfl
  | succ n ih =>
    have first := grows s
    have turn := same s
    unfold after at fine ⊢
    cases here : body s with
    | again s' =>
      rw [here] at first turn
      simp only [here] at fine ⊢
      let Inv (t : σ) : Prop := μ s' ≤ μ t
      have turns : ∀ t, Inv t → Inv (body t).state := fun t le => Nat.le_trans le (grows t)
      have later : Inv (after body n s').state := after_keeps turns n (Nat.le_refl _)
      have agree := turn fun i low high => fine i low (Nat.lt_of_lt_of_le high later)
      rw [← agree]
      exact ih s' fun i low high => fine i (Nat.le_trans first low) high
    | leave r =>
      rw [here] at turn
      simp only [here] at fine ⊢
      rw [← turn fine]

/-- A loop that does on what `f` makes of its states what another does on them. -/
theorem after_map {σ' : Type} {body : σ → Turn σ σ} {body' : σ' → Turn σ' σ'} (f : σ → σ')
    (turn : ∀ s, body' (f s) = (body s).map f) (n : Nat) (s : σ) :
    after body' n (f s) = (after body n s).map f := by
  induction n generalizing s with
  | zero => rfl
  | succ n ih =>
    unfold after
    rw [turn s]
    cases body s with
    | again s' => exact ih s'
    | leave r => rfl

/-- What every turn keeps holds of the result. -/
theorem run_keeps {P : σ → Prop} {Q : ρ → Prop} (again : ∀ s s', P s → body s = .again s' → P s')
    (leave : ∀ s r, P s → body s = .leave r → Q r) (hs : P s) (h : run body n s = some r) :
    Q r := by
  induction n generalizing s with
  | zero => cases h
  | succ n ih =>
    cases hb : body s with
    | again s' =>
      rw [run_again hb] at h
      exact ih (again s s' hs hb) h
    | leave r' =>
      rw [run_leave hb] at h
      cases h
      exact leave s _ hs hb

/-- What the first turn brings about and every turn keeps holds wherever the loop gets to. -/
theorem after_makes {body : σ → Turn σ σ} {Inv : σ → Prop} (turn : ∀ s, Inv s → Inv (body s).state)
    (n : Nat) (first : Inv (body s).state) : Inv (after body (n + 1) s).state := by
  unfold after
  split
  · rename_i s' again
    rw [again] at first
    exact after_keeps turn n first
  · rename_i r left
    rw [left] at first
    exact first

theorem Leaves.unique (h : Leaves body s r) (h' : Leaves body s r') : r = r' := by
  obtain ⟨n, hn⟩ := h
  obtain ⟨m, hm⟩ := h'
  have hr := run_mono hn (Nat.le_max_left n m)
  have hr' := run_mono hm (Nat.le_max_right n m)
  exact Option.some.inj (hr.symm.trans hr')

theorem leaves_again (h : body s = .again s') : Leaves body s r ↔ Leaves body s' r := by
  constructor
  · rintro ⟨n, hn⟩
    cases n with
    | zero => cases hn
    | succ n => exact ⟨n, (run_again h).symm.trans hn⟩
  · rintro ⟨n, hn⟩
    exact ⟨n + 1, (run_again h).trans hn⟩

theorem leaves_leave (h : body s = .leave r) : Leaves body s r' ↔ r' = r := by
  constructor
  · rintro ⟨n, hn⟩
    cases n with
    | zero => cases hn
    | succ n => exact Option.some.inj (hn.symm.trans (run_leave h))
  · rintro rfl
    exact ⟨1, run_leave h⟩

/-- Two states from which the body does the same. -/
theorem leaves_of_turn_eq (h : body s = body s') : Leaves body s r ↔ Leaves body s' r := by
  cases hb : body s' with
  | again t => exact (leaves_again (h.trans hb)).trans (leaves_again hb).symm
  | leave t => exact (leaves_leave (h.trans hb)).trans (leaves_leave hb).symm

theorem spins_iff : Spins body s ↔ ∀ r, ¬ Leaves body s r := by
  constructor
  · rintro h r ⟨n, hn⟩
    simp [h n] at hn
  · intro h n
    cases hr : run body n s with
    | none => rfl
    | some r => exact absurd ⟨n, hr⟩ (h r)

/-- **The consuming rule.** A loop that takes the elements of a list one a turn, and leaves
once there is none, ends with all of them taken. -/
theorem leaves_of_consuming {α : Type} (Inv : List α → List α → σ → Prop) (Post : List α → ρ → Prop)
    (again : ∀ taken a left s, Inv taken (a :: left) s →
      ∃ s', body s = .again s' ∧ Inv (taken ++ [a]) left s')
    (leave : ∀ taken s, Inv taken [] s → ∃ r, Leaves body s r ∧ Post taken r) :
    ∀ left taken s, Inv taken left s → ∃ r, Leaves body s r ∧ Post (taken ++ left) r := by
  intro left
  induction left with
  | nil =>
    intro taken s h
    rw [List.append_nil]
    exact leave taken s h
  | cons a left ih =>
    intro taken s h
    obtain ⟨s', hb, moved⟩ := again taken a left s h
    obtain ⟨r, hr, post⟩ := ih _ _ moved
    rw [List.append_assoc, List.singleton_append] at post
    exact ⟨r, (leaves_again hb).2 hr, post⟩

/-- **The decreasing rule.** A loop every turn of which leaves or makes less of a number leaves. -/
theorem leaves_of_decreasing {P : σ → Prop} {Post : ρ → Prop} (μ : σ → Nat)
    (turn : ∀ s, P s → (∃ r, body s = .leave r ∧ Post r) ∨
      ∃ s', body s = .again s' ∧ P s' ∧ μ s' < μ s) (hs : P s) :
    ∃ r, Leaves body s r ∧ Post r := by
  induction hn : μ s using Nat.strongRecOn generalizing s with
  | _ n ih =>
    subst hn
    rcases turn s hs with ⟨r, left, post⟩ | ⟨s', again, hs', less⟩
    · exact ⟨r, (leaves_leave left).2 rfl, post⟩
    · obtain ⟨r, later, post⟩ := ih (μ s') less hs' rfl
      exact ⟨r, (leaves_again again).2 later, post⟩

/-- A `for` loop in which one turn brings about what all the others keep. -/
theorem foldl_reaches {ι : Type} {f : σ → ι → σ} {Inv Post : σ → Prop} {turns : List ι} {a : ι}
    (inv : ∀ s a, Inv s → Inv (f s a)) (keep : ∀ s a, Post s → Post (f s a)) (mem : a ∈ turns)
    (make : ∀ s, Inv s → Post (f s a)) (hs : Inv s) : Post (turns.foldl f s) := by
  induction turns generalizing s with
  | nil => cases mem
  | cons b turns ih =>
    rcases List.mem_cons.1 mem with rfl | later
    · have kept : ∀ (rest : List ι) (t : σ), Post t → Post (rest.foldl f t) := by
        intro rest
        induction rest with
        | nil => exact fun t h => h
        | cons c rest ih => exact fun t h => ih (f t c) (keep t c h)
      exact kept turns _ (make s hs)
    · exact ih later (inv s b hs)

/-- **The rule for a `for` loop** whose turns can fail: none does, and each adds its part. -/
theorem foldlM_range {f : σ → Nat → Option σ} {P : Nat → σ → Prop} {n : Nat}
    (turn : ∀ k s, k < n → P k s → ∃ s', f s k = some s' ∧ P (k + 1) s') (hs : P 0 s) :
    ∃ s', (List.range n).foldlM f s = some s' ∧ P n s' := by
  induction n with
  | zero => exact ⟨s, rfl, hs⟩
  | succ n ih =>
    obtain ⟨t, run, ht⟩ := ih fun k s lt => turn k s (Nat.lt_succ_of_lt lt)
    obtain ⟨s', last, hs'⟩ := turn n t (Nat.lt_succ_self n) ht
    refine ⟨s', ?_, hs'⟩
    rw [List.range_succ, List.foldlM_append, run]
    simpa using last

/-- A loop whose turns do what those of another do where they do not fail. -/
theorem foldlM_some_mono {α : Type} {f g : σ → α → Option σ} {l : List α} {s t : σ}
    (turn : ∀ s a t, f s a = some t → g s a = some t) (run : l.foldlM f s = some t) : l.foldlM g s = some t := by
  induction l generalizing s with
  | nil => exact run
  | cons a l ih =>
    rw [List.foldlM_cons] at run
    obtain ⟨next, first, rest⟩ := Option.bind_eq_some_iff.1 run
    rw [List.foldlM_cons, turn s a next first]
    exact ih rest

/-- A turn that fails from wherever it starts: so does the loop. -/
theorem foldlM_range_none {f : σ → Nat → Option σ} {k n : Nat} (reached : k < n) (fails : ∀ s, f s k = none) (s : σ) :
    (List.range n).foldlM f s = none := by
  induction n with
  | zero => cases reached
  | succ n ih =>
    rw [List.range_succ, List.foldlM_append]
    rcases Nat.lt_succ_iff_lt_or_eq.1 reached with before | rfl
    · rw [ih before]
      rfl
    · cases (List.range k).foldlM f s with
      | none => rfl
      | some t => simp [fails t]

/-- What every turn that does not fail keeps holds behind a loop that has not failed. -/
theorem foldlM_some_keeps {α : Type} {f : σ → α → Option σ} {motive : σ → Prop} {l : List α} {s t : σ}
    (step : ∀ s a t, f s a = some t → motive s → motive t) (run : l.foldlM f s = some t) (hs : motive s) :
    motive t := by
  induction l generalizing s with
  | nil =>
    cases run
    exact hs
  | cons a l ih =>
    rw [List.foldlM_cons] at run
    obtain ⟨next, first, rest⟩ := Option.bind_eq_some_iff.1 run
    exact ih rest (step s a next first hs)

/-- What has been computed without a fault has been computed in two steps without one. -/
theorem bind_eq_ok {ε α β : Type} {x : Except ε α} {f : α → Except ε β} {b : β} (h : x >>= f = .ok b) :
    ∃ a, x = .ok a ∧ f a = .ok b := by
  cases x with
  | error fault => cases h
  | ok a => exact ⟨a, rfl, h⟩

/-- What every turn keeps holds behind a loop without a fault. -/
theorem foldlM_keeps {ε α : Type} {f : σ → α → Except ε σ} {motive : σ → Prop} {l : List α} {s t : σ}
    (step : ∀ s a t, f s a = .ok t → motive s → motive t) (run : l.foldlM f s = .ok t) (hs : motive s) : motive t := by
  induction l generalizing s with
  | nil =>
    cases run
    exact hs
  | cons a l ih =>
    rw [List.foldlM_cons] at run
    obtain ⟨next, first, rest⟩ := bind_eq_ok run
    exact ih rest (step s a next first hs)

/-- A loop over a list none of whose turns fails. -/
theorem foldlM_eq_pure {m : Type → Type} [Monad m] [LawfulMonad m] {α : Type} {f : σ → α → m σ} {g : σ → α → σ}
    {l : List α} (turn : ∀ a ∈ l, ∀ s, f s a = pure (g s a)) (s : σ) : l.foldlM f s = pure (l.foldl g s) := by
  induction l generalizing s with
  | nil => rfl
  | cons a l ih =>
    rw [List.foldlM_cons, turn a List.mem_cons_self, pure_bind, List.foldl_cons]
    exact ih (fun b mem => turn b (List.mem_cons_of_mem a mem)) _

/-- The same for a loop whose turns cannot fail. -/
theorem foldl_range {f : σ → Nat → σ} {P : Nat → σ → Prop} {n : Nat}
    (turn : ∀ k s, k < n → P k s → P (k + 1) (f s k)) (hs : P 0 s) :
    P n ((List.range n).foldl f s) := by
  induction n with
  | zero => exact hs
  | succ n ih =>
    rw [List.range_succ, List.foldl_append]
    exact turn n _ (Nat.lt_succ_self n) (ih fun k s lt => turn k s (Nat.lt_succ_of_lt lt))

/-- A loop that looks for something. -/
theorem foldl_or (P : Nat → Prop) [DecidablePred P] (n : Nat) :
    (List.range n).foldl (fun found k => found || decide (P k)) false = decide (∃ k < n, P k) := by
  apply foldl_range (f := fun found k => found || decide (P k)) (P := fun k found => found = decide (∃ i < k, P i))
  · rintro k found - rfl
    rw [← Bool.decide_or]
    refine decide_eq_decide.2 ⟨?_, ?_⟩
    · rintro (⟨i, before, there⟩ | there)
      · exact ⟨i, Nat.lt_succ_of_lt before, there⟩
      · exact ⟨k, Nat.lt_succ_self k, there⟩
    · rintro ⟨i, before, there⟩
      rcases Nat.lt_or_eq_of_le (Nat.le_of_lt_succ before) with earlier | rfl
      · exact .inl ⟨i, earlier, there⟩
      · exact .inr there
  · simp

/-- **The divergence rule.** -/
theorem spins_of_inv (Inv : σ → Prop) (turn : ∀ s, Inv s → ∃ s', body s = .again s' ∧ Inv s')
    (hs : Inv s) : Spins body s := by
  intro n
  induction n generalizing s with
  | zero => rfl
  | succ n ih =>
    obtain ⟨s', hb, hs'⟩ := turn s hs
    exact (run_again hb).trans (ih hs')

/-! ## Turns with a fuel -/

/-- With enough fuel for each of its turns the loop leaves with `r`, in a number of turns that does
not depend on the fuel. -/
def Finishes (body : Nat → σ → Turn σ ρ) (s : σ) (r : ρ) : Prop :=
  ∃ enough n, ∀ fuel, enough ≤ fuel → run (body fuel) n s = some r

section Fuel

variable {body : Nat → σ → Turn σ ρ} {enough : Nat}

theorem finishes_again (turn : ∀ fuel, enough ≤ fuel → body fuel s = .again s')
    (later : Finishes body s' r) : Finishes body s r := by
  obtain ⟨more, n, runs⟩ := later
  refine ⟨max enough more, n + 1, fun fuel le => ?_⟩
  rw [run_again (turn fuel (Nat.le_trans (Nat.le_max_left _ _) le))]
  exact runs fuel (Nat.le_trans (Nat.le_max_right _ _) le)

theorem finishes_leave (turn : ∀ fuel, enough ≤ fuel → body fuel s = .leave r) : Finishes body s r :=
  ⟨enough, 1, fun fuel le => run_leave (turn fuel le)⟩

/-- As many turns as there is fuel. -/
theorem Finishes.after (h : Finishes body s r) :
    ∃ enough, ∀ fuel, enough ≤ fuel → after (body fuel) fuel s = .leave r := by
  obtain ⟨enough, n, runs⟩ := h
  refine ⟨max enough n, fun fuel le => after_eq_leave_iff.2 ?_⟩
  exact run_mono (runs fuel (Nat.le_trans (Nat.le_max_left _ _) le))
    (Nat.le_trans (Nat.le_max_right _ _) le)

end Fuel

end Loop

end Lavoro.Lib
