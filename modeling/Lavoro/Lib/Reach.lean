/-!
# Runs of a labelled step relation

`Reach step ok init s`: some run from an initial state ends in `s`, each of whose
steps was taken from a state in which `ok` allowed its label. With `ok` always true
this is plain reachability. `runActions` executes a given sequence of labels.
-/

namespace Lavoro.Lib

variable {S A : Type}

/-- The states that runs of allowed steps reach. -/
inductive Reach (step : S → A → S → Prop) (ok : S → A → Prop) (init : S → Prop) : S → Prop where
  | start {s : S} : init s → Reach step ok init s
  | next {s t : S} {a : A} : Reach step ok init s → ok s a → step s a t → Reach step ok init t

/-- What holds at the start and is kept by every allowed step holds in every state
that a run of allowed steps reaches. -/
theorem Reach.invariant {step : S → A → S → Prop} {ok : S → A → Prop} {init : S → Prop}
    (Inv : S → Prop) (start : ∀ s, init s → Inv s)
    (keep : ∀ s a t, Inv s → ok s a → step s a t → Inv t) {s : S}
    (h : Reach step ok init s) : Inv s := by
  induction h with
  | start hs => exact start _ hs
  | next _ allowed taken ih => exact keep _ _ _ ih allowed taken

/-- With weaker conditions no fewer states are reached. -/
theorem Reach.mono {step : S → A → S → Prop} {ok ok' : S → A → Prop} {init : S → Prop}
    (weaker : ∀ s a, ok s a → ok' s a) {s : S} (h : Reach step ok init s) : Reach step ok' init s := by
  induction h with
  | start hs => exact .start hs
  | next _ allowed taken ih => exact .next ih (weaker _ _ allowed) taken

/-- The state after a sequence of actions, each allowed where it is taken. -/
def runActions (exec : S → A → Option S) (ok : S → A → Prop) [∀ s a, Decidable (ok s a)] :
    List A → S → Option S
  | [], s => some s
  | a :: rest, s =>
    if ok s a then
      match exec s a with
      | some t => runActions exec ok rest t
      | none => none
    else none

/-- A run that has been executed is a run of the step relation. -/
theorem Reach.of_runActions {step : S → A → S → Prop} {ok : S → A → Prop} {init : S → Prop}
    [∀ s a, Decidable (ok s a)] {exec : S → A → Option S}
    (sound : ∀ s a t, exec s a = some t → step s a t) {actions : List A} {s t : S}
    (h : Reach step ok init s) (run : runActions exec ok actions s = some t) :
    Reach step ok init t := by
  induction actions generalizing s with
  | nil =>
    obtain rfl : s = t := Option.some.inj run
    exact h
  | cons a rest ih =>
    unfold runActions at run
    split at run
    · rename_i allowed
      split at run
      · rename_i next taken
        exact ih (.next h allowed (sound s a next taken)) run
      · cases run
    · cases run

/-! ## Steps that can always be taken -/

/-- The states that a sequence of actions leads through. -/
def visited (act : S → A → S) : S → List A → List S
  | s, [] => [s]
  | s, a :: rest => s :: visited act (act s a) rest

/-- What every action keeps holds all the way. -/
theorem visited_keeps {act : S → A → S} {Inv : S → Prop} (keep : ∀ s a, Inv s → Inv (act s a))
    (actions : List A) {s : S} (hs : Inv s) : ∀ t ∈ visited act s actions, Inv t := by
  induction actions generalizing s with
  | nil => exact fun t mem => List.mem_singleton.1 mem ▸ hs
  | cons a rest ih => exact List.forall_mem_cons.2 ⟨hs, ih (keep s a hs)⟩

/-- Each action is allowed where it is taken. -/
def AllowedRun (act : S → A → S) (ok : S → A → Prop) : S → List A → Prop
  | _, [] => True
  | s, a :: rest => ok s a ∧ AllowedRun act ok (act s a) rest

/-- **The exact rule.** -/
theorem visited_iff {act : S → A → S} {ok : S → A → Prop} {Inv : S → Prop}
    (step : ∀ s a, Inv s → (Inv (act s a) ↔ ok s a)) (actions : List A) {s : S} (hs : Inv s) :
    (∀ t ∈ visited act s actions, Inv t) ↔ AllowedRun act ok s actions := by
  induction actions generalizing s with
  | nil => simp [visited, AllowedRun, hs]
  | cons a rest ih =>
    have first : act s a ∈ visited act (act s a) rest := by
      cases rest <;> exact List.mem_cons_self
    constructor
    · intro all
      obtain ⟨-, later⟩ := List.forall_mem_cons.1 all
      have next := later _ first
      exact ⟨(step s a hs).1 next, (ih next).1 later⟩
    · rintro ⟨here, later⟩
      have next := (step s a hs).2 here
      exact List.forall_mem_cons.2 ⟨hs, (ih next).2 later⟩

end Lavoro.Lib
