import Lavoro.Packages.AntTSP

/-!
# The bound of the arrays (`packages/AntTSP/AntTSP.cpp`)

An index that is below one bound is below any larger one, and so `AntTSP_Main` does the same where its indices
are held against a larger one: `Code.Wider.antTSPMain`. What it does with the number of cities as the bound it does
with `max_n`, and no index has been outside of the cities.
-/

namespace Lavoro.AntTSP
open Lib

variable {F : Type}

/-- The same code, with a bound that is no smaller. -/
structure Code.Wider (code code' : Code F) : Prop where
  room : code.room ≤ code'.room
  d : code'.d = code.d
  next : ∀ {round ant eta tau a ci}, code.next round ant eta tau a = some ci → code'.next round ant eta tau a = some ci
  sum : code'.sum = code.sum

/-- The same behind the lengths. -/
structure Setup.Wider (x x' : Setup F) : Prop where
  code : x.toCode.Wider x'.toCode
  entered : x'.toEntered = x.toEntered
  len : x'.len = x.len
  eta : x'.eta = x.eta

variable {n n' : Nat} {a : Ant} {code code' : Code F} {x x' : Setup F} {c c' : Colony F}

theorem cell_mono {k : Nat} {i : Int} (le : n ≤ n') (h : cell n i = some k) : cell n' i = some k := by
  unfold cell at *
  by_cases inside : 0 ≤ i ∧ i < n
  · rw [if_pos inside] at h
    rw [if_pos ⟨inside.1, by omega⟩]
    exact h
  · rw [if_neg inside] at h
    cases h

/-! ## The ants -/

section Ants

variable {d : Pheromones F} {eta tau tau' : Nat → Nat → F}

theorem consider_mono (le : n ≤ n') {s i : Nat} {best best' : Option Nat × F}
    (h : a.consider d n eta tau s best i = some best') : a.consider d n' eta tau s best i = some best' := by
  simp only [Ant.consider, Option.bind_eq_bind, Option.bind_eq_some_iff] at h ⊢
  obtain ⟨k, index, chosen⟩ := h
  refine ⟨k, cell_mono le index, ?_⟩
  by_cases can : a.bCan k = true
  · simp only [can, if_true, Option.bind_eq_some_iff] at chosen ⊢
    obtain ⟨city, here, made⟩ := chosen
    exact ⟨city, cell_mono le here, made⟩
  · rw [if_neg can] at chosen ⊢
    exact chosen

theorem next_mono (le : n ≤ n') {cities : Int32} {ci : Option Nat} (h : a.next d n cities eta tau = some ci) :
    a.next d n' cities eta tau = some ci := by
  simp only [Ant.next, Option.bind_eq_bind, Option.bind_eq_some_iff] at h ⊢
  obtain ⟨last, index, best, considered, made⟩ := h
  exact ⟨last, cell_mono le index, best, Loop.foldlM_some_mono (fun _ _ _ => consider_mono le) considered, made⟩

theorem release_mono (le : n ≤ n') (b : Nat → Bool) (i : Nat) (b' : Nat → Bool)
    (h : a.release n b i = some b') : a.release n' b i = some b' := by
  simp only [Ant.release, Option.bind_eq_bind, Option.bind_eq_some_iff] at h ⊢
  obtain ⟨k, index, city, inside, set⟩ := h
  exact ⟨k, cell_mono le index, city, cell_mono le inside, set⟩

theorem reuse_mono {a' : Ant} (le : n ≤ n') (h : a.reuse n = some a') : a.reuse n' = some a' := by
  simp only [Ant.reuse, Option.bind_eq_bind, Option.bind_eq_some_iff] at h ⊢
  obtain ⟨bCan, released, first, front, start, home, made⟩ := h
  exact ⟨bCan, Loop.foldlM_some_mono (release_mono le) released, first, cell_mono le front, start,
    cell_mono le home, made⟩

theorem lay_mono (le : n ≤ n') (k : Nat) (h : a.lay d n tau k = some tau') : a.lay d n' tau k = some tau' := by
  simp only [Ant.lay, Option.bind_eq_bind, Option.bind_eq_some_iff] at h ⊢
  obtain ⟨here, at', src, srcCity, there, behind, dst, dstCity, set⟩ := h
  exact ⟨here, cell_mono le at', src, cell_mono le srcCity, there, cell_mono le behind, dst, cell_mono le dstCity, set⟩

theorem deposit_mono (le : n ≤ n') (h : a.deposit d n tau = some tau') : a.deposit d n' tau = some tau' :=
  Loop.foldlM_some_mono (fun _ k _ => lay_mono le k) h

theorem copyCity_mono (le : n ≤ n') (best : Nat → Nat) (j : Nat) (best' : Nat → Nat)
    (h : a.copyCity n best j = some best') : a.copyCity n' best j = some best' := by
  simp only [Ant.copyCity, Option.bind_eq_bind, Option.bind_eq_some_iff] at h ⊢
  obtain ⟨k, index, set⟩ := h
  exact ⟨k, cell_mono le index, set⟩

end Ants

/-! ## The rounds -/

namespace Setup.Wider

theorem n_eq (w : x.Wider x') : x'.n = x.n := congrArg Entered.n w.entered

theorem m_eq (w : x.Wider x') : x'.m = x.m := congrArg Entered.m w.entered

theorem nc_eq (w : x.Wider x') : x'.nc = x.nc := congrArg Entered.nc w.entered

/-- `step(t)`. -/
theorem step (w : x.Wider x') {t : Nat} {a' : Ant} (h : a.step x t = some a') : a.step x' t = some a' := by
  have le := w.code.room
  simp only [Ant.step, Option.bind_eq_bind, Option.bind_eq_some_iff] at h ⊢
  obtain ⟨behind, room, city, inside, before, back, src, srcCity, last, end', dst, dstCity, made⟩ := h
  refine ⟨behind, cell_mono le room, city, cell_mono le inside, before, cell_mono le back, src, cell_mono le srcCity,
    last, cell_mono le end', dst, cell_mono le dstCity, ?_⟩
  rw [w.code.sum, w.len]
  exact made

theorem reuseAll (w : x.Wider x') {ants ants' : Nat → Ant} (h : AntTSP.reuseAll x ants = some ants') :
    AntTSP.reuseAll x' ants = some ants' := by
  unfold AntTSP.reuseAll at *
  rw [w.m_eq]
  apply Loop.foldlM_some_mono ?_ h
  intro s i t one
  simp only [reuseOne, Option.bind_eq_bind, Option.bind_eq_some_iff] at one ⊢
  obtain ⟨a, home, set⟩ := one
  exact ⟨a, reuse_mono w.code.room home, set⟩

theorem decideOne (w : x.Wider x') {s s' : Bool × (Nat → Ant)} {i : Nat} (h : AntTSP.decideOne x c s i = some s') :
    AntTSP.decideOne x' c s i = some s' := by
  simp only [AntTSP.decideOne, Option.bind_eq_bind, Option.bind_eq_some_iff] at h ⊢
  obtain ⟨dec, inside, ci, chosen, turned⟩ := h
  refine ⟨dec, inside, ci, ?_, ?_⟩
  · rw [w.eta]
    exact w.code.next chosen
  · cases ci with
    | none => exact turned
    | some t =>
      obtain ⟨a, stepped, made⟩ := Option.bind_eq_some_iff.1 turned
      exact Option.bind_eq_some_iff.2 ⟨a, w.step stepped, made⟩

theorem walk (w : x.Wider x') {passes : Nat} {ants ants' : Nat → Ant} (h : AntTSP.walk x c passes ants = some ants') :
    AntTSP.walk x' c passes ants = some ants' := by
  induction passes generalizing ants with
  | zero => cases h
  | succ passes ih =>
    obtain ⟨r, passed, rest⟩ := Option.bind_eq_some_iff.1 h
    have passed' : pass x' c ants = some r := by
      rw [pass, w.m_eq]
      exact Loop.foldlM_some_mono (fun _ _ _ => w.decideOne) passed
    refine Option.bind_eq_some_iff.2 ⟨r, passed', ?_⟩
    by_cases more : r.1 = true
    · rw [if_pos more] at rest ⊢
      exact ih rest
    · rw [if_neg more] at rest ⊢
      exact rest

theorem finish (w : x.Wider x') {i : Nat} (h : AntTSP.finish x c i = some c') : AntTSP.finish x' c i = some c' := by
  obtain ⟨tau, laid, compared⟩ := Option.bind_eq_some_iff.1 h
  refine Option.bind_eq_some_iff.2 ⟨tau, ?_, ?_⟩
  · rw [w.code.d]
    exact deposit_mono w.code.room laid
  · unfold compare at *
    rw [w.n_eq]
    split at compared
    · rename_i better
      obtain ⟨best, copied, made⟩ := Option.bind_eq_some_iff.1 compared
      rw [if_pos better]
      exact Option.bind_eq_some_iff.2 ⟨best, Loop.foldlM_some_mono (copyCity_mono w.code.room) copied, made⟩
    · rename_i worse
      rw [if_neg worse]
      exact compared

theorem round (w : x.Wider x') {passes : Nat} (h : AntTSP.round x passes c = some c') :
    AntTSP.round x' passes c = some c' := by
  obtain ⟨ants, toured, rest⟩ := Option.bind_eq_some_iff.1 h
  obtain ⟨home, reused, walked⟩ := Option.bind_eq_some_iff.1 toured
  obtain ⟨c₁, recorded, counted⟩ := Option.bind_eq_some_iff.1 rest
  have toured' : tours x' passes c = some ants := Option.bind_eq_some_iff.2 ⟨home, w.reuseAll reused, w.walk walked⟩
  have recorded' : record x' { c with ants } = some c₁ := by
    rw [record, w.m_eq]
    exact Loop.foldlM_some_mono (fun _ _ _ => w.finish) recorded
  refine Option.bind_eq_some_iff.2 ⟨ants, toured', Option.bind_eq_some_iff.2 ⟨c₁, recorded', ?_⟩⟩
  rw [w.n_eq]
  exact counted

/-- All rounds. -/
theorem run (w : x.Wider x') {passes rounds : Nat} (h : AntTSP.run x passes rounds c = some c') :
    AntTSP.run x' passes rounds c = some c' := by
  induction rounds generalizing c with
  | zero => cases h
  | succ rounds ih =>
    unfold AntTSP.run at h ⊢
    rw [w.nc_eq]
    split at h
    · rename_i more
      obtain ⟨c₁, rounded, rest⟩ := Option.bind_eq_some_iff.1 h
      rw [if_pos more]
      exact Option.bind_eq_some_iff.2 ⟨c₁, w.round rounded, ih rest⟩
    · rename_i done
      rw [if_neg done]
      exact h

end Setup.Wider

/-! ## The whole of it -/

namespace Code.Wider

variable {e : Entered} {memory : Memory F}

theorem enterAll (w : code.Wider code') {t t' : Tables F} (h : AntTSP.enterAll code e t = some t') :
    AntTSP.enterAll code' e t = some t' := by
  apply Loop.foldlM_some_mono ?_ h
  intro s i s' row
  apply Loop.foldlM_some_mono ?_ row
  intro s j s' entered
  simp only [enter, Option.bind_eq_bind, Option.bind_eq_some_iff] at entered ⊢
  obtain ⟨i', inside, j', inside', set⟩ := entered
  refine ⟨i', cell_mono w.room inside, j', cell_mono w.room inside', ?_⟩
  rw [w.d]
  exact set

theorem start (w : code.Wider code') (h : AntTSP.start code e memory = some (x, c)) :
    ∃ x', AntTSP.start code' e memory = some (x', c) ∧ x.Wider x' := by
  obtain ⟨t, entered, rest⟩ := Option.bind_eq_some_iff.1 h
  obtain ⟨placed, places, made⟩ := Option.bind_eq_some_iff.1 rest
  cases made
  refine ⟨_, Option.bind_eq_some_iff.2 ⟨t, w.enterAll entered, Option.bind_eq_some_iff.2 ⟨placed, places, rfl⟩⟩, ?_⟩
  exact ⟨w, rfl, rfl, rfl⟩

theorem printed (w : code.Wider code') {tour : List Nat} (h : AntTSP.printed code.room c = some tour) :
    AntTSP.printed code'.room c = some tour := by
  unfold AntTSP.printed at *
  generalize List.range c.bestTourLength = cities at h ⊢
  induction cities generalizing tour with
  | nil => exact h
  | cons i cities ih =>
    simp only [List.mapM_cons, Option.bind_eq_bind, Option.bind_eq_some_iff] at h ⊢
    obtain ⟨city, ⟨k, index, made⟩, rest, later, whole⟩ := h
    exact ⟨city, ⟨k, cell_mono w.room index, made⟩, rest, ih later, whole⟩

/-- **`AntTSP_Main`** does the same with a larger bound. -/
theorem antTSPMain (w : code.Wider code') {passes rounds : Nat} {result : Colony F × List Nat}
    (h : AntTSP.antTSPMain code e memory passes rounds = some result) :
    AntTSP.antTSPMain code' e memory passes rounds = some result := by
  obtain ⟨⟨x, c⟩, started, rest⟩ := Option.bind_eq_some_iff.1 h
  obtain ⟨c', runs, rest⟩ := Option.bind_eq_some_iff.1 rest
  obtain ⟨tour, prints, made⟩ := Option.bind_eq_some_iff.1 rest
  obtain ⟨x', started', wider⟩ := w.start started
  exact Option.bind_eq_some_iff.2 ⟨(x', c), started', Option.bind_eq_some_iff.2 ⟨c', wider.run runs,
    Option.bind_eq_some_iff.2 ⟨tour, w.printed prints, made⟩⟩⟩

end Code.Wider

/-- The code itself with a larger bound. -/
theorem Code.source_wider (d : Pheromones F) (cities : Int32) (le : n ≤ n') :
    (Code.source d cities n).Wider (Code.source d cities n') :=
  ⟨le, rfl, next_mono le, rfl⟩

end Lavoro.AntTSP
