import Lavoro.Packages.AntMain

/-!
# Numbers that do not fit (`packages/AntTSP/AntTSP.cpp`)

What `AntTSP_Main` does with any three numbers. It never looks at them: more cities than `max_n` leave
`len`, more ants than `max_ant` leave `dec`, `new` takes a negative number of ants and `random` divides
by a number of cities that is zero; and where no ant can complete a tour, `NC` stays below `nc`. The
result says for which numbers none of this happens.
-/

namespace Lavoro.AntTSP
open Lib

variable {F : Type} {x : Setup F} {c c' : Colony F} {e : Entered} {code : Code F}

@[simp] theorem cell_of_le {n i : Nat} (le : n ≤ i) : cell n i = none := by
  have outside : ¬ (i : Int) < n := by omega
  simp [cell, outside]

/-! ## Too many cities, no cities and a negative number of ants -/

theorem enterRow_none (many : code.room < turns e.n) (t : Tables F) (i : Nat) : enterRow code e t i = none := by
  apply Loop.foldlM_range_none many
  intro s
  cases cell code.room i <;> simp [enter]

theorem enterAll_some_iff (code : Code F) (t : Tables F) :
    (∃ t', enterAll code e t = some t') ↔ turns e.n ≤ code.room := by
  constructor
  · rintro ⟨t', entered⟩
    apply Nat.le_of_not_lt
    intro many
    have first : 0 < turns e.n := Nat.lt_of_le_of_lt (Nat.zero_le code.room) many
    have fails : enterAll code e t = none := Loop.foldlM_range_none first (fun s => enterRow_none many s 0) t
    rw [fails] at entered
    cases entered
  · intro few
    obtain ⟨t', entered, -⟩ := enterAll_entered code few t
    exact ⟨t', entered⟩

theorem placeAnts_some_iff (rnd : Int32) (memory : Nat → Ant) :
    (∃ placed, placeAnts e rnd memory = some placed) ↔ 0 ≤ e.m.toInt ∧ (turns e.m = 0 ∨ e.n ≠ 0) := by
  unfold placeAnts
  by_cases negative : e.m.toInt < 0
  · rw [if_pos negative]
    exact iff_of_false nofun fun both => absurd both.1 (Int.not_le.2 negative)
  · rw [if_neg negative]
    constructor
    · rintro ⟨placed, run⟩
      refine ⟨Int.not_lt.1 negative, ?_⟩
      by_contra neither
      obtain ⟨ants, zero⟩ := not_or.1 neither
      have fails : ∀ s : Int32 × (Nat → Ant), placeAnt e.n s 0 = none := fun s => if_pos (not_not.1 zero)
      have stuck : (upTo e.m).foldlM (placeAnt e.n) (rnd, fun i => (memory i).construct) = none :=
        Loop.foldlM_range_none (Nat.pos_of_ne_zero ants) fails _
      rw [stuck] at run
      cases run
    · rintro ⟨-, none | nonzero⟩
      · exact ⟨(rnd, fun i => (memory i).construct), by simp [upTo, none]⟩
      · have turn : ∀ (k : Nat) (s : Int32 × (Nat → Ant)), k < turns e.m → True →
            ∃ s', placeAnt e.n s k = some s' ∧ True := fun k s _ _ => ⟨_, if_neg nonzero, trivial⟩
        obtain ⟨placed, run, -⟩ := Loop.foldlM_range turn trivial
        exact ⟨placed, run⟩

/-- No tour has been kept. -/
structure Idle (c : Colony F) : Prop where
  NC : c.NC = 0
  length : c.bestTourLength = 0

theorem start_some_iff (code : Code F) (memory : Memory F) :
    (∃ x c, start code e memory = some (x, c)) ↔
      turns e.n ≤ code.room ∧ 0 ≤ e.m.toInt ∧ (turns e.m = 0 ∨ e.n ≠ 0) := by
  rw [← enterAll_some_iff code memory.tables, ← placeAnts_some_iff memory.rnd memory.ants]
  constructor
  · rintro ⟨x, c, started⟩
    obtain ⟨t, entered, rest⟩ := Option.bind_eq_some_iff.1 started
    obtain ⟨placed, places, -⟩ := Option.bind_eq_some_iff.1 rest
    exact ⟨⟨t, entered⟩, ⟨placed, places⟩⟩
  · rintro ⟨⟨t, entered⟩, ⟨placed, places⟩⟩
    exact ⟨_, _, start_eq entered places⟩

theorem start_idle {memory : Memory F} (started : start code e memory = some (x, c)) :
    x.toEntered = e ∧ Idle c := by
  obtain ⟨t, -, rest⟩ := Option.bind_eq_some_iff.1 started
  obtain ⟨placed, -, made⟩ := Option.bind_eq_some_iff.1 rest
  cases made
  exact ⟨rfl, ⟨rfl, rfl⟩⟩

/-! ## Too many ants -/

/-- `dec` has no room for the ant behind the last one. -/
theorem pass_crowded (crowd : maxAnt < turns x.m) (c : Colony F) (ants : Nat → Ant) : pass x c ants = none := by
  apply Loop.foldlM_range_none crowd
  intro s
  simp [decideOne]

theorem round_crowded (crowd : maxAnt < turns x.m) (passes : Nat) (c : Colony F) : round x passes c = none := by
  have stuck : ∀ ants, walk x c passes ants = none := by
    intro ants
    cases passes with
    | zero => rfl
    | succ passes => simp [walk, pass_crowded crowd]
  cases home : reuseAll x c.ants <;> simp [round, tours, home, stuck]

/-! ## Nobody completes a tour -/

theorem compare_negative (negative : x.n.toInt < 0) (c : Colony F) (a : Ant) : compare x c a = some c := by
  apply if_neg
  rintro ⟨complete, -⟩
  omega

/-- Without ants, or with a negative number of cities, no tour is kept. -/
theorem record_idle (nobody : turns x.m = 0 ∨ x.n.toInt < 0) (recorded : record x c = some c') (h : Idle c) :
    Idle c' := by
  rcases nobody with none | negative
  · simp only [record, upTo, none, List.range_zero, List.foldlM_nil] at recorded
    cases recorded
    exact h
  · apply Loop.foldlM_some_keeps ?_ recorded h
    intro c i c' finished idle
    obtain ⟨tau, -, compared⟩ := Option.bind_eq_some_iff.1 finished
    rw [compare_negative negative] at compared
    cases compared
    exact ⟨idle.NC, idle.length⟩

theorem round_idle (nobody : turns x.m = 0 ∨ x.n.toInt < 0) (nonzero : x.n.toInt ≠ 0) {passes : Nat}
    (rounded : round x passes c = some c') (h : Idle c) : Idle c' := by
  obtain ⟨ants, -, rest⟩ := Option.bind_eq_some_iff.1 rounded
  obtain ⟨c₁, recorded, counted⟩ := Option.bind_eq_some_iff.1 rest
  have idle : Idle c₁ := record_idle nobody recorded ⟨h.NC, h.length⟩
  have incomplete : ¬ (c₁.bestTourLength : Int) = x.n.toInt := by
    rw [idle.length]
    exact nonzero.symm
  cases counted
  refine ⟨?_, idle.length⟩
  show c₁.NC + (if (c₁.bestTourLength : Int) = x.n.toInt then 1 else 0) = 0
  rw [if_neg incomplete, idle.NC]

/-- **The outer loop never ends.** -/
theorem run_idle (nobody : turns x.m = 0 ∨ x.n.toInt < 0) (nonzero : x.n.toInt ≠ 0) (goes : 1 ≤ x.nc.toInt)
    (passes rounds : Nat) (h : Idle c) : run x passes rounds c = none := by
  induction rounds generalizing c with
  | zero => rfl
  | succ rounds ih =>
    have more : (c.NC : Int) < x.nc.toInt := by
      rw [h.NC]
      omega
    unfold run
    rw [if_pos more]
    cases rounded : round x passes c with
    | none => rfl
    | some c' => exact ih (round_idle nobody nonzero rounded h)

/-! ## Nothing to do -/

/-- No ants and no cities: every round is counted. -/
theorem run_empty (none : turns x.m = 0) (zero : x.n.toInt = 0) {left : Nat} (h : c.bestTourLength = 0)
    (rounds : turns x.nc ≤ c.NC + left) : ∃ c', run x 1 (left + 1) c = some c' ∧ c'.bestTourLength = 0 := by
  induction left generalizing c with
  | zero =>
    have done : ¬ (c.NC : Int) < x.nc.toInt := by
      unfold turns at rounds
      omega
    exact ⟨c, if_neg done, h⟩
  | succ left ih =>
    by_cases more : (c.NC : Int) < x.nc.toInt
    · have rounded : round x 1 c = some (count x.n c) := by
        simp [round, tours, reuseAll, walk, pass, record, upTo, none]
      have complete : (c.bestTourLength : Int) = x.n.toInt := by rw [h, zero]; rfl
      have counted : (count x.n c).NC = c.NC + 1 := by
        show c.NC + (if (c.bestTourLength : Int) = x.n.toInt then 1 else 0) = c.NC + 1
        rw [if_pos complete]
      obtain ⟨c', runs, length⟩ := ih (c := count x.n c) h (by rw [counted]; omega)
      refine ⟨c', ?_, length⟩
      unfold run
      simp [more, rounded, runs]
    · exact ⟨c, if_neg more, h⟩

/-! ## All numbers -/

/-- `n = Atoi(szLine);` -/
def narrow (x : UInt64) : Int32 := x.toUInt32.toInt32

/-- The numbers that `AntTSP_Main` can do with: at most 400 cities and no negative number of ants; some city, if
there is an ant; and for a round, between 1 and 200 ants and a city, or none of either. -/
def Fits (n m nc : Int) : Prop :=
  n ≤ 400 ∧ 0 ≤ m ∧ (m = 0 ∨ n ≠ 0) ∧ (nc ≤ 0 ∨ m = 0 ∧ n = 0 ∨ 1 ≤ n ∧ 1 ≤ m ∧ m ≤ 200)

instance (n m nc : Int) : Decidable (Fits n m nc) :=
  inferInstanceAs (Decidable (n ≤ 400 ∧ 0 ≤ m ∧ (m = 0 ∨ n ≠ 0) ∧
    (nc ≤ 0 ∨ m = 0 ∧ n = 0 ∨ 1 ≤ n ∧ 1 ≤ m ∧ m ≤ 200)))

/-- What a run that comes to its end says of the numbers. -/
theorem fits_of_run (declared : code.room = maxN) {memory : Memory F} {passes rounds : Nat} {result : Colony F × List Nat}
    (ends : antTSPMain code e memory passes rounds = some result) : Fits e.n.toInt e.m.toInt e.nc.toInt := by
  obtain ⟨⟨x, c⟩, started, rest⟩ := Option.bind_eq_some_iff.1 ends
  obtain ⟨c', runs, -⟩ := Option.bind_eq_some_iff.1 rest
  obtain ⟨few, whole, cities⟩ := (start_some_iff code memory).1 ⟨x, c, started⟩
  obtain ⟨rfl, idle⟩ := start_idle started
  have nonzero : x.n ≠ 0 ↔ x.n.toInt ≠ 0 := by rw [ne_eq, ← Int32.toInt_inj]; rfl
  rw [nonzero] at cities
  rw [declared] at few
  unfold turns maxN at few
  refine ⟨by omega, whole, cities.imp_left fun none => by unfold turns at none; omega, ?_⟩
  by_contra none
  obtain ⟨goes, others⟩ := not_or.1 none
  by_cases nobody : turns x.m = 0 ∨ x.n.toInt < 0
  · have spins := run_idle nobody (by unfold turns at nobody; omega) (by omega) passes rounds idle
    rw [spins] at runs
    cases runs
  · have crowd : maxAnt < turns x.m := by
      unfold turns maxAnt at *
      omega
    cases rounds with
    | zero => cases runs
    | succ rounds =>
      have more : (c.NC : Int) < x.nc.toInt := by
        rw [idle.NC]
        omega
      unfold run at runs
      rw [if_pos more, round_crowded crowd] at runs
      cases runs

/-- With numbers that fit there is a run that comes to its end. -/
theorem run_of_fits (d : Pheromones F) (fits : Fits e.n.toInt e.m.toInt e.nc.toInt) (memory : Memory F) :
    ∃ passes rounds result, antTSPMain (Code.source d e.n maxN) e memory passes rounds = some result := by
  obtain ⟨few, whole, cities, rounds⟩ := fits
  have few' : turns e.n ≤ maxN := by unfold turns maxN; omega
  have cities' : turns e.m = 0 ∨ e.n ≠ 0 := by
    rcases cities with none | nonzero
    · exact .inl (by unfold turns; omega)
    · exact .inr fun zero => nonzero (by rw [zero]; rfl)
  rcases rounds with none | ⟨noAnts, noCities⟩ | ⟨some', ants, small⟩
  · obtain ⟨x, c, started⟩ := (start_some_iff (Code.source d e.n maxN) memory).2 ⟨few', whole, cities'⟩
    obtain ⟨rfl, idle⟩ := start_idle started
    have done : ¬ (c.NC : Int) < x.nc.toInt := by
      rw [idle.NC]
      omega
    exact ⟨0, 1, _, antTSPMain_eq started (if_neg done) (by rw [idle.length]; exact Nat.zero_le maxN)⟩
  · obtain ⟨x, c, started⟩ := (start_some_iff (Code.source d e.n maxN) memory).2 ⟨few', whole, cities'⟩
    obtain ⟨rfl, idle⟩ := start_idle started
    have nobody : turns x.m = 0 := by unfold turns; omega
    have all : turns x.nc ≤ c.NC + turns x.nc := Nat.le_add_left _ _
    obtain ⟨c', runs, length⟩ := run_empty nobody noCities idle.length all
    exact ⟨1, turns x.nc + 1, _, antTSPMain_eq started runs (by rw [length]; exact Nat.zero_le maxN)⟩
  · have cities : 1 ≤ turns e.n := by unfold turns; omega
    obtain ⟨x, c, started, code, rfl, lengths, settled, zero, -⟩ :=
      start_settled (Code.source d e.n maxN) cities few' (Nat.le_refl maxN) whole memory
    have fair : Fair x :=
      fair_source code cities few' (Nat.le_refl maxN) (by unfold turns; omega) (by unfold turns maxAnt; omega) lengths
    have all : turns x.nc = c.NC + turns x.nc := by rw [zero, Nat.zero_add]
    obtain ⟨c', runs, isOpen, -⟩ := settled.run fair all
    have bound : x.room = maxN := congrArg Code.room code
    exact ⟨turns x.n, turns x.nc + 1, _, antTSPMain_eq started runs (bound ▸ isOpen.length_le fair.few)⟩

/-- `AntTSP_Main` comes to its end: it does not divide by zero, allocates no negative number of ants, stays inside
every array, and the outer loop ends. -/
def EndsWell (d : Pheromones F) (n m nc : UInt64) (lengths : Nat → Nat → UInt64) (memory : Memory F) : Prop :=
  ∃ passes rounds result, antTSPMain (Code.source d (narrow n) maxN) ⟨narrow n, narrow m, narrow nc, lengths⟩ memory
    passes rounds = some result

theorem EndsWell.fits {d : Pheromones F} {n m nc : UInt64} {lengths : Nat → Nat → UInt64} {memory : Memory F}
    (h : EndsWell d n m nc lengths memory) : Fits (narrow n).toInt (narrow m).toInt (narrow nc).toInt := by
  obtain ⟨passes, rounds, result, ends⟩ := h
  have fits := fits_of_run rfl ends
  exact fits

/-- **AntTSP with any three numbers** that are typed, and any lengths. -/
theorem antTSP_endsWell_iff (d : Pheromones F) (n m nc : UInt64) (lengths : Nat → Nat → UInt64)
    (memory : Memory F) :
    EndsWell d n m nc lengths memory ↔ Fits (narrow n).toInt (narrow m).toInt (narrow nc).toInt := by
  constructor
  · exact EndsWell.fits
  · intro fits
    have run := run_of_fits (e := ⟨narrow n, narrow m, narrow nc, lengths⟩) d fits memory
    exact run

/-- No city and an ant; 201 ants; a round without ants; 401 cities. -/
theorem unfit_numbers :
    ¬ EndsWell wholePheromones 0 1 1 (fun _ _ => 7) blankMemory ∧
      ¬ EndsWell wholePheromones 3 201 1 (fun _ _ => 7) blankMemory ∧
      ¬ EndsWell wholePheromones 3 0 1 (fun _ _ => 7) blankMemory ∧
      ¬ EndsWell wholePheromones 401 1 1 (fun _ _ => 7) blankMemory := by
  refine ⟨?_, ?_, ?_, ?_⟩
  · exact fun ends => absurd ends.fits (by decide)
  · exact fun ends => absurd ends.fits (by decide)
  · exact fun ends => absurd ends.fits (by decide)
  · exact fun ends => absurd ends.fits (by decide)

end Lavoro.AntTSP
