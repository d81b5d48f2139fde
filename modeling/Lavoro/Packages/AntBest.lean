import Lavoro.Packages.AntMain

/-!
# The best tour (`packages/AntTSP/AntTSP.cpp`)

The tour that is reported is the shortest of all, where sums are whole numbers, for any choice
of the next city that is not one the ant has been to.
-/

namespace Lavoro.AntTSP
open Lib

variable {F : Type}

/-- A choice of the next city: of one that the ant has not been to, if there is one. -/
structure Choice (F : Type) (cities : Nat) where
  next : Next F
  lawful : Lawful maxN cities next

/-- The choice of the code. -/
def Choice.source (d : Pheromones F) {n : Int32} (few : turns n ≤ maxN) : Choice F (turns n) :=
  ⟨fun _ _ => Ant.next d maxN n, next_lawful d few⟩

/-- The sum of `len` over the consecutive ones of the first `k` cities. -/
def tourSum (len : Nat → Nat → Nat) (path : Nat → Nat) (k : Nat) : Nat :=
  (List.range (k - 1)).foldl (fun total j => total + len (path j) (path (j + 1))) 0

theorem walked_id (len : Nat → Nat → Nat) (path : Nat → Nat) (k : Nat) :
    walked id len path k = tourSum len path k := by
  induction k with
  | zero => rfl
  | succ k ih =>
    cases k with
    | zero => rfl
    | succ k =>
      rw [walked, ih]
      simp [tourSum, List.range_succ]

/-- **The best tour** that is reported is as long as `sol`, and no ant has completed a shorter one in any
round, whichever cities are chosen, if sums are exact. -/
theorem reported_tour_is_least (d : Pheromones F) (e : Entered) (choice : Choice F (turns e.n)) (memory : Memory F)
    (hn : 1 ≤ e.n.toInt ∧ e.n.toInt ≤ 400) (hm : 1 ≤ e.m.toInt ∧ e.m.toInt ≤ 200) (hnc : 1 ≤ e.nc.toInt) :
    ∃ x c₀ c, start ⟨maxN, d, choice.next, id⟩ e memory = some (x, c₀) ∧
      (∀ i, i < turns e.n → ∀ j, j < turns e.n → x.len i j = toDouble (e.lengths i j).toNat) ∧
      antTSPMain ⟨maxN, d, choice.next, id⟩ e memory (turns e.n) (turns e.nc + 1) =
        some (c, (firstCells (turns e.n) c.bestTour).map (· + 1)) ∧
      c.sol = tourSum x.len c.bestTour (turns e.n) ∧
      ∀ k, k < turns e.nc → ∃ ck w, after x (turns e.n) k c₀ = some ck ∧ tours x (turns e.n) ck = some w ∧
        ∀ i, i < turns e.m → (w i).pathLength = turns e.n ∧ c.sol ≤ tourSum x.len (w i).path (turns e.n) := by
  have some' : 1 ≤ turns e.n := by unfold turns; omega
  have few : turns e.n ≤ maxN := by unfold turns maxN; omega
  have ants : 1 ≤ turns e.m := by unfold turns; omega
  have small : turns e.m ≤ maxAnt := by unfold turns maxAnt; omega
  have rounds : 0 < turns e.nc := by unfold turns; omega
  obtain ⟨x, c₀, started, code, rfl, lengths, settled, zero, -⟩ :=
    start_settled ⟨maxN, d, choice.next, id⟩ some' few (Nat.le_refl maxN) (by omega) memory
  have bound : x.room = maxN := congrArg Code.room code
  have exact' : x.sum = id := congrArg Code.sum code
  have chosen : x.next = choice.next := congrArg Code.next code
  have fair : Fair x := by
    apply fair_of_start some' (bound ▸ few) (Nat.le_of_eq bound) ants small ?_ ?_ lengths
    · rw [chosen, bound]
      exact choice.lawful
    · intro s
      rw [exact']
      exact Nat.le_add_right s _
  have all' : turns x.nc = c₀.NC + turns x.nc := by rw [zero, Nat.zero_add]
  obtain ⟨c, ends, -, keeps, -, -, all⟩ := settled.run fair all'
  have kept := keeps (.inl rounds)
  have out := antTSPMain_eq started ends (by rw [kept.length]; exact few)
  rw [kept.length] at out
  refine ⟨x, c₀, c, started, lengths, out, ?_, ?_⟩
  · rw [kept.sol, exact', walked_id]
  · intro k lt
    obtain ⟨ck, w, reached, went, beaten⟩ := all k lt
    refine ⟨ck, w, reached, went, fun i ant => ?_⟩
    obtain ⟨travels, everywhere, less⟩ := beaten i ant
    rw [travels.measured, exact', walked_id, everywhere] at less
    exact ⟨everywhere, less⟩

/-- Three cities, two ants and four rounds. -/
theorem three_cities_least :
    ∃ x c₀ c, start ⟨maxN, wholePheromones, fun _ _ => Ant.next wholePheromones maxN 3, id⟩
        ⟨3, 2, 4, fun i j => UInt64.ofNat (i + 10 * j)⟩ blankMemory = some (x, c₀) ∧
      antTSPMain ⟨maxN, wholePheromones, fun _ _ => Ant.next wholePheromones maxN 3, id⟩
        ⟨3, 2, 4, fun i j => UInt64.ofNat (i + 10 * j)⟩ blankMemory 3 5 =
          some (c, (firstCells 3 c.bestTour).map (· + 1)) ∧
      c.sol = tourSum x.len c.bestTour 3 := by
  obtain ⟨x, c₀, c, started, -, ends, sol, -⟩ := reported_tour_is_least wholePheromones
    ⟨3, 2, 4, fun i j => UInt64.ofNat (i + 10 * j)⟩ (Choice.source wholePheromones (by decide)) blankMemory
    (by decide) (by decide) (by decide)
  exact ⟨x, c₀, c, started, ends, sol⟩

end Lavoro.AntTSP
