import Mathlib.Algebra.Group.Nat.Defs
import Lavoro.Lib.Arrangement
import Lavoro.Lib.Loop
import Lavoro.Lib.Rounding

/-!
# The package AntTSP (`packages/AntTSP/AntTSP.cpp`)

In every round each ant builds a tour, one city a turn, all ants in turn; the shortest tour so far
is kept. Three numbers of type `int` are entered, and nothing looks at them. An index outside of its
array, a division by zero and an array of negative size have no result, and neither has a loop that its
number of turns does not end. What the pheromones are and how two of them compare, how `next` chooses and what
a sum of two doubles is rounded to are parameters, and so is the bound that an index of a city is held against: `Code`.
The lengths are doubles that hold whole numbers, an `Atoi` or a sum of such, so that they are natural numbers
rounded to 53 digits.
-/

namespace Lavoro.AntTSP
open Lib

/-- `max_n`. -/
def maxN : Nat := 400

/-- `max_ant`. -/
def maxAnt : Nat := 200

/-- `double` where its values are pheromones. -/
structure Pheromones (F : Type) where
  mul : F → F → F
  add : F → F → F
  div : F → F → F
  gt : F → F → Bool
  ofLength : Nat → F
  zero : F
  one : F
  rho : F
  Q : F

/-- A whole number as a double. -/
def toDouble (x : Nat) : Nat := roundNearest 53 x

/-- What `random` makes of `rnd`, and the number it returns. -/
def random (n rnd : Int32) : Int32 × Int32 :=
  let rnd := rnd * 2131 + 7
  (rnd, (((rnd * rnd * rnd * rnd) % n) + n) % n)

/-- The index `i`, if it is one below `n`. -/
def cell (n : Nat) (i : Int) : Option Nat := if 0 ≤ i ∧ i < n then some i.toNat else none

structure Ant where
  start : Int
  bCan : Nat → Bool
  tLen : Nat
  path : Nat → Nat
  pathLength : Nat

/-- `next()`, in a round and of an ant, on `eta` and `tau`. -/
abbrev Next (F : Type) := (round ant : Nat) → (eta tau : Nat → Nat → F) → Ant → Option (Option Nat)

/-- What is left open: the bound of the arrays of cities, which is `max_n` as they are declared; the pheromones, the choice
of the next city, the sums. -/
structure Code (F : Type) where
  room : Nat
  d : Pheromones F
  next : Next F
  sum : Nat → Nat

/-- What is entered, narrowed to `int`, and what is entered for `len[i][j]`. -/
structure Entered where
  n : Int32
  m : Int32
  nc : Int32
  lengths : Nat → Nat → UInt64

/-- The global arrays. -/
structure Tables (F : Type) where
  len : Nat → Nat → Nat
  eta : Nat → Nat → F
  tau : Nat → Nat → F

/-- What is there before `AntTSP_Main`. -/
structure Memory (F : Type) where
  tables : Tables F
  rnd : Int32
  ants : Nat → Ant
  bestTour : Nat → Nat

/-- What does not change any more once the lengths have been entered. -/
structure Setup (F : Type) extends Code F, Entered where
  len : Nat → Nat → Nat
  eta : Nat → Nat → F

/-- The variables of `AntTSP_Main`, and how many rounds there have been. -/
structure Colony (F : Type) where
  tau : Nat → Nat → F
  ants : Nat → Ant
  sol : Nat
  bestTour : Nat → Nat
  bestTourLength : Nat
  NC : Nat
  rounds : Nat

/-- How often `for(int i = 0; i < n; ++i)` goes round. -/
def turns (n : Int32) : Nat := n.toInt.toNat

/-- The values of its `i`. -/
def upTo (n : Int32) : List Nat := List.range (turns n)

variable {F : Type}

/-! ## The ants -/

namespace Ant

/-- `Ant()`, on memory that holds anything. -/
def construct (a : Ant) : Ant :=
  { a with
    bCan := (List.range maxN).foldl (fun b i => Function.update b i true) a.bCan
    tLen := 0
    pathLength := 0 }

/-- The body of the loop of `next`: `ci`, which is `none` while `ci < 0`, and `vmax`. -/
def consider (d : Pheromones F) (room : Nat) (eta tau : Nat → Nat → F) (a : Ant) (s : Nat) (best : Option Nat × F) (i : Nat) :
    Option (Option Nat × F) := do
  let i ← cell room i
  if a.bCan i then
    let s ← cell room s
    let v := d.mul (tau s i) (eta s i)
    some (if d.gt v best.2 || best.1.isNone then (some i, v) else best)
  else some best

/-- `next()`. -/
def next (d : Pheromones F) (room : Nat) (n : Int32) (eta tau : Nat → Nat → F) (a : Ant) : Option (Option Nat) := do
  let s := a.path (← cell room (a.pathLength - 1))
  let best ← (upTo n).foldlM (a.consider d room eta tau s) (none, d.zero)
  some best.1

/-- `b_can[path[i]] = true;` -/
def release (room : Nat) (a : Ant) (bCan : Nat → Bool) (i : Nat) : Option (Nat → Bool) := do
  let city ← cell room (a.path (← cell room i))
  some (Function.update bCan city true)

/-- `reuse()`. -/
def reuse (room : Nat) (a : Ant) : Option Ant := do
  let bCan ← (List.range a.pathLength).foldlM (a.release room) a.bCan
  let first ← cell room 0
  let start ← cell room a.start
  some { a with
    path := Function.update a.path first start
    pathLength := 1
    bCan := Function.update bCan start false
    tLen := 0 }

/-- `step(t)`. -/
def step (x : Setup F) (a : Ant) (t : Nat) : Option Ant := do
  let path := Function.update a.path (← cell x.room a.pathLength) t
  let pathLength := a.pathLength + 1
  let bCan := Function.update a.bCan (← cell x.room t) false
  let src ← cell x.room (path (← cell x.room (pathLength - 2)))
  let dst ← cell x.room (path (← cell x.room (pathLength - 1)))
  some { a with path, pathLength, bCan, tLen := x.sum (a.tLen + x.len src dst) }

/-- `tau[src][dst] = tau[src][dst] * rho + Q / tlen;` for `i = k + 1`. -/
def lay (d : Pheromones F) (room : Nat) (a : Ant) (tau : Nat → Nat → F) (k : Nat) : Option (Nat → Nat → F) := do
  let src ← cell room (a.path (← cell room k))
  let dst ← cell room (a.path (← cell room (k + 1)))
  let laid := d.add (d.mul (tau src dst) d.rho) (d.div d.Q (d.ofLength a.tLen))
  some (Function.update tau src (Function.update (tau src) dst laid))

/-- `step()`: the pheromones the ant leaves. -/
def deposit (d : Pheromones F) (room : Nat) (tau : Nat → Nat → F) (a : Ant) : Option (Nat → Nat → F) :=
  (List.range (a.pathLength - 1)).foldlM (a.lay d room) tau

/-- `best_tour[j] = ants[i].path[j];` -/
def copyCity (room : Nat) (a : Ant) (bestTour : Nat → Nat) (j : Nat) : Option (Nat → Nat) := do
  some (Function.update bestTour j (a.path (← cell room j)))

end Ant

/-! ## The rounds -/

/-- `ants[i].reuse();` -/
def reuseOne (room : Nat) (ants : Nat → Ant) (i : Nat) : Option (Nat → Ant) := do
  some (Function.update ants i (← (ants i).reuse room))

def reuseAll (x : Setup F) (ants : Nat → Ant) : Option (Nat → Ant) := (upTo x.m).foldlM (reuseOne x.room) ants

/-- The body of the loop over the ants; `dec[i]` is what `next` returns. -/
def decideOne (x : Setup F) (c : Colony F) (s : Bool × (Nat → Ant)) (i : Nat) : Option (Bool × (Nat → Ant)) := do
  let _ ← cell maxAnt i
  match ← x.next c.rounds i x.eta c.tau (s.2 i) with
  | none => some s
  | some t => some (true, Function.update s.2 i (← (s.2 i).step x t))

/-- The body of the inner loop: `b_ok`, and the ants. -/
def pass (x : Setup F) (c : Colony F) (ants : Nat → Ant) : Option (Bool × (Nat → Ant)) :=
  (upTo x.m).foldlM (decideOne x c) (false, ants)

/-- The inner loop, of at most `passes` turns. -/
def walk (x : Setup F) (c : Colony F) : Nat → (Nat → Ant) → Option (Nat → Ant)
  | 0, _ => none
  | passes + 1, ants => do
    let r ← pass x c ants
    if r.1 then walk x c passes r.2 else some r.2

/-- The tour of the ant becomes the best one, if it is. -/
def compare (x : Setup F) (c : Colony F) (a : Ant) : Option (Colony F) :=
  if (a.pathLength : Int) = x.n.toInt ∧ a.tLen < c.sol then do
    let bestTour ← (List.range a.pathLength).foldlM (a.copyCity x.room) c.bestTour
    some { c with sol := a.tLen, bestTourLength := a.pathLength, bestTour }
  else some c

/-- The body of the last loop of a round. -/
def finish (x : Setup F) (c : Colony F) (i : Nat) : Option (Colony F) := do
  let tau ← (c.ants i).deposit x.d x.room c.tau
  compare x { c with tau } (c.ants i)

def record (x : Setup F) (c : Colony F) : Option (Colony F) := (upTo x.m).foldlM (finish x) c

/-- `NC += best_tour_length == n ? 1 : 0`. -/
def count (n : Int32) (c : Colony F) : Colony F :=
  { c with NC := c.NC + (if (c.bestTourLength : Int) = n.toInt then 1 else 0), rounds := c.rounds + 1 }

/-- The ants have been sent home and have walked. -/
def tours (x : Setup F) (passes : Nat) (c : Colony F) : Option (Nat → Ant) := do
  walk x c passes (← reuseAll x c.ants)

/-- The body of the outer loop, and its step. -/
def round (x : Setup F) (passes : Nat) (c : Colony F) : Option (Colony F) := do
  let ants ← tours x passes c
  some (count x.n (← record x { c with ants }))

/-- The outer loop, of at most `rounds` turns. -/
def run (x : Setup F) (passes : Nat) : Nat → Colony F → Option (Colony F)
  | 0, _ => none
  | rounds + 1, c => if (c.NC : Int) < x.nc.toInt then do run x passes rounds (← round x passes c) else some c

/-- After `k` rounds. -/
def after (x : Setup F) (passes : Nat) : Nat → Colony F → Option (Colony F)
  | 0, c => some c
  | k + 1, c => do after x passes k (← round x passes c)

/-! ## In front of the rounds and behind them -/

/-- `len[i][j]`, `eta[i][j]` and `tau[i][j]` are set. -/
def enter (code : Code F) (lengths : Nat → Nat → UInt64) (i : Nat) (t : Tables F) (j : Nat) : Option (Tables F) := do
  let i ← cell code.room i
  let j ← cell code.room j
  let length := toDouble (lengths i j).toNat
  some {
    len := Function.update t.len i (Function.update (t.len i) j length)
    eta := Function.update t.eta i (Function.update (t.eta i) j (code.d.div code.d.one (code.d.ofLength length)))
    tau := Function.update t.tau i (Function.update (t.tau i) j code.d.one) }

def enterRow (code : Code F) (e : Entered) (t : Tables F) (i : Nat) : Option (Tables F) :=
  (upTo e.n).foldlM (enter code e.lengths i) t

def enterAll (code : Code F) (e : Entered) (t : Tables F) : Option (Tables F) :=
  (upTo e.n).foldlM (enterRow code e) t

/-- `ants[i].start = random(n);` -/
def placeAnt (n : Int32) (s : Int32 × (Nat → Ant)) (i : Nat) : Option (Int32 × (Nat → Ant)) :=
  if n = 0 then none
  else
    let r := random n s.1
    some (r.1, Function.update s.2 i { s.2 i with start := r.2.toInt })

/-- `new Ant[m]`, and the start cities. -/
def placeAnts (e : Entered) (rnd : Int32) (memory : Nat → Ant) : Option (Int32 × (Nat → Ant)) :=
  if e.m.toInt < 0 then none
  else (upTo e.m).foldlM (placeAnt e.n) (rnd, fun i => (memory i).construct)

/-- The variables as they are initialized. -/
def opening (tau : Nat → Nat → F) (ants : Nat → Ant) (bestTour : Nat → Nat) : Colony F where
  tau := tau
  ants := ants
  sol := toDouble (10 ^ 100)
  bestTour := bestTour
  bestTourLength := 0
  NC := 0
  rounds := 0

/-- What is in front of the outer loop. -/
def start (code : Code F) (e : Entered) (memory : Memory F) : Option (Setup F × Colony F) := do
  let t ← enterAll code e memory.tables
  let placed ← placeAnts e memory.rnd memory.ants
  some ({ code, e with len := t.len, eta := t.eta }, opening t.tau placed.2 memory.bestTour)

/-- The cities that are printed. -/
def printed (room : Nat) (c : Colony F) : Option (List Nat) :=
  (List.range c.bestTourLength).mapM fun i : Nat => do some (c.bestTour (← cell room i) + 1)

/-- `AntTSP_Main()`, with at most `passes` turns of the inner loops and `rounds` turns of the outer one:
the variables at the end and the tour that is printed. -/
def antTSPMain (code : Code F) (e : Entered) (memory : Memory F) (passes rounds : Nat) :
    Option (Colony F × List Nat) := do
  let (x, c) ← start code e memory
  let c ← run x passes rounds c
  some (c, ← printed code.room c)

/-- The code with its own `next` and sums of doubles, and a bound. -/
def Code.source (d : Pheromones F) (n : Int32) (room : Nat) : Code F := ⟨room, d, fun _ _ => Ant.next d room n, toDouble⟩

/-! ## The start cities -/

/-- **`random(n)` is below `n`**, whatever the multiplications wrap around to. -/
theorem random_below {n : Nat} (positive : 1 ≤ n) (le : n ≤ maxN) (rnd : Int32) :
    0 ≤ (random (Int32.ofNat n) rnd).2.toInt ∧ (random (Int32.ofNat n) rnd).2.toInt < n := by
  have value : (Int32.ofNat n).toInt = n := by
    rw [Int32.toInt_ofNat', Int.bmod_eq_of_le] <;> simp only [maxN, Int32.size] at * <;> omega
  have reduced : ∀ x : Int32, ((x % Int32.ofNat n + Int32.ofNat n) % Int32.ofNat n).toInt =
      (x.toInt.tmod n + n) % n := by
    intro x
    have low : -(n : Int) < x.toInt.tmod n := Int.lt_tmod_of_pos _ (by omega)
    have high : x.toInt.tmod n < n := Int.tmod_lt_of_pos _ (by omega)
    have small : (x.toInt.tmod n + n).bmod (2 ^ 32) = x.toInt.tmod n + n := by
      apply Int.bmod_eq_of_le <;> simp only [maxN] at * <;> omega
    rw [Int32.toInt_mod, Int32.toInt_add, Int32.toInt_mod, value, small]
    exact Int.tmod_eq_emod_of_nonneg (by omega)
  simp only [random, reduced]
  exact ⟨Int.emod_nonneg _ (by omega), Int.emod_lt_of_pos _ (by omega)⟩

/-! ## The lengths -/

/-- A sum of two doubles is at most this much too long. -/
theorem toDouble_le (x : Nat) : toDouble x ≤ x + x / 2 ^ 52 := roundNearest_le 52 x

/-- Four hundred cities are far below `1e+100`. -/
theorem short_lt_sol : maxN * 2 ^ 65 < toDouble (10 ^ 100) := by decide +kernel

/-! ## What an ant keeps -/

@[simp] theorem cell_of_lt {n i : Nat} (lt : i < n) : cell n i = some i := by simp [cell, lt]

namespace Ant

variable {n : Nat} {a : Ant} {d : Pheromones F} {eta tau : Nat → Nat → F}

/-- The cities on the path. -/
def tour (a : Ant) : List Nat := firstCells a.pathLength a.path

/-- `b_can[i]` is false exactly for the cities on the path, which has no city twice. -/
def Marked (n : Nat) (a : Ant) : Prop := Arrangement n (fun i => !a.bCan i) a.tour

theorem not_update (b : Nat → Bool) (i : Nat) (x : Bool) :
    (fun j => !Function.update b i x j) = Function.update (fun j => !b j) i !x := by
  funext j
  by_cases eq : j = i
  · subst eq
    simp
  · simp [eq]

theorem construct_marked (le : n ≤ maxN) (a : Ant) : a.construct.Marked n := by
  have all := Loop.foldl_range (n := maxN) (f := fun b i => Function.update b i true)
    (P := fun k b => ∀ i, i < k → b i = true) (s := a.bCan) ?_ (by simp)
  · apply Arrangement.nil
    intro i lt
    simp [construct, all i (Nat.lt_of_lt_of_le lt le)]
  · intro k b _ h i lt
    by_cases eq : i = k
    · simp [eq]
    · rw [Function.update_of_ne eq]
      exact h i (by omega)

/-- An ant on its way: it is at home in `path[0]`, and what it has walked is no more than it can. -/
structure Walking (n : Nat) (a : Ant) : Prop where
  marked : a.Marked n
  started : 0 < a.pathLength
  home : (a.path 0 : Int) = a.start
  short : a.tLen ≤ a.pathLength * 2 ^ 65

theorem Marked.length_le (h : a.Marked n) : a.pathLength ≤ n := by
  simpa [tour] using Arrangement.length_le h

theorem Marked.below (h : a.Marked n) {k : Nat} (lt : k < a.pathLength) : a.path k < n :=
  Arrangement.below h _ (mem_firstCells.2 ⟨k, lt, rfl⟩)

/-- What the first loop of `reuse` has made of the flags after `k` turns. -/
def Released (n : Nat) (a : Ant) (k : Nat) (b : Nat → Bool) : Prop :=
  ∀ i, i < n → (b i = true ↔ a.bCan i = true ∨ i ∈ firstCells k a.path)

theorem Marked.release (h : a.Marked n) {k : Nat} {b : Nat → Bool} (lt : k < a.pathLength)
    (released : a.Released n k b) : ∃ b', a.release n b k = some b' ∧ a.Released n (k + 1) b' := by
  have inside : k < n := Nat.lt_of_lt_of_le lt h.length_le
  refine ⟨Function.update b (a.path k) true, by simp [Ant.release, inside, h.below lt], ?_⟩
  intro i below
  rw [firstCells_succ]
  by_cases eq : i = a.path k
  · simp [eq]
  · simp [eq, released i below]

/-- The first loop of `reuse` makes every city available. -/
theorem Marked.released (h : a.Marked n) :
    ∃ b, (List.range a.pathLength).foldlM (a.release n) a.bCan = some b ∧
      ∀ i, i < n → b i = true := by
  have nothing : a.Released n 0 a.bCan := fun i _ => by simp
  obtain ⟨b, run, all⟩ := Loop.foldlM_range (fun k b lt released => h.release lt released) nothing
  refine ⟨b, run, ?_⟩
  intro i lt
  rw [all i lt]
  by_cases can : a.bCan i = true
  · exact Or.inl can
  · exact Or.inr ((Arrangement.marks h i lt).1 (by simpa using can))

/-- **`reuse()`** sends the ant home. -/
theorem Marked.reuse (h : a.Marked n) (inside : 0 ≤ a.start ∧ a.start < n) :
    ∃ a', a.reuse n = some a' ∧ a'.Walking n ∧ a'.pathLength = 1 ∧ a'.start = a.start := by
  obtain ⟨b, run, all⟩ := h.released
  obtain ⟨s, hs⟩ := Int.eq_ofNat_of_zero_le inside.1
  have below : s < n := by omega
  refine ⟨{ a with
    path := Function.update a.path 0 s, pathLength := 1, bCan := Function.update b s false,
    tLen := 0 }, ?_, ⟨?_, Nat.one_pos, by simp [hs], Nat.zero_le _⟩, rfl, rfl⟩
  · have zero : cell n 0 = some 0 := cell_of_lt (i := 0) (by omega)
    simp [Ant.reuse, run, zero, hs, below]
  · have free : Arrangement n (fun i => !b i) [] := by
      apply Arrangement.nil
      intro i lt
      simp [all i lt]
    have placed := free.place below (by simp [all s below])
    simp only [Marked, tour, not_update, Bool.not_false, firstCells_update_self]
    exact placed

/-- What the loop of `next` has found among the first `k` cities. -/
def Best (a : Ant) (k : Nat) (best : Option Nat × F) : Prop :=
  (∀ i, best.1 = some i → i < k ∧ a.bCan i = true) ∧
    (best.1 = none → ∀ i, i < k → a.bCan i = false)

theorem Best.consider {s k : Nat} {best : Option Nat × F} (h : a.Best k best) (here : s < n) (lt : k < n) :
    ∃ best', a.consider d n eta tau s best k = some best' ∧ a.Best (k + 1) best' := by
  obtain ⟨found, nothing⟩ := h
  have older : ∀ i, best.1 = some i → i < k + 1 ∧ a.bCan i = true :=
    fun i eq => ⟨Nat.lt_succ_of_lt (found i eq).1, (found i eq).2⟩
  by_cases can : a.bCan k = true
  · refine ⟨_, by simp [Ant.consider, cell_of_lt lt, cell_of_lt here, can]; rfl, ?_⟩
    split
    · simp [Best, can]
    · rename_i worse
      -- the first city that is available has been taken
      have taken : best.1 ≠ none := by
        intro first
        simp [first] at worse
      exact ⟨older, fun first => absurd first taken⟩
  · refine ⟨best, by simp [Ant.consider, cell_of_lt lt, can], older, ?_⟩
    intro first i lt
    rcases Nat.lt_succ_iff_lt_or_eq.1 lt with before | rfl
    · exact nothing first i before
    · exact Bool.eq_false_iff.2 can

/-- The index of the last city on the path. -/
theorem Walking.last (h : a.Walking n) : cell n ((a.pathLength : Int) - 1) = some (a.pathLength - 1) := by
  have started := h.started
  have le := h.marked.length_le
  rw [show ((a.pathLength : Int) - 1) = ((a.pathLength - 1 : Nat) : Int) by omega]
  exact cell_of_lt (by omega)

/-- An ant that has been everywhere. -/
theorem Walking.full (h : a.Walking n) (everywhere : ∀ i, i < n → a.bCan i = false) :
    a.pathLength = n := by
  simpa [tour] using Arrangement.length_of_full h.marked (by simpa using everywhere)

theorem Walking.perm (h : a.Walking n) (everywhere : a.pathLength = n) :
    a.tour.Perm (List.range n) :=
  Arrangement.perm_of_length h.marked (by simpa [tour] using everywhere)

theorem Marked.lay (d : Pheromones F) (tau : Nat → Nat → F) {k : Nat} (h : a.Marked n) (lt : k < a.pathLength - 1) :
    ∃ tau', a.lay d n tau k = some tau' := by
  have le := h.length_le
  have there : cell n ((k : Int) + 1) = some (k + 1) := by
    rw [show (k : Int) + 1 = ((k + 1 : Nat) : Int) by omega]
    exact cell_of_lt (by omega)
  have here : cell n (k : Int) = some k := cell_of_lt (by omega)
  have src : cell n (a.path k) = some (a.path k) := cell_of_lt (h.below (by omega))
  have dst : cell n (a.path (k + 1)) = some (a.path (k + 1)) := cell_of_lt (h.below (by omega))
  simp [Ant.lay, here, there, src, dst]

/-- **`step()`** stays on the path. -/
theorem Marked.deposit (d : Pheromones F) (tau : Nat → Nat → F) (h : a.Marked n) : ∃ tau', a.deposit d n tau = some tau' := by
  obtain ⟨tau', run, -⟩ := Loop.foldlM_range (P := fun _ _ => True) (f := a.lay d n)
    (n := a.pathLength - 1) (s := tau)
    (fun k tau lt _ => (h.lay d tau lt).imp fun _ laid => ⟨laid, trivial⟩) trivial
  exact ⟨tau', run⟩

theorem Marked.copied (h : a.Marked n) (best : Nat → Nat) :
    ∃ b, (List.range a.pathLength).foldlM (a.copyCity n) best = some b ∧
      firstCells a.pathLength b = a.tour := by
  have turn : ∀ (k : Nat) (b : Nat → Nat), k < a.pathLength → firstCells k b = firstCells k a.path →
      ∃ b', a.copyCity n b k = some b' ∧ firstCells (k + 1) b' = firstCells (k + 1) a.path := by
    intro k b lt same
    have inside : k < n := Nat.lt_of_lt_of_le lt h.length_le
    refine ⟨Function.update b k (a.path k), by simp [Ant.copyCity, inside], ?_⟩
    rw [firstCells_update_self, firstCells_succ, same]
  exact Loop.foldlM_range turn rfl

end Ant

/-- The length of the first `k` cities of a path, summed up one after the other. -/
def walked (sum : Nat → Nat) (len : Nat → Nat → Nat) (path : Nat → Nat) : Nat → Nat
  | k + 2 => sum (walked sum len path (k + 1) + len (path k) (path (k + 1)))
  | _ => 0

theorem walked_congr {sum : Nat → Nat} {len : Nat → Nat → Nat} {path path' : Nat → Nat} {k : Nat}
    (same : ∀ i, i < k → path i = path' i) : walked sum len path k = walked sum len path' k := by
  induction k with
  | zero => rfl
  | succ k ih =>
    cases k with
    | zero => rfl
    | succ k =>
      have shorter := ih fun i lt => same i (Nat.lt_succ_of_lt lt)
      simp only [walked, shorter, same k (by omega), same (k + 1) (by omega)]

/-- What is asked of a choice: a city that the ant has not been to, if there is one. -/
def Lawful (room cities : Nat) (next : Next F) : Prop :=
  ∀ round i eta tau a, a.Walking room → ∃ ci, next round i eta tau a = some ci ∧
    (∀ t, ci = some t → t < cities ∧ a.bCan t = true) ∧ (ci = none → ∀ t, t < cities → a.bCan t = false)

/-- Numbers that fit, a choice that is lawful, and sums that are no more than rounded. -/
structure Fair (x : Setup F) : Prop where
  cities : 1 ≤ turns x.n
  few : turns x.n ≤ x.room
  declared : x.room ≤ maxN
  ants : 1 ≤ turns x.m
  small : turns x.m ≤ maxAnt
  lawful : Lawful x.room (turns x.n) x.next
  sums : ∀ s, x.sum s ≤ s + s / 2 ^ 52
  far : ∀ i j, i < turns x.n → j < turns x.n → x.len i j < 2 ^ 64 + 2 ^ 12

/-- An ant on its way through the cities that there are, which knows how far it has walked. -/
structure Travels (x : Setup F) (a : Ant) : Prop where
  walking : a.Walking x.room
  inside : ∀ k, k < a.pathLength → a.path k < turns x.n
  measured : a.tLen = walked x.sum x.len a.path a.pathLength

/-- What `reuse` needs. -/
structure Ready (x : Setup F) (a : Ant) : Prop where
  marked : a.Marked x.room
  inside : 0 ≤ a.start ∧ a.start < turns x.n

variable {x : Setup F} {a : Ant}

theorem Travels.ready (h : Travels x a) : Ready x a := by
  refine ⟨h.walking.marked, ?_⟩
  have below := h.inside 0 h.walking.started
  rw [← h.walking.home]
  omega

theorem reuse_tLen {a' : Ant} {n : Nat} (h : a.reuse n = some a') : a'.tLen = 0 := by
  simp only [Ant.reuse, Option.bind_eq_bind, Option.bind_eq_some_iff] at h
  obtain ⟨_, -, _, -, _, -, made⟩ := h
  cases made
  rfl

/-- **`reuse()`** sends the ant home. -/
theorem Ready.reuse (fair : Fair x) (h : Ready x a) :
    ∃ a', a.reuse x.room = some a' ∧ Travels x a' ∧ a'.pathLength = 1 := by
  have few := fair.few
  obtain ⟨low, high⟩ := h.inside
  obtain ⟨a', reused, walking, one, same⟩ := h.marked.reuse ⟨low, by omega⟩
  refine ⟨a', reused, ⟨walking, ?_, ?_⟩, one⟩
  · intro k lt
    have home := walking.home
    obtain rfl : k = 0 := by omega
    omega
  · rw [reuse_tLen reused, one]
    rfl

/-- **`next()`** is lawful. -/
theorem next_lawful (d : Pheromones F) {n : Int32} {room : Nat} (few : turns n ≤ room) :
    Lawful room (turns n) fun _ _ => Ant.next d room n := by
  intro _ _ eta tau a walking
  have started := walking.started
  have here : a.path (a.pathLength - 1) < room := walking.marked.below (by omega)
  have nothing : a.Best 0 ((none, d.zero) : Option Nat × F) := by simp [Ant.Best]
  have turn : ∀ (k : Nat) (best : Option Nat × F), k < turns n → a.Best k best →
      ∃ best', a.consider d room eta tau (a.path (a.pathLength - 1)) best k = some best' ∧ a.Best (k + 1) best' :=
    fun k best lt found => found.consider here (Nat.lt_of_lt_of_le lt few)
  obtain ⟨best, chosen, found, none⟩ := Loop.foldlM_range turn nothing
  refine ⟨best.1, ?_, found, none⟩
  simp [Ant.next, walking.last, upTo, chosen]

/-- The ant has not been to more cities than there are. -/
theorem Travels.walks (h : Travels x a) (few : turns x.n ≤ x.room) : a.Walking (turns x.n) := by
  obtain ⟨⟨marked, started, home, short⟩, inside, -⟩ := h
  refine ⟨⟨marked.nodup, ?_, fun i lt => marked.marks i (by omega)⟩, started, home, short⟩
  intro i mem
  obtain ⟨k, lt, rfl⟩ := mem_firstCells.1 mem
  exact inside k lt

/-- What `step(t)` makes of the ant. -/
theorem step_eq {t : Nat} (h : Travels x a) (few : turns x.n ≤ x.room) (room : a.pathLength < x.room)
    (below : t < turns x.n) :
    a.step x t = some { a with
      path := Function.update a.path a.pathLength t
      pathLength := a.pathLength + 1
      bCan := Function.update a.bCan t false
      tLen := x.sum (a.tLen + x.len (a.path (a.pathLength - 1)) t) } := by
  have started := h.walking.started
  have last : cell x.room (((a.pathLength + 1 : Nat) : Int) - 1) = some a.pathLength := by
    rw [show (((a.pathLength + 1 : Nat) : Int) - 1) = (a.pathLength : Int) by omega]
    exact cell_of_lt room
  have before : cell x.room (((a.pathLength + 1 : Nat) : Int) - 2) = some (a.pathLength - 1) := by
    rw [show (((a.pathLength + 1 : Nat) : Int) - 2) = ((a.pathLength - 1 : Nat) : Int) by omega]
    exact cell_of_lt (by omega)
  have source : Function.update a.path a.pathLength t (a.pathLength - 1) =
      a.path (a.pathLength - 1) := Function.update_of_ne (by omega) _ _
  have city : cell x.room t = some t := cell_of_lt (by omega)
  have from' : cell x.room (a.path (a.pathLength - 1)) = some (a.path (a.pathLength - 1)) := by
    apply cell_of_lt
    exact Nat.lt_of_lt_of_le (h.inside _ (by omega)) few
  simp only [Ant.step, last, before, cell_of_lt room, city]
  simp [source, from', city]

/-- **`step(t)`** for a city the ant has not been to. -/
theorem Travels.step {t : Nat} (h : Travels x a) (fair : Fair x) (below : t < turns x.n) (can : a.bCan t = true) :
    ∃ a', a.step x t = some a' ∧ Travels x a' ∧ a'.pathLength = a.pathLength + 1 := by
  have started := h.walking.started
  have few := fair.few
  have placed := Arrangement.place h.walking.marked (i := t) (by omega) (by simp [can])
  have room : a.pathLength + 1 ≤ x.room := by simpa [Ant.tour] using placed.length_le
  have before : ∀ k, k < a.pathLength → Function.update a.path a.pathLength t k = a.path k :=
    fun k lt => Function.update_of_ne (by omega) _ _
  refine ⟨_, step_eq h few room below, ⟨⟨?_, Nat.succ_pos _, ?_, ?_⟩, ?_, ?_⟩, rfl⟩
  · simp only [Ant.Marked, Ant.tour, Ant.not_update, Bool.not_false, firstCells_update_self]
    exact placed
  · simp only [before 0 started]
    exact h.walking.home
  · have far := fair.far _ t (h.inside (a.pathLength - 1) (by omega)) below
    have rounded := fair.sums (a.tLen + x.len (a.path (a.pathLength - 1)) t)
    have short := h.walking.short
    have declared := fair.declared
    simp only [maxN] at declared
    simp only
    omega
  · intro k lt
    rcases Nat.lt_succ_iff_lt_or_eq.1 lt with old | rfl
    · simp only [before k old]
      exact h.inside k old
    · simp only [Function.update_self]
      exact below
  · obtain ⟨k, length⟩ : ∃ k, a.pathLength = k + 1 := ⟨a.pathLength - 1, by omega⟩
    have soFar := h.measured
    have same : walked x.sum x.len (Function.update a.path a.pathLength t) a.pathLength =
        walked x.sum x.len a.path a.pathLength := walked_congr before
    simp only [length, walked, Nat.add_sub_cancel] at *
    rw [same, ← soFar, Function.update_self, before k (Nat.lt_succ_self k)]

end Lavoro.AntTSP
