import Lavoro.Packages.AntBounds

/-!
# The rounds (`packages/AntTSP/AntTSP.cpp`)

The rounds of `AntTSP_Main` where its numbers fit: the ants are sent home, walk until there is nowhere
to go, and the shortest tour so far is kept with its length. `Settled.round` is what one round does,
`Settled.run` what all of them do. With the number of cities as the bound they say that every ant builds a permutation of
the cities, whatever the pheromones are.
-/

namespace Lavoro.AntTSP
open Lib

variable {F : Type} {x : Setup F} {c : Colony F}

/-! ## The loops over the ants -/

/-- The first `k` ants have become what `Q` says, and the others are what they were. -/
structure Swept (Q : Ant → Ant → Prop) (ants : Nat → Ant) (k : Nat) (ants' : Nat → Ant) : Prop where
  done : ∀ i, i < k → Q (ants i) (ants' i)
  left : ∀ i, k ≤ i → ants' i = ants i

theorem Swept.nothing {Q : Ant → Ant → Prop} {ants : Nat → Ant} : Swept Q ants 0 ants :=
  ⟨fun i lt => absurd lt (Nat.not_lt_zero i), fun _ _ => rfl⟩

theorem Swept.next {Q : Ant → Ant → Prop} {ants ants' : Nat → Ant} {k : Nat} {a : Ant}
    (h : Swept Q ants k ants') (new : Q (ants k) a) :
    Swept Q ants (k + 1) (Function.update ants' k a) := by
  refine ⟨?_, ?_⟩
  · intro i lt
    by_cases eq : i = k
    · subst eq
      simpa using new
    · rw [Function.update_of_ne eq]
      exact h.done i (by omega)
  · intro i le
    rw [Function.update_of_ne (by omega)]
    exact h.left i (by omega)

/-- All ants have walked to `L` cities. -/
def Abroad (x : Setup F) (L : Nat) (ants : Nat → Ant) : Prop :=
  ∀ i, i < turns x.m → Travels x (ants i) ∧ (ants i).pathLength = L

/-- An ant has come to `L` cities. -/
def Came (x : Setup F) (L : Nat) (_ a' : Ant) : Prop := Travels x a' ∧ a'.pathLength = L

theorem reuseAll_home (fair : Fair x) {ants : Nat → Ant} (ready : ∀ i, i < turns x.m → Ready x (ants i)) :
    ∃ r, reuseAll x ants = some r ∧ Abroad x 1 r := by
  have turn : ∀ (k : Nat) (ants' : Nat → Ant), k < turns x.m → Swept (Came x 1) ants k ants' →
      ∃ r, reuseOne x.room ants' k = some r ∧ Swept (Came x 1) ants (k + 1) r := by
    intro k ants' lt swept
    obtain ⟨a, reused, travels, one⟩ := (ready k lt).reuse fair
    refine ⟨Function.update ants' k a, ?_, swept.next ⟨travels, one⟩⟩
    simp [reuseOne, swept.left k (Nat.le_refl k), reused]
  obtain ⟨r, run, swept⟩ := Loop.foldlM_range turn Swept.nothing
  exact ⟨r, run, swept.done⟩

/-- **A pass** takes every ant one city on, while there is one left. -/
theorem pass_on (fair : Fair x) (c : Colony F) {ants : Nat → Ant} {L : Nat} (abroad : Abroad x L ants)
    (short : L < turns x.n) : ∃ r, pass x c ants = some (true, r) ∧ Abroad x (L + 1) r := by
  have turn : ∀ (k : Nat) (s : Bool × (Nat → Ant)), k < turns x.m →
      (0 < k → s.1 = true) ∧ Swept (Came x (L + 1)) ants k s.2 → ∃ s', decideOne x c s k = some s' ∧
        (0 < k + 1 → s'.1 = true) ∧ Swept (Came x (L + 1)) ants (k + 1) s'.2 := by
    intro k s lt ⟨_, swept⟩
    obtain ⟨travels, length⟩ := abroad k lt
    have dec : cell maxAnt k = some k := cell_of_lt (Nat.lt_of_lt_of_le lt fair.small)
    obtain ⟨ci, chosen, found, nothing⟩ := fair.lawful c.rounds k x.eta c.tau (ants k) travels.walking
    cases ci with
    | none =>
      have full := (travels.walks fair.few).full (nothing rfl)
      omega
    | some t =>
      obtain ⟨below, can⟩ := found t rfl
      obtain ⟨a, stepped, travels', longer⟩ := travels.step fair below can
      have came : Came x (L + 1) (ants k) a := ⟨travels', by rw [longer, length]⟩
      refine ⟨(true, Function.update s.2 k a), ?_, fun _ => rfl, swept.next came⟩
      simp [decideOne, dec, swept.left k (Nat.le_refl k), chosen, stepped]
  have start : (0 < 0 → (false, ants).1 = true) ∧ Swept (Came x (L + 1)) ants 0 (false, ants).2 :=
    ⟨fun lt => absurd lt (Nat.lt_irrefl 0), Swept.nothing⟩
  obtain ⟨⟨ok, r⟩, run, moved, swept⟩ := Loop.foldlM_range turn start
  obtain rfl : ok = true := moved fair.ants
  exact ⟨r, run, swept.done⟩

/-- There is nowhere to go for any ant. -/
theorem pass_done (fair : Fair x) (c : Colony F) {ants : Nat → Ant} (abroad : Abroad x (turns x.n) ants) :
    pass x c ants = some (false, ants) := by
  have turn : ∀ (k : Nat) (s : Bool × (Nat → Ant)), k < turns x.m → s = (false, ants) →
      ∃ s', decideOne x c s k = some s' ∧ s' = (false, ants) := by
    rintro k _ lt rfl
    obtain ⟨travels, everywhere⟩ := abroad k lt
    have dec : cell maxAnt k = some k := cell_of_lt (Nat.lt_of_lt_of_le lt fair.small)
    obtain ⟨ci, chosen, found, -⟩ := fair.lawful c.rounds k x.eta c.tau (ants k) travels.walking
    refine ⟨_, ?_, rfl⟩
    cases ci with
    | none => simp [decideOne, dec, chosen]
    | some t =>
      -- one more city would make the path longer than there are cities
      obtain ⟨below, can⟩ := found t rfl
      obtain ⟨a, -, travels', longer⟩ := travels.step fair below can
      have le := (travels'.walks fair.few).marked.length_le
      omega
  obtain ⟨s, run, rfl⟩ := Loop.foldlM_range turn rfl
  exact run

/-- **The inner loop** ends, with every ant everywhere. -/
theorem walk_tours (fair : Fair x) (c : Colony F) {ants : Nat → Ant} {L passes : Nat} (abroad : Abroad x L ants)
    (short : L ≤ turns x.n) (enough : turns x.n < passes + L) :
    ∃ w, walk x c passes ants = some w ∧ Abroad x (turns x.n) w := by
  induction passes generalizing ants L with
  | zero => omega
  | succ passes ih =>
    by_cases done : L = turns x.n
    · subst done
      refine ⟨ants, ?_, abroad⟩
      simp [walk, pass_done fair c abroad]
    · obtain ⟨r, passed, further⟩ := pass_on fair c abroad (by omega)
      obtain ⟨w, walked, tours⟩ := ih further (by omega) (by omega)
      refine ⟨w, ?_, tours⟩
      simp [walk, passed, walked]

/-! ## The best tour -/

/-- A complete tour has been kept, and its length. -/
structure Kept (x : Setup F) (c : Colony F) : Prop where
  length : c.bestTourLength = turns x.n
  perm : (firstCells (turns x.n) c.bestTour).Perm (List.range (turns x.n))
  sol : c.sol = walked x.sum x.len c.bestTour (turns x.n)

/-- Either a tour has been kept or any tour will be. -/
def Open (x : Setup F) (c : Colony F) : Prop :=
  Kept x c ∨ c.sol = toDouble (10 ^ 100) ∧ c.bestTourLength = 0

theorem turns_eq {n : Int32} (some' : 1 ≤ turns n) : (turns n : Int) = n.toInt := by
  unfold turns at *
  omega

/-- What the last loop of a round leaves alone. -/
structure Colony.SameRound (c c' : Colony F) : Prop where
  ants : c'.ants = c.ants
  NC : c'.NC = c.NC
  rounds : c'.rounds = c.rounds

theorem Open.length_le (h : Open x c) (few : turns x.n ≤ x.room) : c.bestTourLength ≤ x.room := by
  rcases h with kept | ⟨-, nothing⟩
  · rw [kept.length]
    exact few
  · rw [nothing]
    exact Nat.zero_le x.room

/-- **A complete tour** is kept, or one has been before that is no longer. -/
theorem compare_keeps (fair : Fair x) {c : Colony F} {a : Ant} (travels : Travels x a)
    (everywhere : a.pathLength = turns x.n) (h : Open x c) :
    ∃ c', compare x c a = some c' ∧ Kept x c' ∧ c'.sol ≤ c.sol ∧ c'.sol ≤ a.tLen ∧ c.SameRound c' := by
  have complete : (a.pathLength : Int) = x.n.toInt := by rw [everywhere, turns_eq fair.cities]
  unfold compare
  by_cases shorter : a.tLen < c.sol
  · obtain ⟨b, copied, tour⟩ := travels.walking.marked.copied c.bestTour
    rw [if_pos ⟨complete, shorter⟩]
    refine ⟨{ c with sol := a.tLen, bestTourLength := a.pathLength, bestTour := b }, ?_, ⟨everywhere, ?_, ?_⟩,
      Nat.le_of_lt shorter, Nat.le_refl _, ⟨rfl, rfl, rfl⟩⟩
    · simp [copied]
    · have walks := travels.walks fair.few
      rw [← everywhere, tour, everywhere]
      exact walks.perm everywhere
    · have same : ∀ i, i < a.pathLength → a.path i = b i := by
        intro i lt
        exact (List.map_inj_left.1 tour i (List.mem_range.2 lt)).symm
      show a.tLen = walked x.sum x.len b (turns x.n)
      rw [travels.measured, ← everywhere]
      exact walked_congr same
  · rw [if_neg fun both => shorter both.2]
    refine ⟨c, rfl, ?_, Nat.le_refl _, Nat.le_of_not_lt shorter, ⟨rfl, rfl, rfl⟩⟩
    rcases h with kept | ⟨untouched, -⟩
    · exact kept
    · -- no tour is as long as `1e+100`
      have short := travels.walking.short
      have few := fair.few
      have declared := fair.declared
      have huge := short_lt_sol
      rw [untouched] at shorter
      simp only [maxN] at declared huge
      omega

theorem finish_keeps (fair : Fair x) {c : Colony F} {i : Nat} (travels : Travels x (c.ants i))
    (everywhere : (c.ants i).pathLength = turns x.n) (h : Open x c) :
    ∃ c', finish x c i = some c' ∧ Kept x c' ∧ c'.sol ≤ c.sol ∧ c'.sol ≤ (c.ants i).tLen ∧ c.SameRound c' := by
  obtain ⟨tau, laid⟩ := travels.walking.marked.deposit x.d c.tau
  have unmoved : Open x { c with tau } := h.imp_left fun kept => ⟨kept.length, kept.perm, kept.sol⟩
  obtain ⟨c', compared, kept, less, lessTour, same⟩ := compare_keeps fair travels everywhere unmoved
  exact ⟨c', by simp [finish, laid, compared], kept, less, lessTour, same.ants, same.NC, same.rounds⟩

/-- **The last loop of a round** keeps the shortest tour. -/
theorem record_keeps (fair : Fair x) {c : Colony F} (abroad : Abroad x (turns x.n) c.ants) (h : Open x c) :
    ∃ c', record x c = some c' ∧ Kept x c' ∧ c'.sol ≤ c.sol ∧
      (∀ i, i < turns x.m → c'.sol ≤ (c.ants i).tLen) ∧ c.SameRound c' := by
  have turn : ∀ (k : Nat) (c' : Colony F), k < turns x.m →
      (Open x c' ∧ (0 < k → Kept x c') ∧ c'.sol ≤ c.sol ∧ (∀ i, i < k → c'.sol ≤ (c.ants i).tLen) ∧ c.SameRound c') →
      ∃ c'', finish x c' k = some c'' ∧ Open x c'' ∧ (0 < k + 1 → Kept x c'') ∧ c''.sol ≤ c.sol ∧
        (∀ i, i < k + 1 → c''.sol ≤ (c.ants i).tLen) ∧ c.SameRound c'' := by
    rintro k c' lt ⟨isOpen, -, less, all, same⟩
    obtain ⟨travels, everywhere⟩ := abroad k lt
    rw [← same.ants] at travels everywhere
    obtain ⟨c'', finished, kept, less', lessTour, same'⟩ := finish_keeps fair travels everywhere isOpen
    rw [same.ants] at lessTour
    refine ⟨c'', finished, .inl kept, fun _ => kept, Nat.le_trans less' less, ?_, same'.ants.trans same.ants,
      same'.NC.trans same.NC, same'.rounds.trans same.rounds⟩
    intro i earlier
    rcases Nat.lt_succ_iff_lt_or_eq.1 earlier with before | rfl
    · exact Nat.le_trans less' (all i before)
    · exact lessTour
  have nothing : ∀ i, i < 0 → c.sol ≤ (c.ants i).tLen := fun i lt => absurd lt (Nat.not_lt_zero i)
  obtain ⟨c', run, -, kept, less, all, same⟩ := Loop.foldlM_range turn
    ⟨h, fun lt => absurd lt (Nat.lt_irrefl 0), Nat.le_refl _, nothing, rfl, rfl, rfl⟩
  exact ⟨c', run, kept fair.ants, less, all, same⟩

/-! ## The rounds -/

/-- Between two rounds. -/
structure Settled (x : Setup F) (c : Colony F) : Prop where
  ready : ∀ i, i < turns x.m → Ready x (c.ants i)
  isOpen : Open x c

/-- The tours of a round, none of which is shorter than `sol`. -/
def Beaten (x : Setup F) (sol : Nat) (w : Nat → Ant) : Prop :=
  ∀ i, i < turns x.m → Travels x (w i) ∧ (w i).pathLength = turns x.n ∧ sol ≤ (w i).tLen

theorem Beaten.mono {sol sol' : Nat} {w : Nat → Ant} (h : Beaten x sol w) (le : sol' ≤ sol) : Beaten x sol' w := by
  intro i lt
  obtain ⟨travels, everywhere, less⟩ := h i lt
  exact ⟨travels, everywhere, Nat.le_trans le less⟩

/-- **A round** has every ant complete a tour, and is counted. -/
theorem Settled.round (fair : Fair x) {c : Colony F} (h : Settled x c) :
    ∃ w c', tours x (turns x.n) c = some w ∧ round x (turns x.n) c = some c' ∧ Settled x c' ∧ Kept x c' ∧
      c'.NC = c.NC + 1 ∧ c'.rounds = c.rounds + 1 ∧ c'.sol ≤ c.sol ∧ Beaten x c'.sol w := by
  obtain ⟨r, reused, home⟩ := reuseAll_home fair h.ready
  obtain ⟨w, walked, abroad⟩ := walk_tours fair c home fair.cities (Nat.lt_succ_self (turns x.n))
  have went : tours x (turns x.n) c = some w := by simp [tours, reused, walked]
  have unmoved : Open x { c with ants := w } := h.isOpen.imp_left fun kept => ⟨kept.length, kept.perm, kept.sol⟩
  obtain ⟨c', recorded, kept, less, all, same⟩ := record_keeps fair abroad unmoved
  have complete : (c'.bestTourLength : Int) = x.n.toInt := by rw [kept.length, turns_eq fair.cities]
  refine ⟨w, count x.n c', went, by simp [AntTSP.round, went, recorded], ⟨?_, .inl ⟨kept.length, kept.perm, kept.sol⟩⟩,
    ⟨kept.length, kept.perm, kept.sol⟩, ?_, ?_, less, ?_⟩
  · intro i lt
    show Ready x (c'.ants i)
    rw [same.ants]
    exact (abroad i lt).1.ready
  · show c'.NC + (if (c'.bestTourLength : Int) = x.n.toInt then 1 else 0) = c.NC + 1
    rw [if_pos complete, same.NC]
  · show c'.rounds + 1 = c.rounds + 1
    rw [same.rounds]
  · exact fun i lt => ⟨(abroad i lt).1, (abroad i lt).2, all i lt⟩

/-- **The outer loop** ends after `nc` rounds, with the shortest of all the tours. -/
theorem Settled.run (fair : Fair x) {c : Colony F} (h : Settled x c) {left : Nat}
    (rounds : turns x.nc = c.NC + left) :
    ∃ c', run x (turns x.n) (left + 1) c = some c' ∧ Open x c' ∧ (0 < left ∨ Kept x c → Kept x c') ∧
      c'.rounds = c.rounds + left ∧ c'.sol ≤ c.sol ∧ ∀ k, k < left → ∃ ck w, after x (turns x.n) k c = some ck ∧ tours x (turns x.n) ck = some w ∧
        Beaten x c'.sol w := by
  induction left generalizing c with
  | zero =>
    have done : ¬ (c.NC : Int) < x.nc.toInt := by
      unfold turns at rounds
      omega
    refine ⟨c, if_neg done, h.isOpen, ?_, rfl, Nat.le_refl _, fun k lt => absurd lt (Nat.not_lt_zero k)⟩
    exact fun had => had.resolve_left (Nat.lt_irrefl 0)
  | succ left ih =>
    have more : (c.NC : Int) < x.nc.toInt := by
      unfold turns at rounds
      omega
    obtain ⟨w, c₁, went, rounded, settled, kept, counted, once, less, beaten⟩ := h.round fair
    obtain ⟨c', run, isOpen, keeps, others, less', all⟩ := ih settled (by omega)
    refine ⟨c', ?_, isOpen, fun _ => keeps (.inr kept), by omega, Nat.le_trans less' less, ?_⟩
    · unfold AntTSP.run
      simp [more, rounded, run]
    · intro k lt
      cases k with
      | zero => exact ⟨c, w, rfl, went, beaten.mono less'⟩
      | succ k =>
        obtain ⟨ck, w', reached, went', beaten'⟩ := all k (Nat.lt_of_succ_lt_succ lt)
        exact ⟨ck, w', by simp [after, rounded, reached], went', beaten'⟩

/-- After any number of rounds. -/
theorem Settled.after (fair : Fair x) {c : Colony F} (h : Settled x c) (k : Nat) :
    ∃ c', after x (turns x.n) k c = some c' ∧ Settled x c' := by
  induction k generalizing c with
  | zero => exact ⟨c, rfl, h⟩
  | succ k ih =>
    obtain ⟨-, c₁, -, rounded, settled, -⟩ := h.round fair
    obtain ⟨c', reached, settled'⟩ := ih settled
    exact ⟨c', by simp [AntTSP.after, rounded, reached], settled'⟩

/-! ## In front of the rounds and behind them -/

/-- What the tables have for two cities. -/
structure IsEntered (d : Pheromones F) (lengths : Nat → Nat → UInt64) (t : Tables F) (i j : Nat) : Prop where
  len : t.len i j = toDouble (lengths i j).toNat
  eta : t.eta i j = d.div d.one (d.ofLength (toDouble (lengths i j).toNat))
  tau : t.tau i j = d.one

structure SameAt (t t' : Tables F) (i j : Nat) : Prop where
  len : t'.len i j = t.len i j
  eta : t'.eta i j = t.eta i j
  tau : t'.tau i j = t.tau i j

variable {d : Pheromones F} {code : Code F} {lengths : Nat → Nat → UInt64} {t t' : Tables F} {e : Entered}

theorem IsEntered.same {i j : Nat} (h : IsEntered d lengths t i j) (same : SameAt t t' i j) :
    IsEntered d lengths t' i j :=
  ⟨same.len.trans h.len, same.eta.trans h.eta, same.tau.trans h.tau⟩

/-- One length. -/
theorem enter_spec (code : Code F) (lengths : Nat → Nat → UInt64) (t : Tables F) {i j : Nat} (row : i < code.room)
    (column : j < code.room) : ∃ t', enter code lengths i t j = some t' ∧ IsEntered code.d lengths t' i j ∧
      ∀ i' j', i' ≠ i ∨ j' ≠ j → SameAt t t' i' j' := by
  refine ⟨_, by simp [enter, row, column]; rfl, ⟨by simp, by simp, by simp⟩, ?_⟩
  intro i' j' other
  by_cases eq : i' = i
  · subst eq
    have other' : j' ≠ j := other.resolve_left (not_not.2 rfl)
    constructor <;> simp [other']
  · constructor <;> simp [eq]

theorem enterRow_entered (few : turns e.n ≤ code.room) (t : Tables F) {i : Nat} (lt : i < turns e.n) :
    ∃ t', enterRow code e t i = some t' ∧ (∀ j, j < turns e.n → IsEntered code.d e.lengths t' i j) ∧
      ∀ i' j, i' ≠ i → SameAt t t' i' j := by
  have turn : ∀ (k : Nat) (s : Tables F), k < turns e.n →
      ((∀ j, j < k → IsEntered code.d e.lengths s i j) ∧ ∀ i' j, i' ≠ i → SameAt t s i' j) →
      ∃ s', enter code e.lengths i s k = some s' ∧ (∀ j, j < k + 1 → IsEntered code.d e.lengths s' i j) ∧
        ∀ i' j, i' ≠ i → SameAt t s' i' j := by
    rintro k s below ⟨done, others⟩
    obtain ⟨s', entered, new, same⟩ :=
      enter_spec code e.lengths s (Nat.lt_of_lt_of_le lt few) (Nat.lt_of_lt_of_le below few)
    refine ⟨s', entered, ?_, ?_⟩
    · intro j earlier
      rcases Nat.lt_succ_iff_lt_or_eq.1 earlier with before | rfl
      · exact (done j before).same (same i j (.inr (Nat.ne_of_lt before)))
      · exact new
    · intro i' j other
      have old := others i' j other
      have kept := same i' j (.inl other)
      exact ⟨kept.len.trans old.len, kept.eta.trans old.eta, kept.tau.trans old.tau⟩
  exact Loop.foldlM_range turn ⟨fun j none => absurd none (Nat.not_lt_zero j), fun _ _ _ => ⟨rfl, rfl, rfl⟩⟩

/-- The tables hold what has been entered. -/
theorem enterAll_entered (code : Code F) (few : turns e.n ≤ code.room) (t : Tables F) :
    ∃ t', enterAll code e t = some t' ∧ ∀ i, i < turns e.n → ∀ j, j < turns e.n → IsEntered code.d e.lengths t' i j := by
  have turn : ∀ (k : Nat) (s : Tables F), k < turns e.n →
      (∀ i, i < k → ∀ j, j < turns e.n → IsEntered code.d e.lengths s i j) →
      ∃ s', enterRow code e s k = some s' ∧ ∀ i, i < k + 1 → ∀ j, j < turns e.n → IsEntered code.d e.lengths s' i j := by
    intro k s below done
    obtain ⟨s', entered, row, others⟩ := enterRow_entered few s below
    refine ⟨s', entered, fun i earlier j inside => ?_⟩
    rcases Nat.lt_succ_iff_lt_or_eq.1 earlier with before | rfl
    · exact (done i before j inside).same (others i j (Nat.ne_of_lt before))
    · exact row j inside
  exact Loop.foldlM_range turn fun i none => absurd none (Nat.not_lt_zero i)

theorem ofNat_turns {n : Int32} (some' : 1 ≤ turns n) (few : turns n ≤ maxN) : Int32.ofNat (turns n) = n := by
  apply Int32.toInt_inj.1
  have value := turns_eq some'
  rw [Int32.toInt_ofNat', Int.bmod_eq_of_le] <;> simp only [maxN, Int32.size] at * <;> omega

theorem random_inside {n : Int32} (some' : 1 ≤ turns n) (few : turns n ≤ maxN) (rnd : Int32) :
    0 ≤ (random n rnd).2.toInt ∧ (random n rnd).2.toInt < turns n := by
  have below := random_below some' few rnd
  rwa [ofNat_turns some' few] at below

/-- Every ant is on its start city, with all cities available. -/
theorem placeAnts_ready {e : Entered} {room : Nat} (some' : 1 ≤ turns e.n) (few : turns e.n ≤ room) (declared : room ≤ maxN)
    (whole : 0 ≤ e.m.toInt) (rnd : Int32) (memory : Nat → Ant) :
    ∃ placed, placeAnts e rnd memory = some placed ∧ ∀ i, i < turns e.m → (placed.2 i).Marked room ∧
      0 ≤ (placed.2 i).start ∧ (placed.2 i).start < turns e.n := by
  have nonzero : e.n ≠ 0 := by
    intro zero
    rw [zero] at some'
    exact absurd some' (by decide)
  have turn : ∀ (k : Nat) (s : Int32 × (Nat → Ant)), k < turns e.m →
      ((∀ i, (s.2 i).Marked room) ∧ ∀ i, i < k → 0 ≤ (s.2 i).start ∧ (s.2 i).start < turns e.n) →
      ∃ s', placeAnt e.n s k = some s' ∧ (∀ i, (s'.2 i).Marked room) ∧
        ∀ i, i < k + 1 → 0 ≤ (s'.2 i).start ∧ (s'.2 i).start < turns e.n := by
    rintro k s - ⟨marked, inside⟩
    refine ⟨_, if_neg nonzero, ?_, ?_⟩
    · apply (Function.forall_update_iff s.2 fun _ a => a.Marked room).2
      exact ⟨marked k, fun i _ => marked i⟩
    · apply (Function.forall_update_iff s.2 fun i a => i < k + 1 → 0 ≤ a.start ∧ a.start < turns e.n).2
      exact ⟨fun _ => random_inside some' (Nat.le_trans few declared) s.1, fun i other earlier => inside i (by omega)⟩
  have built : ∀ i, ((memory i).construct).Marked room := fun i => Ant.construct_marked declared _
  obtain ⟨placed, run, marked, inside⟩ := Loop.foldlM_range turn
    (s := (rnd, fun i => (memory i).construct)) ⟨built, fun i none => absurd none (Nat.not_lt_zero i)⟩
  exact ⟨placed, (if_neg (Int.not_lt.2 whole)).trans run, fun i lt => ⟨marked i, inside i lt⟩⟩

theorem start_eq {code : Code F} {e : Entered} {memory : Memory F} {t : Tables F} {placed : Int32 × (Nat → Ant)}
    (entered : enterAll code e memory.tables = some t)
    (places : placeAnts e memory.rnd memory.ants = some placed) :
    start code e memory =
      some ({ code, e with len := t.len, eta := t.eta }, opening t.tau placed.2 memory.bestTour) := by
  simp only [start, entered, places, Option.bind_eq_bind, Option.bind_some]

/-- **In front of the outer loop.** -/
theorem start_settled (code : Code F) {e : Entered} (some' : 1 ≤ turns e.n) (few : turns e.n ≤ code.room)
    (declared : code.room ≤ maxN) (whole : 0 ≤ e.m.toInt) (memory : Memory F) :
    ∃ x c, start code e memory = some (x, c) ∧ x.toCode = code ∧ x.toEntered = e ∧
      (∀ i, i < turns e.n → ∀ j, j < turns e.n → x.len i j = toDouble (e.lengths i j).toNat) ∧
      Settled x c ∧ c.NC = 0 ∧ c.rounds = 0 := by
  obtain ⟨t, entered, table⟩ := enterAll_entered code few memory.tables
  obtain ⟨placed, places, ready⟩ := placeAnts_ready some' few declared whole memory.rnd memory.ants
  refine ⟨_, _, start_eq entered places, rfl, rfl, fun i lt j lt' => (table i lt j lt').len, ⟨?_, ?_⟩, rfl, rfl⟩
  · exact fun i lt => ⟨(ready i lt).1, (ready i lt).2⟩
  · right
    simp only [opening, and_self]

/-- Numbers that fit, in a run of the code. -/
theorem fair_of_start {x : Setup F} (some' : 1 ≤ turns x.n) (few : turns x.n ≤ x.room) (declared : x.room ≤ maxN)
    (ants : 1 ≤ turns x.m) (small : turns x.m ≤ maxAnt) (lawful : Lawful x.room (turns x.n) x.next) (sums : ∀ s, x.sum s ≤ s + s / 2 ^ 52)
    (lengths : ∀ i, i < turns x.n → ∀ j, j < turns x.n → x.len i j = toDouble (x.lengths i j).toNat) :
    Fair x := by
  refine ⟨some', few, declared, ants, small, lawful, sums, fun i j lt lt' => ?_⟩
  have entered := (x.lengths i j).toNat_lt
  have rounded := toDouble_le (x.lengths i j).toNat
  rw [lengths i lt j lt']
  omega

/-- The tour is printed, whatever it is. -/
theorem printed_eq {c : Colony F} {room : Nat} (le : c.bestTourLength ≤ room) :
    printed room c = some ((firstCells c.bestTourLength c.bestTour).map (· + 1)) := by
  have each : ∀ cities : List Nat, (∀ i ∈ cities, i < room) →
      (cities.mapM fun i : Nat => do some (c.bestTour (← cell room i) + 1)) =
        some ((cities.map c.bestTour).map (· + 1)) := by
    intro cities inside
    induction cities with
    | nil => rfl
    | cons i cities ih =>
      have later := ih fun j mem => inside j (List.mem_cons_of_mem i mem)
      have here : cell room i = some i := cell_of_lt (inside i List.mem_cons_self)
      simp only [List.mapM_cons, here, later]
      rfl
  exact each (List.range c.bestTourLength) fun i mem => Nat.lt_of_lt_of_le (List.mem_range.1 mem) le

theorem antTSPMain_eq {code : Code F} {e : Entered} {memory : Memory F} {x : Setup F} {c c' : Colony F}
    {passes rounds : Nat} (started : start code e memory = some (x, c)) (ends : run x passes rounds c = some c')
    (length : c'.bestTourLength ≤ code.room) :
    antTSPMain code e memory passes rounds =
      some (c', (firstCells c'.bestTourLength c'.bestTour).map (· + 1)) := by
  simp only [antTSPMain, started, ends, printed_eq length, Option.bind_eq_bind, Option.bind_some]

/-! ## The tours -/

/-- A run of the code, held against a bound that has room for the cities. -/
theorem fair_source {d : Pheromones F} {room : Nat} (code : x.toCode = Code.source d x.n room) (some' : 1 ≤ turns x.n)
    (few : turns x.n ≤ room) (declared : room ≤ maxN) (ants : 1 ≤ turns x.m) (small : turns x.m ≤ maxAnt)
    (lengths : ∀ i, i < turns x.n → ∀ j, j < turns x.n → x.len i j = toDouble (x.lengths i j).toNat) : Fair x := by
  obtain rfl : x.room = room := congrArg Code.room code
  apply fair_of_start some' few declared ants small ?_ ?_ lengths
  · rw [show x.next = fun _ _ => Ant.next d x.room x.n from congrArg Code.next code]
    exact next_lawful d few
  · rw [show x.sum = toDouble from congrArg Code.sum code]
    exact toDouble_le

/-- **Every ant builds a permutation.** In every round `reuse` sends all ants home with the flags
set right, the inner loop ends with every ant everywhere, and behind `nc` rounds a tour has been
kept. All of it is with the number of cities as the bound, so that no index into `path` or `b_can` fails to be below it,
and with `max_n` the result is the same. -/
theorem ants_build_permutations (d : Pheromones F) (e : Entered) (memory : Memory F)
    (hn : 1 ≤ e.n.toInt ∧ e.n.toInt ≤ 400) (hm : 1 ≤ e.m.toInt ∧ e.m.toInt ≤ 200) :
    ∃ x c₀ c tour, start (Code.source d e.n (turns e.n)) e memory = some (x, c₀) ∧
      (∀ k, k < turns e.nc → ∃ ck r w, after x (turns e.n) k c₀ = some ck ∧ reuseAll x ck.ants = some r ∧
        (∀ i, i < turns e.m → ∀ j, j < turns e.n → ((r i).bCan j = false ↔ j ∈ (r i).tour)) ∧
        walk x ck (turns e.n) r = some w ∧
        ∀ i, i < turns e.m → (w i).tour.Perm (List.range (turns e.n)) ∧ ((w i).path 0 : Int) = (w i).start) ∧
      antTSPMain (Code.source d e.n (turns e.n)) e memory (turns e.n) (turns e.nc + 1) = some (c, tour) ∧
      antTSPMain (Code.source d e.n maxN) e memory (turns e.n) (turns e.nc + 1) = some (c, tour) ∧
      c.rounds = turns e.nc ∧
      (0 < turns e.nc → c.bestTourLength = turns e.n ∧ (firstCells (turns e.n) c.bestTour).Perm (List.range (turns e.n))) := by
  have some' : 1 ≤ turns e.n := by unfold turns; omega
  have declared : turns e.n ≤ maxN := by unfold turns maxN; omega
  have ants : 1 ≤ turns e.m := by unfold turns; omega
  have small : turns e.m ≤ maxAnt := by unfold turns maxAnt; omega
  obtain ⟨x, c₀, started, code, rfl, lengths, settled, zero, none⟩ :=
    start_settled (Code.source d e.n (turns e.n)) some' (Nat.le_refl _) declared (by omega) memory
  have fair : Fair x := fair_source code some' (Nat.le_refl _) declared ants small lengths
  have bound : x.room = turns x.n := congrArg Code.room code
  have all : turns x.nc = c₀.NC + turns x.nc := by rw [zero, Nat.zero_add]
  obtain ⟨c, runs, isOpen, keeps, rounds, -, -⟩ := settled.run fair all
  have out := antTSPMain_eq started runs (bound ▸ isOpen.length_le fair.few)
  refine ⟨x, c₀, c, _, started, ?_, out, (Code.source_wider d x.n declared).antTSPMain out, ?_, ?_⟩
  · intro k _
    obtain ⟨ck, reached, settled'⟩ := settled.after fair k
    obtain ⟨r, reused, home⟩ := reuseAll_home fair settled'.ready
    obtain ⟨w, walked, abroad⟩ := walk_tours fair ck home fair.cities (Nat.lt_succ_self (turns x.n))
    refine ⟨ck, r, w, reached, reused, ?_, walked, ?_⟩
    · intro i lt j below
      simpa using (home i lt).1.walking.marked.marks j (bound ▸ below)
    · intro i lt
      obtain ⟨travels, everywhere⟩ := abroad i lt
      exact ⟨(travels.walks fair.few).perm everywhere, travels.walking.home⟩
  · rw [rounds, none, Nat.zero_add]
  · intro some
    have kept := keeps (.inl some)
    exact ⟨kept.length, kept.perm⟩

/-- Pheromones that are whole numbers. -/
def wholePheromones : Pheromones Nat :=
  ⟨(· * ·), (· + ·), (· / ·), fun x y => decide (y < x), id, 0, 1, 1, 100⟩

/-- Memory that is nothing but zeros. -/
def blankMemory : Memory Nat where
  tables := ⟨fun _ _ => 0, fun _ _ => 0, fun _ _ => 0⟩
  rnd := 32767
  ants _ := ⟨0, fun _ => false, 0, fun _ => 0, 0⟩
  bestTour _ := 0

/-- Three cities, two ants and four rounds. -/
theorem three_cities_toured :
    (1 ≤ (3 : Int32).toInt ∧ (3 : Int32).toInt ≤ 400) ∧ (1 ≤ (2 : Int32).toInt ∧ (2 : Int32).toInt ≤ 200) ∧
      ∃ c tour, antTSPMain (Code.source wholePheromones 3 maxN) ⟨3, 2, 4, fun _ _ => 7⟩ blankMemory 3 5 = some (c, tour) ∧
        c.rounds = 4 ∧ (firstCells 3 c.bestTour).Perm (List.range 3) := by
  obtain ⟨-, -, c, tour, -, -, -, ends, rounds, best⟩ := ants_build_permutations wholePheromones ⟨3, 2, 4, fun _ _ => 7⟩
    blankMemory (by decide) (by decide)
  exact ⟨by decide, by decide, c, tour, ends, rounds, (best (by decide)).2⟩

end Lavoro.AntTSP
