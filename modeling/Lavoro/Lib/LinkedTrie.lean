import Lavoro.Lib.Trie
import Mathlib.Data.List.Induction

/-!
# Tries over pointers

The nodes lie in a memory, where a node holds a value, if any, and for each letter the address of a child or none.
`grow` allocates a child that is missing, and `insert` does so on its way and puts the value into the last node. As
long as no two pointers lead to the same node, and none to the root (`Sound`), this is the insertion into a trie
(`Represents.insert`): what is found under every other key stays.
-/

namespace Lavoro.Lib

structure TrieNode (κ α : Type) where
  value : Option α
  child : κ → Option Nat

/-- The nodes by their addresses; those from `next` on have not been allocated. The root has the address 0. -/
structure TrieHeap (κ α : Type) where
  node : Nat → TrieNode κ α
  next : Nat

namespace TrieHeap

variable {κ α : Type} [DecidableEq κ]

/-- A node that has just been made. -/
def blank : TrieNode κ α := ⟨none, fun _ => none⟩

/-- The root alone. -/
def root : TrieHeap κ α := ⟨fun _ => blank, 1⟩

/-- The child `k` of the node `p` is allocated, unless it is there. -/
def grow (h : TrieHeap κ α) (p : Nat) (k : κ) : TrieHeap κ α :=
  match (h.node p).child k with
  | some _ => h
  | none =>
    let node := Function.update h.node h.next blank
    { node := Function.update node p { node p with child := Function.update (node p).child k (some h.next) }
      next := h.next + 1 }

/-- The value is put into the node `p`. -/
def put (h : TrieHeap κ α) (p : Nat) (a : α) : TrieHeap κ α :=
  { h with node := Function.update h.node p { h.node p with value := some a } }

def insert (a : α) : List κ → Nat → TrieHeap κ α → TrieHeap κ α
  | [], p, h => h.put p a
  | k :: key, p, h =>
    match ((h.grow p k).node p).child k with
    | some q => insert a key q (h.grow p k)
    | none => h.grow p k

/-- The node that a key leads to. -/
def find (h : TrieHeap κ α) : List κ → Nat → Option Nat
  | [], p => some p
  | k :: key, p => ((h.node p).child k).bind (find h key)

def get (h : TrieHeap κ α) (key : List κ) (p : Nat) : Option α := (h.find key p).bind fun q => (h.node q).value

/-- No two pointers lead to the same node, and none to the root. -/
structure Sound (h : TrieHeap κ α) : Prop where
  rooted : 0 < h.next
  inside : ∀ p k q, (h.node p).child k = some q → p < h.next ∧ 0 < q ∧ q < h.next
  apart : ∀ p p' k k' q, (h.node p).child k = some q → (h.node p').child k' = some q → p = p' ∧ k = k'

variable {h : TrieHeap κ α} {p q : Nat} {k : κ} {key key' : List κ}

omit [DecidableEq κ] in
theorem find_append (h : TrieHeap κ α) (key key' : List κ) (p : Nat) :
    h.find (key ++ key') p = (h.find key p).bind (h.find key') := by
  induction key generalizing p with
  | nil => rfl
  | cons k key ih =>
    rw [List.cons_append, find, find]
    cases (h.node p).child k with
    | none => rfl
    | some q => exact ih q

omit [DecidableEq κ] in
theorem find_snoc (h : TrieHeap κ α) (key : List κ) (k : κ) (p : Nat) :
    h.find (key ++ [k]) p = (h.find key p).bind fun q => (h.node q).child k := by
  rw [find_append]
  congr 1
  funext q
  show ((h.node q).child k).bind _ = _
  cases (h.node q).child k <;> rfl

omit [DecidableEq κ] in
/-- The nodes found have been allocated. -/
theorem Sound.find_lt (sound : h.Sound) (lt : p < h.next) (found : h.find key p = some q) : q < h.next := by
  induction key generalizing p with
  | nil =>
    cases found
    exact lt
  | cons k key ih =>
    obtain ⟨r, child, found⟩ := Option.bind_eq_some_iff.1 found
    exact ih (sound.inside p k r child).2.2 found

omit [DecidableEq κ] in
/-- **Different keys** lead to different nodes. -/
theorem Sound.find_injective (sound : h.Sound) (here : h.find key 0 = some p) (there : h.find key' 0 = some p) :
    key = key' := by
  have last : ∀ {key : List κ} {k : κ} {p : Nat}, h.find (key ++ [k]) 0 = some p →
      ∃ q, h.find key 0 = some q ∧ (h.node q).child k = some p := by
    intro key k p found
    rw [find_snoc] at found
    exact Option.bind_eq_some_iff.1 found
  have other : ∀ {key : List κ} {k : κ}, h.find (key ++ [k]) 0 ≠ some 0 := by
    intro key k found
    obtain ⟨q, -, child⟩ := last found
    exact absurd (sound.inside q k 0 child).2.1 (Nat.lt_irrefl 0)
  induction key using List.reverseRecOn generalizing key' p with
  | nil =>
    cases here
    cases key' using List.reverseRecOn with
    | nil => rfl
    | append_singleton key' k' => exact absurd there other
  | append_singleton key k ih =>
    cases key' using List.reverseRecOn with
    | nil =>
      cases there
      exact absurd here other
    | append_singleton key' k' =>
      obtain ⟨q, before, child⟩ := last here
      obtain ⟨q', before', child'⟩ := last there
      obtain ⟨rfl, rfl⟩ := sound.apart q q' k k' p child child'
      rw [ih before before']

/-! ## A child is allocated -/

/-- A child that is missing. -/
structure Grown (h : TrieHeap κ α) (p : Nat) (k : κ) (h' : TrieHeap κ α) : Prop where
  next : h'.next = h.next + 1
  fresh : h'.node h.next = blank
  new : (h'.node p).child k = some h.next
  child : ∀ q k', q ≠ h.next → ¬ (q = p ∧ k' = k) → (h'.node q).child k' = (h.node q).child k'
  value : ∀ q, q ≠ h.next → (h'.node q).value = (h.node q).value

theorem grow_grown (lt : p < h.next) (missing : (h.node p).child k = none) : h.Grown p k (h.grow p k) := by
  have ne : p ≠ h.next := Nat.ne_of_lt lt
  simp only [grow, missing]
  refine ⟨rfl, ?_, ?_, ?_, ?_⟩
  · simp [Function.update_of_ne ne.symm]
  · simp
  · intro q k' other different
    by_cases here : q = p
    · subst here
      have letter : k' ≠ k := fun same => different ⟨rfl, same⟩
      simp [Function.update_of_ne letter, Function.update_of_ne ne]
    · simp [Function.update_of_ne here, Function.update_of_ne other]
  · intro q other
    by_cases here : q = p
    · subst here
      simp [Function.update_of_ne ne]
    · simp [Function.update_of_ne here, Function.update_of_ne other]

theorem grow_of_child (there : (h.node p).child k = some q) : h.grow p k = h := by
  simp only [grow, there]

section Grown

variable {h' : TrieHeap κ α}

omit [DecidableEq κ] in
/-- The pointers of the new heap. -/
theorem Grown.child_cases (grown : h.Grown p k h') {r s : Nat} {k' : κ} (there : (h'.node r).child k' = some s) :
    r = p ∧ k' = k ∧ s = h.next ∨ (h.node r).child k' = some s := by
  by_cases fresh : r = h.next
  · rw [fresh, grown.fresh] at there
    cases there
  · by_cases here : r = p ∧ k' = k
    · obtain ⟨rfl, rfl⟩ := here
      exact .inl ⟨rfl, rfl, Option.some.inj (there.symm.trans grown.new)⟩
    · rw [grown.child r k' fresh here] at there
      exact .inr there

omit [DecidableEq κ] in
theorem Grown.sound (grown : h.Grown p k h') (sound : h.Sound) (lt : p < h.next) : h'.Sound := by
  refine ⟨?_, ?_, ?_⟩
  · rw [grown.next]
    exact Nat.succ_pos _
  · intro r k' s there
    have rooted := sound.rooted
    rw [grown.next]
    rcases grown.child_cases there with ⟨rfl, -, rfl⟩ | old
    · omega
    · have inside := sound.inside r k' s old
      omega
  · intro r r' k₁ k₂ s there there'
    rcases grown.child_cases there with ⟨rfl, rfl, rfl⟩ | old
    · rcases grown.child_cases there' with ⟨rfl, rfl, -⟩ | old'
      · exact ⟨rfl, rfl⟩
      · exact absurd (sound.inside r' k₂ _ old').2.2 (Nat.lt_irrefl _)
    · rcases grown.child_cases there' with ⟨rfl, rfl, rfl⟩ | old'
      · exact absurd (sound.inside r k₁ _ old).2.2 (Nat.lt_irrefl _)
      · exact sound.apart r r' k₁ k₂ s old old'

omit [DecidableEq κ] in
/-- What was found is found. -/
theorem Grown.find_of_find (grown : h.Grown p k h') (sound : h.Sound) (missing : (h.node p).child k = none) {r s : Nat}
    (lt : r < h.next) (found : h.find key r = some s) : h'.find key r = some s := by
  induction key generalizing r with
  | nil => exact found
  | cons k' key ih =>
    obtain ⟨t, child, rest⟩ := Option.bind_eq_some_iff.1 found
    have other : ¬ (r = p ∧ k' = k) := by
      rintro ⟨rfl, rfl⟩
      rw [missing] at child
      cases child
    rw [find, grown.child r k' (Nat.ne_of_lt lt) other, child]
    exact ih (sound.inside r k' t child).2.2 rest

/-- **No value** is found that was not found before, and none is lost. -/
theorem Grown.get_eq (grown : h.Grown p k h') (sound : h.Sound) (missing : (h.node p).child k = none)
    (key : List κ) {r : Nat} (lt : r < h.next) : h'.get key r = h.get key r := by
  induction key generalizing r with
  | nil => exact grown.value r (Nat.ne_of_lt lt)
  | cons k' key ih =>
    unfold get find
    by_cases here : r = p ∧ k' = k
    · obtain ⟨rfl, rfl⟩ := here
      rw [grown.new, missing]
      -- the new node holds nothing and leads nowhere
      cases key with
      | nil =>
        show (h'.node h.next).value = none
        rw [grown.fresh]
        rfl
      | cons k₂ key =>
        show (((h'.node h.next).child k₂).bind _).bind _ = none
        rw [grown.fresh]
        rfl
    · rw [grown.child r k' (Nat.ne_of_lt lt) here]
      cases child : (h.node r).child k' with
      | none => rfl
      | some t => exact ih (sound.inside r k' t child).2.2

end Grown

/-- What `grow` does, whether the child is there or not. -/
theorem Sound.grow (sound : h.Sound) {path : List κ} (here : h.find path 0 = some p) (k : κ) :
    (h.grow p k).Sound ∧ (∃ q, ((h.grow p k).node p).child k = some q ∧ (h.grow p k).find (path ++ [k]) 0 = some q) ∧
      ∀ key, (h.grow p k).get key 0 = h.get key 0 := by
  have lt : p < h.next := sound.find_lt sound.rooted here
  cases child : (h.node p).child k with
  | some q =>
    rw [grow_of_child child]
    refine ⟨sound, ⟨q, child, ?_⟩, fun _ => rfl⟩
    rw [find_snoc, here]
    exact child
  | none =>
    have grown := grow_grown lt child
    refine ⟨grown.sound sound lt, ⟨h.next, grown.new, ?_⟩, fun key => grown.get_eq sound child key sound.rooted⟩
    rw [find_snoc, grown.find_of_find sound child sound.rooted here]
    exact grown.new

/-! ## A value is put in -/

omit [DecidableEq κ] in
theorem child_put (h : TrieHeap κ α) (p : Nat) (a : α) (q : Nat) : ((h.put p a).node q).child = (h.node q).child := by
  by_cases here : q = p
  · subst here
    simp [put]
  · simp [put, Function.update_of_ne here]

omit [DecidableEq κ] in
theorem find_put (h : TrieHeap κ α) (p : Nat) (a : α) (key : List κ) (q : Nat) :
    (h.put p a).find key q = h.find key q := by
  induction key generalizing q with
  | nil => rfl
  | cons k key ih =>
    rw [find, find, child_put]
    congr 1
    funext r
    exact ih r

omit [DecidableEq κ] in
theorem Sound.put (sound : h.Sound) (p : Nat) (a : α) : (h.put p a).Sound := by
  refine ⟨sound.rooted, ?_, ?_⟩
  · intro q k r there
    rw [child_put] at there
    exact sound.inside q k r there
  · intro q q' k k' r there there'
    rw [child_put] at there there'
    exact sound.apart q q' k k' r there there'

theorem Sound.get_put (sound : h.Sound) {path : List κ} (here : h.find path 0 = some p) (a : α) (key : List κ) :
    (h.put p a).get key 0 = if key = path then some a else h.get key 0 := by
  unfold get
  rw [find_put]
  by_cases same : key = path
  · rw [if_pos same, same, here]
    simp [TrieHeap.put]
  · rw [if_neg same]
    cases found : h.find key 0 with
    | none => rfl
    | some q =>
      have other : q ≠ p := by
        rintro rfl
        exact same (sound.find_injective found here)
      simp [TrieHeap.put, Function.update_of_ne other]

/-! ## Insertions -/

/-- An insertion from a node on the way. -/
theorem Sound.insert_from (sound : h.Sound) {path : List κ} (here : h.find path 0 = some p) (a : α) (key : List κ) :
    (h.insert a key p).Sound ∧
      ∀ key', (h.insert a key p).get key' 0 = if key' = path ++ key then some a else h.get key' 0 := by
  induction key generalizing h p path with
  | nil =>
    rw [List.append_nil]
    exact ⟨sound.put p a, sound.get_put here a⟩
  | cons k key ih =>
    obtain ⟨sound', ⟨q, child, found⟩, same⟩ := sound.grow here k
    obtain ⟨sound'', inserted⟩ := ih sound' found
    have goes : h.insert a (k :: key) p = (h.grow p k).insert a key q := by
      rw [insert, child]
    rw [goes]
    refine ⟨sound'', ?_⟩
    intro key'
    rw [inserted, same, List.append_assoc, List.singleton_append]

omit [DecidableEq κ] in
theorem root_sound : (root : TrieHeap κ α).Sound := ⟨Nat.one_pos, fun _ _ _ => nofun, fun _ _ _ _ _ => nofun⟩

/-- The heap represents a trie. -/
structure Represents (h : TrieHeap κ α) (t : Trie κ α) : Prop where
  sound : h.Sound
  same : ∀ key, h.get key 0 = t.get key

omit [DecidableEq κ] in
theorem root_represents : (root : TrieHeap κ α).Represents Trie.empty := by
  refine ⟨root_sound, ?_⟩
  intro key
  rw [Trie.get_empty]
  cases key with
  | nil => rfl
  | cons k key => rfl

/-- **The insertion over pointers** is the insertion into the trie. -/
theorem Represents.insert {t : Trie κ α} (represents : h.Represents t) (a : α) (key : List κ) :
    (h.insert a key 0).Represents (t.insert a key) := by
  have here : h.find ([] : List κ) 0 = some 0 := rfl
  obtain ⟨sound, inserted⟩ := represents.sound.insert_from here a key
  refine ⟨sound, ?_⟩
  intro key'
  rw [inserted, Trie.get_insert, represents.same, List.nil_append]

end TrieHeap

end Lavoro.Lib
