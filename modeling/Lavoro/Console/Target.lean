import Lavoro.Console.Independence
import Mathlib.Data.Nat.Digits.Defs

/-!
# What `connect` connects to

The argument of `connect` is to be four decimal numbers separated by single characters, and may go on with a port
behind one more. The command reads any argument as such: it keeps the low bits of each number, takes a missing one for
0 and goes over the NUL of the line. It connects as meant exactly where the argument has the form and no number is too
large, and where what an older line has left behind the NUL is not taken for a port.
-/

namespace Lavoro.Console
open Lib

variable {Node : Type} [DecidableEq Node]

/-- `Socket->Connect(&RemoteAddress, RemotePort)`: the calls that the command in `szLine` makes. -/
def ConsoleState.connects (st : ConsoleState Node) : List (List UInt8 × UInt16) :=
  if dispatch st.szLine.units = some .connect then [(st.connect.remoteAddress, st.connect.remotePort)] else []

/-! ## Addresses and ports as they are written -/

/-- `p` begins with the decimal number `n`, behind which `rest` stands. -/
def Spells (p : Str16) (n : Nat) (rest : Str16) : Prop :=
  ∃ digits : Str16, p = digits ++ rest ∧ digits ≠ [] ∧ (∀ c ∈ digits, digit c = true) ∧
    (∀ c ∈ rest.head?, digit c = false) ∧ n = Nat.ofDigits 10 (digits.reverse.map fun c => c.toNat - 48)

/-- `p` begins with numbers separated by single characters. -/
inductive SpellsAll : Str16 → List Nat → Str16 → Prop where
  | last {p rest : Str16} {n : Nat} (number : Spells p n rest) : SpellsAll p [n] rest
  | next {p q rest : Str16} {n : Nat} {c : UInt16} {ns : List Nat} (number : Spells p n (c :: q))
      (more : SpellsAll q ns rest) : SpellsAll p (n :: ns) rest

/-- The port behind an address, if there is one. -/
inductive SpellsPort : Str16 → Option Nat → Str16 → Prop where
  | none {p : Str16} (other : ∀ c ∈ p.tail.head?, digit c = false) : SpellsPort p none p
  | some {q rest : Str16} {n : Nat} {c : UInt16} (number : Spells q n rest) : SpellsPort (c :: q) (some n) rest

/-- The argument denotes the address `octets` and, in what is `behind` it, the port. -/
structure Denotes (arg : Str16) (octets : List Nat) (behind : Str16) (port : Option Nat) (rest : Str16) : Prop where
  four : octets.length = 4
  address : SpellsAll arg octets behind
  port : SpellsPort behind port rest

/-- The address and the port are those that the argument denotes, or the port is the previous one; `ends` says what may
stand behind them. -/
def Meant (ends : Str16 → Prop) (arg : Str16) (remotePort : UInt16) (address : List UInt8) (p : UInt16) : Prop :=
  ∃ octets behind port rest, Denotes arg octets behind port rest ∧ ends rest ∧
    (∀ n ∈ octets, n ≤ 255) ∧ address.map UInt8.toNat = octets ∧
    (∀ n ∈ port, n ≤ 65535) ∧ p.toNat = port.getD remotePort.toNat

/-- What stands behind the NUL is no port other than the previous one. -/
def Silent (remotePort : UInt16) (left : Str16) : Prop :=
  digit (left.headD 0) = true → UInt16.ofNat (number left).1 = remotePort

/-- The argument denotes an address and a port, no number is too large, and a missing port is not found behind the
NUL. -/
def Connectable (ends : Str16 → Prop) (arg : Str16) (remotePort : UInt16) (left : Str16) : Prop :=
  ∃ octets behind port rest, Denotes arg octets behind port rest ∧ ends rest ∧
    (∀ n ∈ octets, n ≤ 255) ∧ (∀ n ∈ port, n ≤ 65535) ∧ (behind = [] → Silent remotePort left)

/-! ## What the command reads -/

section Reading

variable {p rest left : Str16} {n : Nat} {ns : List Nat}

/-- The loop over the digits of a number. -/
theorem atoiDigits_digits {digits : Str16} (all : ∀ c ∈ digits, digit c = true)
    (other : ∀ c ∈ rest.head?, digit c = false) (u : Nat) :
    atoiDigits u (digits ++ rest) =
      u * 10 ^ digits.length + Nat.ofDigits 10 (digits.reverse.map fun c => c.toNat - 48) := by
  induction digits generalizing u with
  | nil =>
    cases rest with
    | nil => simp [atoiDigits]
    | cons c rest =>
      have stops : digit c = false := other c rfl
      have stops : ¬ (48 ≤ c.toNat ∧ c.toNat ≤ 57) := by simpa [digit] using stops
      rw [List.nil_append, atoiDigits, if_neg stops]
      simp
  | cons c digits ih =>
    have here : digit c = true := all c List.mem_cons_self
    have here : 48 ≤ c.toNat ∧ c.toNat ≤ 57 := by simpa [digit] using here
    rw [List.cons_append, atoiDigits, if_pos here, ih fun d mem => all d (List.mem_cons_of_mem _ mem)]
    rw [List.reverse_cons, List.map_append, Nat.ofDigits_append, List.length_cons, List.length_map, List.length_reverse,
      List.map_singleton, Nat.ofDigits_singleton]
    ring

/-- The command reads a number as it is written. -/
theorem Spells.number_eq (h : Spells p n rest) : number p = (n, rest) := by
  obtain ⟨digits, rfl, -, all, other, rfl⟩ := h
  have stops : rest.dropWhile digit = rest := by
    cases rest with
    | nil => rfl
    | cons c rest => exact List.dropWhile_cons_of_neg (by simpa using other c rfl)
  rw [number, atoiDigits_digits all other, List.dropWhile_append_of_pos all, stops]
  simp

/-- It reads the numbers of an address, and goes over one unit behind the last of them. -/
theorem SpellsAll.numbers_eq (h : SpellsAll p ns rest) (left : Str16) :
    numbers ns.length (p ++ 0 :: left) = (ns.map UInt8.ofNat, (rest ++ 0 :: left).tail) := by
  induction h with
  | last h => rw [List.length_singleton, numbers, number_append, h.number_eq, numbers, List.map_singleton]
  | next h _ ih => rw [List.length_cons, numbers, number_append, h.number_eq, List.cons_append, List.tail_cons, ih,
      List.map_cons]

/-- A number begins with a digit. -/
theorem Spells.digit_head (h : Spells p n rest) : digit (p.headD 0) = true := by
  obtain ⟨digits, rfl, some, all, -⟩ := h
  cases digits with
  | nil => exact absurd rfl some
  | cons c digits => exact all c List.mem_cons_self

theorem digit_headD_of_head? (other : ∀ c ∈ p.head?, digit c = false) : digit (p.headD 0) = false := by
  cases p with
  | nil => rfl
  | cons c p => exact other c rfl

/-- The port that follows inside the line. -/
theorem SpellsPort.port_eq {behind : Str16} {o : Option Nat} (h : SpellsPort behind o rest) (inside : behind ≠ [])
    (remotePort : UInt16) (left : Str16) :
    port remotePort (behind ++ 0 :: left).tail = (o.map UInt16.ofNat).getD remotePort := by
  cases h with
  | none other =>
    cases rest with
    | nil => exact absurd rfl inside
    | cons c q =>
      have other : digit (q.headD 0) = false := digit_headD_of_head? other
      rw [List.cons_append, List.tail_cons, port_append, port, other]
      rfl
  | some h =>
    rw [List.cons_append, List.tail_cons, port_append, port, if_pos h.digit_head, h.number_eq]
    rfl

theorem silent_iff {remotePort : UInt16} : Silent remotePort left ↔ port remotePort left = remotePort := by
  unfold Silent port
  split
  · rename_i found
    exact ⟨fun same => same found, fun same _ => same⟩
  · rename_i none
    exact ⟨fun _ => rfl, fun _ found => absurd found none⟩

end Reading

/-! ## The call -/

/-- `connect ` in front of the argument, what is left of an older line behind it. -/
def connectLine (arg left : Str16) : Str16 :=
  units ['c', 'o', 'n', 'n', 'e', 'c', 't', ' '] ++ arg ++ 0 :: left

theorem dispatch_connectLine (arg left : Str16) : dispatch (connectLine arg left) = some .connect := by
  rw [dispatch_eq_some_iff, test_iff]
  exact ⟨_, rfl⟩

omit [DecidableEq Node] in
/-- **Every line** that begins with `connect ` leads to a call. -/
theorem connects_connectLine (st : ConsoleState Node) (arg left : Str16) :
    (st.holding (connectLine arg left)).connects =
      [((numbers 4 (arg ++ 0 :: left)).1, port st.remotePort (numbers 4 (arg ++ 0 :: left)).2)] := by
  have called := dispatch_connectLine arg left
  have behind : (connectLine arg left).drop 8 = arg ++ 0 :: left := by
    rw [connectLine, List.append_assoc]
    rfl
  show (if dispatch (connectLine arg left) = some .connect then _ else _) = _
  rw [if_pos called, ConsoleState.connect]
  show [((numbers 4 ((connectLine arg left).drop 8)).1, port st.remotePort (numbers 4 ((connectLine arg left).drop 8)).2)] = _
  rw [behind]

/-- The command, on a line in `szLine`, calls `Connect` only with what its argument means. -/
def ConnectsAsMeant (ends : Str16 → Prop) (st : ConsoleState Node) (arg left : Str16) : Prop :=
  ∀ call ∈ (st.holding (connectLine arg left)).connects, Meant ends arg st.remotePort call.1 call.2

omit [DecidableEq Node] in
/-- **`connect` connects as meant** exactly where its argument denotes an address and a port, with no number too large
and no port found behind the NUL, whatever may follow them. -/
theorem connects_as_meant_iff (ends : Str16 → Prop) (st : ConsoleState Node) (arg left : Str16) :
    ConnectsAsMeant ends st arg left ↔ Connectable ends arg st.remotePort left := by
  rw [ConnectsAsMeant, connects_connectLine, List.forall_mem_singleton]
  constructor
  · rintro ⟨octets, behind, o, rest, denotes, ending, small, -, low, same⟩
    refine ⟨octets, behind, o, rest, denotes, ending, small, low, ?_⟩
    rintro rfl
    have read := denotes.address.numbers_eq left
    rw [denotes.four] at read
    rw [read] at same
    cases denotes.port with
    | none _ => exact silent_iff.2 (UInt16.toNat_inj.1 same)
  · rintro ⟨octets, behind, o, rest, denotes, ending, small, low, silent⟩
    have read := denotes.address.numbers_eq left
    rw [denotes.four] at read
    rw [read]
    refine ⟨octets, behind, o, rest, denotes, ending, small, ?_, low, ?_⟩
    · rw [List.map_map]
      refine (List.map_congr_left fun n mem => ?_).trans (List.map_id octets)
      have le := small n mem
      show (UInt8.ofNat n).toNat = n
      rw [UInt8.toNat_ofNat']
      omega
    · by_cases inside : behind = []
      · subst inside
        have kept := silent_iff.1 (silent rfl)
        cases denotes.port with
        | none _ => exact congrArg UInt16.toNat kept
      · show (port st.remotePort (behind ++ 0 :: left).tail).toNat = _
        rw [denotes.port.port_eq inside]
        cases o with
        | none => rfl
        | some n =>
          have le := low n rfl
          show (UInt16.ofNat n).toNat = n
          rw [UInt16.toNat_ofNat']
          omega

/-! ## Addresses as `%d` prints them -/

section Written

/-- A number that has been printed is read as it is. -/
theorem spells_decimal (n : Nat) {rest : Str16} (other : ∀ c ∈ rest.head?, digit c = false) :
    Spells (decimal n ++ rest) n rest := by
  have all : ∀ c ∈ decimal n, digit c = true := by
    intro c mem
    obtain ⟨d, mem', rfl⟩ := List.mem_map.1 mem
    have isDigit := isDigit_toDigits n d mem'
    simpa [digit, toNat_unit isDigit] using isDigit_bounds isDigit
  have none : ∀ c ∈ ([] : Str16).head?, digit c = false := nofun
  have value := atoi_decimal n
  rw [atoi, dropWhile_decimal, ← List.append_nil (decimal n), atoiDigits_digits all none, Nat.zero_mul,
    Nat.zero_add] at value
  refine ⟨decimal n, rfl, ?_, all, other, value.symm⟩
  simp [decimal, Nat.toDigits_ne_nil]

/-- An address and a port with these separators. -/
def written (a b c d : UInt8) (s₁ s₂ s₃ s₄ : UInt16) (p : UInt16) : Str16 :=
  decimal a.toNat ++ s₁ :: (decimal b.toNat ++ s₂ :: (decimal c.toNat ++ s₃ ::
    (decimal d.toNat ++ s₄ :: (decimal p.toNat ++ []))))

omit [DecidableEq Node] in
/-- **An address and a port that have been printed** are those that `connect` calls `Connect` with. -/
theorem connects_written (st : ConsoleState Node) (a b c d : UInt8) {s₁ s₂ s₃ s₄ : UInt16} (p : UInt16) (left : Str16)
    (apart : digit s₁ = false ∧ digit s₂ = false ∧ digit s₃ = false ∧ digit s₄ = false) :
    (st.holding (connectLine (written a b c d s₁ s₂ s₃ s₄ p) left)).connects = [([a, b, c, d], p)] := by
  obtain ⟨h₁, h₂, h₃, h₄⟩ := apart
  have first : ∀ {s : UInt16} {q : Str16}, digit s = false → ∀ c ∈ (s :: q).head?, digit c = false := by
    intro s q stops c here
    obtain rfl : s = c := Option.some.inj here
    exact stops
  have address : SpellsAll (written a b c d s₁ s₂ s₃ s₄ p) [a.toNat, b.toNat, c.toNat, d.toNat]
      (s₄ :: (decimal p.toNat ++ [])) :=
    .next (spells_decimal _ (first h₁)) (.next (spells_decimal _ (first h₂)) (.next (spells_decimal _ (first h₃))
      (.last (spells_decimal _ (first h₄)))))
  have last : Spells (decimal p.toNat ++ []) p.toNat [] := spells_decimal _ nofun
  have found : SpellsPort (s₄ :: (decimal p.toNat ++ [])) (some p.toNat) [] := .some last
  have read := address.numbers_eq left
  have port := found.port_eq (List.cons_ne_nil _ _) st.remotePort left
  rw [connects_connectLine, show 4 = [a.toNat, b.toNat, c.toNat, d.toNat].length from rfl, read, port]
  simp

end Written

/-! ## A number that is too large -/

/-- The first number of an address is the one that the command reads. -/
theorem SpellsAll.head?_eq {p rest : Str16} {ns : List Nat} (h : SpellsAll p ns rest) :
    ns.head? = some (number p).1 := by
  cases h with
  | last h => rw [h.number_eq, List.head?_cons]
  | next h => rw [h.number_eq, List.head?_cons]

/-- `connect 300.1.1.1` goes to 44.1.1.1. -/
theorem large_octet_connects :
    (fresh.holding (connectLine (units ['3', '0', '0', '.', '1', '.', '1', '.', '1']) [])).connects =
        [([44, 1, 1, 1], 0)] ∧
      ¬ ConnectsAsMeant (fun _ => True) fresh (units ['3', '0', '0', '.', '1', '.', '1', '.', '1']) [] := by
  refine ⟨by rw [connects_connectLine]; rfl, ?_⟩
  rw [connects_as_meant_iff]
  rintro ⟨octets, behind, o, rest, denotes, -, small, -⟩
  have first := denotes.address.head?_eq
  have large := small _ (List.mem_of_head? first)
  exact absurd large (by decide)

end Lavoro.Console
