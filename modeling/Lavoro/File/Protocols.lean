import Lavoro.Efi.Locate
import Lavoro.File.Initialize

/-!
# Locating protocols (`hand.c`, `lfs.cpp`, `lscreen.cpp`, `lsocket.hpp`, `main.cpp`)

`LibLocateProtocol` takes the interface of the first of the handles located that has one and gives the buffer of the
handles back. `InitializeGraphics`, `filldemo` and `printmodes` call it; `InitializeFileSystem` and the first
constructor of `LSocket` call `LibLocateHandle`, the one to keep a table of the interfaces, the other
without giving the buffer back.
-/

namespace Lavoro
open Lib

/-- A database of handles, and what `HandleProtocol` answers for one of them after so many calls of `LocateHandle`. -/
structure Protocols extends Database where
  handleProtocol : Nat → Nat → ProtocolAnswer

/-- The loop of `LibLocateProtocol`: `Status` and `*Interface` behind it. -/
def firstInterface (answers : Nat → ProtocolAnswer) (status : EfiStatus) (interface : Option Nat) :
    List Nat → EfiStatus × Option Nat
  | [] => (status, interface)
  | handle :: rest =>
    let answer := answers handle
    let interface := answer.stored.getD interface
    if efiError answer.status then firstInterface answers answer.status interface rest
    else (answer.status, interface)

/-- `if (Handles) FreePool(Handles)`. -/
def freeHandles (buffer : Option Nat) (pool : Pool) : Except PoolFault Pool :=
  match buffer with
  | some b => freePool pool b
  | none => .ok pool

/-- What `LibLocateProtocol` returns and leaves. -/
structure ProtocolFound where
  status : EfiStatus
  interface : Option Nat
  bs : BootServices

/-- `LibLocateProtocol` behind its call of `LibLocateHandle`. -/
def HandlesFound.protocol (fw : Protocols) (f : HandlesFound) : Except PoolFault ProtocolFound :=
  if efiError f.status then .ok ⟨f.status, none, f.bs⟩
  else
    let found := firstInterface (fw.handleProtocol f.bs.located) f.status none (f.stored.take f.noHandles)
    (freeHandles f.buffer f.bs.pool).map fun pool => ⟨found.1, found.2, { f.bs with pool }⟩

/-- `LibLocateProtocol`. -/
def libLocateProtocol (fw : Protocols) (fuel : Nat) (bs : BootServices) : Option (Except PoolFault ProtocolFound) :=
  (libLocateHandle fw.toDatabase fuel bs).map fun result => result.bind (HandlesFound.protocol fw)

/-- How `LibLocateProtocol` ends: with the interface of the first handle that has one, or with an error where no
handle has one. -/
inductive ProtocolFound.Outcome (fw : Protocols) (bs : BootServices) : ProtocolFound → Prop where
  | found {located before handle after i pool} (listed : fw.handles located = before ++ handle :: after)
      (passed : ∀ h ∈ before, efiError (fw.handleProtocol (located + 1) h).status = true)
      (success : efiError (fw.handleProtocol (located + 1) handle).status = false)
      (stored : (fw.handleProtocol (located + 1) handle).stored = some (some i))
      (ledger : Pool.Holds bs.pool pool []) :
      Outcome fw bs ⟨(fw.handleProtocol (located + 1) handle).status, some i, ⟨pool, located + 1⟩⟩
  | unsupported {located status interface pool} (error : efiError status = true)
      (passed : ∀ h ∈ fw.handles located, efiError (fw.handleProtocol (located + 1) h).status = true)
      (ledger : Pool.Holds bs.pool pool []) : Outcome fw bs ⟨status, interface, ⟨pool, located + 1⟩⟩
  | outOfResources {located pool} (refused : fw.grants (pool.requests - 1) = false)
      (ledger : Pool.Holds bs.pool pool []) : Outcome fw bs ⟨efiOutOfResources, none, ⟨pool, located⟩⟩

variable {fw : Protocols} {bs : BootServices} {fuel : Nat} {answers : Nat → ProtocolAnswer}

/-- The loop stops at the first handle that has the protocol. -/
theorem firstInterface_of_append {before after : List Nat} {handle : Nat} (passed : ∀ h ∈ before, efiError (answers h).status = true)
    (success : efiError (answers handle).status = false) {i : Nat} (stored : (answers handle).stored = some (some i))
    (status : EfiStatus) (interface : Option Nat) :
    firstInterface answers status interface (before ++ handle :: after) = ((answers handle).status, some i) := by
  induction before generalizing status interface with
  | nil => simp [firstInterface, success, stored]
  | cons h before ih =>
    have error := passed h List.mem_cons_self
    have later := ih fun h mem => passed h (List.mem_cons_of_mem _ mem)
    simp only [List.cons_append, firstInterface, error, if_true]
    exact later ..

/-- Where none has it, the status is the error of the last one. -/
theorem firstInterface_error {handles : List Nat} (passed : ∀ h ∈ handles, efiError (answers h).status = true)
    (some : handles ≠ []) (status : EfiStatus) (interface : Option Nat) :
    efiError (firstInterface answers status interface handles).1 = true := by
  induction handles generalizing status interface with
  | nil => exact absurd rfl some
  | cons h handles ih =>
    have error := passed h List.mem_cons_self
    simp only [firstInterface, error, if_true]
    cases handles with
    | nil => exact error
    | cons next rest => exact ih (fun h mem => passed h (List.mem_cons_of_mem _ mem)) (List.cons_ne_nil next rest) ..

/-- Either no handle has the protocol, or one is the first. -/
theorem first_or_none (answers : Nat → ProtocolAnswer) (handles : List Nat) :
    (∀ h ∈ handles, efiError (answers h).status = true) ∨
      ∃ before handle after, handles = before ++ handle :: after ∧ (∀ h ∈ before, efiError (answers h).status = true) ∧
        efiError (answers handle).status = false := by
  induction handles with
  | nil => exact .inl fun h mem => absurd mem List.not_mem_nil
  | cons handle handles ih =>
    by_cases error : efiError (answers handle).status = true
    · rcases ih with none | ⟨before, first, after, rfl, passed, success⟩
      · exact .inl (List.forall_mem_cons.2 ⟨error, none⟩)
      · exact .inr ⟨handle :: before, first, after, rfl, List.forall_mem_cons.2 ⟨error, passed⟩, success⟩
    · exact .inr ⟨[], handle, handles, rfl, fun h mem => absurd mem List.not_mem_nil, Bool.eq_false_iff.2 error⟩

/-- Behind handles that have been located: the loop over them, and their buffer is given back. -/
theorem HandlesFound.protocol_of_success {handles : List Nat} {base pool : Pool} {b located : Nat}
    (ledger : Pool.Holds base pool [b]) :
    HandlesFound.protocol fw ⟨efiSuccess, handles.length, some b, handles, ⟨pool, located⟩⟩ =
      .ok ⟨(firstInterface (fw.handleProtocol located) efiSuccess none handles).1,
        (firstInterface (fw.handleProtocol located) efiSuccess none handles).2, ⟨pool.drop b, located⟩⟩ := by
  simp only [HandlesFound.protocol, efiError_success, Bool.false_eq_true, if_false, freeHandles, List.take_length,
    (freePool_holds ledger).1]
  rfl

theorem HandlesFound.Outcome.protocol {f : HandlesFound} (h : f.Outcome fw.toDatabase bs) :
    ∃ p, f.protocol fw = .ok p ∧ p.Outcome fw bs := by
  cases h with
  | @found b size located pool supported room live ledger =>
    refine ⟨_, HandlesFound.protocol_of_success ledger, ?_⟩
    have left := (freePool_holds ledger).2
    rcases first_or_none (fw.handleProtocol (located + 1)) (fw.handles located) with
      passed | ⟨before, handle, after, listed, passed, success⟩
    · exact .unsupported (firstInterface_error passed supported ..) passed left
    · obtain ⟨i, stored⟩ := (fw.handleProtocol (located + 1) handle).obtained success
      rw [listed, firstInterface_of_append passed success stored]
      exact .found listed passed success stored left
  | @notFound located stored pool unsupported ledger =>
    refine ⟨⟨efiNotFound, none, ⟨pool, located + 1⟩⟩, if_pos efiError_notFound, .unsupported efiError_notFound ?_ ledger⟩
    rw [unsupported]
    exact fun h mem => absurd mem List.not_mem_nil
  | @outOfResources located stored pool refused ledger =>
    exact ⟨⟨efiOutOfResources, none, ⟨pool, located⟩⟩, if_pos efiError_outOfResources, .outOfResources refused ledger⟩

theorem libLocateProtocol_outcome {r : Except PoolFault ProtocolFound} (run : libLocateProtocol fw fuel bs = some r) :
    ∃ p, r = .ok p ∧ p.Outcome fw bs := by
  obtain ⟨located, found, rfl⟩ := Option.map_eq_some_iff.1 run
  obtain ⟨f, rfl, outcome⟩ := libLocateHandle_outcome found
  exact outcome.protocol

/-- An interface that has been located is not `NULL`. -/
theorem ProtocolFound.Outcome.interface {p : ProtocolFound} (h : p.Outcome fw bs) (success : efiError p.status = false) :
    p.interface.isSome := by
  cases h with
  | found => rfl
  | unsupported error => rw [error] at success; cases success
  | outOfResources => simp at success

/-- `LibLocateProtocol` returns where `LibLocateHandle` does. -/
theorem libLocateProtocol_returns_iff (fw : Protocols) (bs : BootServices) :
    (∃ fuel r, libLocateProtocol fw fuel bs = some r) ↔ ∃ n, ¬ Outgrown fw.toDatabase bs n := by
  constructor
  · rintro ⟨fuel, r, run⟩
    obtain ⟨located, found, -⟩ := Option.map_eq_some_iff.1 run
    by_contra never
    rw [libLocateHandle_hangs (not_exists_not.1 never)] at found
    cases found
  · rintro ⟨n, fits⟩
    obtain ⟨fuel, r, run⟩ := libLocateHandle_returns n fits
    refine ⟨fuel, r.bind (HandlesFound.protocol fw), ?_⟩
    rw [libLocateProtocol, run]
    rfl

/-- **`LibLocateProtocol`** returns unless the handles outgrow every buffer, and leaves the pool as it was. It
succeeds exactly if one of the handles located has the protocol, with the interface of the first such handle; so the
test for `NULL` that its callers make of an interface located never holds, provided that a `HandleProtocol` that
succeeds stores an interface (`ProtocolAnswer.obtained`). -/
theorem libLocateProtocol_first (fw : Protocols) (bs : BootServices) :
    ((∃ fuel r, libLocateProtocol fw fuel bs = some r) ↔ ∃ n, ¬ Outgrown fw.toDatabase bs n) ∧
      ∀ fuel r, libLocateProtocol fw fuel bs = some r →
        ∃ p, r = .ok p ∧ p.Outcome fw bs ∧ (efiError p.status = false → p.interface.isSome) := by
  refine ⟨libLocateProtocol_returns_iff fw bs, ?_⟩
  intro fuel r run
  obtain ⟨p, ok, outcome⟩ := libLocateProtocol_outcome run
  exact ⟨p, ok, outcome, outcome.interface⟩

/-- Of sixty handles, the third has the protocol. -/
def served : Protocols where
  toDatabase := crowded
  handleProtocol _ handle := if handle = 2 then .serving 9 else .unsupported

theorem served_first : ∃ p, libLocateProtocol served 3 ⟨Pool.empty, 0⟩ = some (.ok p) ∧ p.interface = some 9 ∧
    p.Outcome served ⟨Pool.empty, 0⟩ := by
  obtain ⟨p, same, outcome, -⟩ := (libLocateProtocol_first served ⟨Pool.empty, 0⟩).2 3 _ rfl
  refine ⟨p, congrArg some same, ?_, outcome⟩
  rw [← Except.ok.inj same]
  rfl

/-! ## Whoever locates something -/

/-- `LibLocateProtocol`, for `InitializeGraphics`, `filldemo` and `printmodes`; `InitializeFileSystem`; and
`LSocket(_Address, _Port)`. -/
inductive Search where
  | protocol
  | fileSystem
  | socket
  deriving DecidableEq, Repr

/-- What `InitializeFileSystem` does with memory: `new` for the table, which is written for each handle, and the
handles are given back. -/
def HandlesFound.table (fw : Protocols) (f : HandlesFound) : Except PoolFault (EfiStatus × BootServices) :=
  if efiError f.status then .ok (f.status, f.bs)
  else
    let made := f.bs.pool.allocate (fw.grants f.bs.pool.requests) (8 * f.noHandles)
    if made.1.isNone && f.noHandles ≠ 0 then .error .null
    else (freeHandles f.buffer made.2).map fun pool => (f.status, { f.bs with pool })

/-- What comes behind the call of `LibLocateHandle`: its status and the memory. -/
def Search.finish (fw : Protocols) (f : HandlesFound) : Search → Except PoolFault (EfiStatus × BootServices)
  | .protocol => (f.protocol fw).map fun p => (p.status, p.bs)
  | .fileSystem => f.table fw
  | .socket => .ok (f.status, f.bs)

def Search.perform (fw : Protocols) (fuel : Nat) (bs : BootServices) (search : Search) :
    Option (Except PoolFault (EfiStatus × BootServices)) :=
  (libLocateHandle fw.toDatabase fuel bs).map fun result => result.bind fun f => search.finish fw f

/-- One after the other, with their statuses. -/
def performs (fw : Protocols) (fuel : Nat) : List Search → BootServices → Option (Except PoolFault (List EfiStatus × BootServices))
  | [], bs => some (.ok ([], bs))
  | search :: searches, bs =>
    match search.perform fw fuel bs with
    | none => none
    | some (.error fault) => some (.error fault)
    | some (.ok (status, bs)) =>
      (performs fw fuel searches bs).map fun result => result.map fun done => (status :: done.1, done.2)

/-- How many blocks stay behind: the table of the file systems, and the handles of a socket. -/
def Search.left (search : Search) (status : EfiStatus) : Nat :=
  match search with
  | .protocol => 0
  | .fileSystem | .socket => if efiError status then 0 else 1

/-- The same for a run. -/
def leftBehind : List Search → List EfiStatus → Nat
  | search :: searches, status :: statuses => search.left status + leftBehind searches statuses
  | _, _ => 0

/-- The memory between two points, and how many blocks have been left, whichever they are. -/
def Ledger (bs bs' : BootServices) (count : Nat) : Prop :=
  ∃ kept, Pool.Holds bs.pool bs'.pool kept ∧ kept.length = count

theorem Ledger.trans {bs' bs'' : BootServices} {count more : Nat} (first : Ledger bs bs' count) (second : Ledger bs' bs'' more) :
    Ledger bs bs'' (count + more) := by
  obtain ⟨kept, holds, rfl⟩ := first
  obtain ⟨later, holds', rfl⟩ := second
  exact ⟨kept ++ later, holds.trans holds', List.length_append⟩

/-- The memory behind `LibLocateProtocol` is what it was before. -/
theorem ProtocolFound.Outcome.ledger {p : ProtocolFound} (h : p.Outcome fw bs) : Ledger bs p.bs 0 := by
  cases h with
  | found listed passed success stored ledger => exact ⟨[], ledger, rfl⟩
  | unsupported error passed ledger => exact ⟨[], ledger, rfl⟩
  | outOfResources refused ledger => exact ⟨[], ledger, rfl⟩

/-- The buffer that `LibLocateHandle` returns is the one block that it leaves. -/
theorem HandlesFound.Outcome.ledger {db : Database} {f : HandlesFound} (h : f.Outcome db bs) :
    Ledger bs f.bs (if efiError f.status then 0 else 1) := by
  cases h with
  | found supported room live ledger => exact ⟨_, ledger, by simp⟩
  | notFound unsupported ledger => exact ⟨[], ledger, by simp⟩
  | outOfResources refused ledger => exact ⟨[], ledger, by simp⟩

/-- The table is made while the handles are still there, and stays when they have been given back. -/
theorem HandlesFound.Outcome.table {f : HandlesFound} (h : f.Outcome fw.toDatabase bs) :
    f.table fw = .error .null ∨ ∃ bs', f.table fw = .ok (f.status, bs') ∧ Ledger bs bs' (if efiError f.status then 0 else 1) := by
  have before := h.ledger
  cases h with
  | @found b size located pool supported room live ledger =>
    by_cases granted : fw.grants pool.requests = true
    · right
      have both := ledger.trans (Pool.holds_grant pool (8 * (fw.handles located).length))
      obtain ⟨freed, left⟩ := both.free (List.mem_append_left _ (List.mem_singleton_self b))
      refine ⟨⟨(pool.grant (8 * (fw.handles located).length)).drop b, located + 1⟩, ?_, _, left, ?_⟩
      · simp only [HandlesFound.table, efiError_success, Bool.false_eq_true, if_false, granted, Pool.allocate_true,
          Option.isNone_some, Bool.false_and, freeHandles, freePool, freed]
        rfl
      · simp
    · left
      have refused : fw.grants pool.requests = false := Bool.eq_false_iff.2 granted
      simp [HandlesFound.table, refused, supported]
  | @notFound located stored pool unsupported ledger =>
    exact .inr ⟨_, if_pos efiError_notFound, before⟩
  | @outOfResources located stored pool refused ledger =>
    exact .inr ⟨_, if_pos efiError_outOfResources, before⟩

/-- One search: it leaves the blocks it is to leave, or the table of the file systems cannot be made. -/
theorem Search.perform_ledger {search : Search} {r : Except PoolFault (EfiStatus × BootServices)}
    (run : search.perform fw fuel bs = some r) : r = .error .null ∧ search = .fileSystem ∨
      ∃ status bs', r = .ok (status, bs') ∧ Ledger bs bs' (search.left status) := by
  obtain ⟨located, found, rfl⟩ := Option.map_eq_some_iff.1 run
  obtain ⟨f, rfl, outcome⟩ := libLocateHandle_outcome found
  cases search with
  | protocol =>
    obtain ⟨p, done, ended⟩ := outcome.protocol
    refine .inr ⟨p.status, p.bs, ?_, ended.ledger⟩
    change (f.protocol fw).map _ = _
    rw [done]
    rfl
  | fileSystem =>
    rcases outcome.table with null | ⟨bs', done, ledger⟩
    · exact .inl ⟨null, rfl⟩
    · exact .inr ⟨f.status, bs', done, ledger⟩
  | socket => exact .inr ⟨f.status, f.bs, rfl, outcome.ledger⟩

/-- **The pool over a whole run.** No block is given back twice, and none is overrun. What stays behind are the
tables of `InitializeFileSystem`, and one block for each socket that has located handles. -/
theorem performs_ledger {searches : List Search} {r : Except PoolFault (List EfiStatus × BootServices)}
    (run : performs fw fuel searches bs = some r) : r = .error .null ∧ .fileSystem ∈ searches ∨
      ∃ statuses bs', r = .ok (statuses, bs') ∧ statuses.length = searches.length ∧
        Ledger bs bs' (leftBehind searches statuses) := by
  induction searches generalizing bs r with
  | nil =>
    cases run
    exact .inr ⟨[], bs, rfl, rfl, [], Pool.Holds.refl _, rfl⟩
  | cons search searches ih =>
    unfold performs at run
    split at run
    · cases run
    · rename_i fault failed
      cases run
      rcases Search.perform_ledger failed with ⟨null, rfl⟩ | ⟨status, bs', ok, -⟩
      · cases null
        exact .inl ⟨rfl, List.mem_cons_self⟩
      · cases ok
    · rename_i status bs₁ done
      obtain ⟨rest, later, rfl⟩ := Option.map_eq_some_iff.1 run
      rcases Search.perform_ledger done with ⟨null, -⟩ | ⟨status', bs', ok, first⟩
      · cases null
      cases ok
      rcases ih later with ⟨rfl, mem⟩ | ⟨statuses, bs₂, rfl, count, second⟩
      · exact .inl ⟨rfl, List.mem_cons_of_mem _ mem⟩
      · exact .inr ⟨status :: statuses, bs₂, rfl, congrArg Nat.succ count, first.trans second⟩

theorem Search.perform_mono {more : Nat} {search : Search} {r : Except PoolFault (EfiStatus × BootServices)} (le : fuel ≤ more)
    (run : search.perform fw fuel bs = some r) : search.perform fw more bs = some r := by
  obtain ⟨located, found, rfl⟩ := Option.map_eq_some_iff.1 run
  rw [perform, libLocateHandle_mono le found]
  rfl

theorem performs_mono {more : Nat} {searches : List Search} {r : Except PoolFault (List EfiStatus × BootServices)} (le : fuel ≤ more)
    (run : performs fw fuel searches bs = some r) : performs fw more searches bs = some r := by
  induction searches generalizing bs r with
  | nil => exact run
  | cons search searches ih =>
    unfold performs at run ⊢
    split at run
    · cases run
    · rename_i fault failed
      rw [Search.perform_mono le failed]
      exact run
    · rename_i status bs' done
      obtain ⟨rest, later, rfl⟩ := Option.map_eq_some_iff.1 run
      rw [Search.perform_mono le done]
      simp only [ih later, Option.map_some]

/-- Where there are never more than so many handles, every run comes to its end. -/
theorem performs_returns {limit : Nat} (bounded : ∀ n, (fw.handles n).length ≤ limit) (searches : List Search)
    (bs : BootServices) : ∃ fuel r, performs fw fuel searches bs = some r := by
  induction searches generalizing bs with
  | nil => exact ⟨0, _, rfl⟩
  | cons search searches ih =>
    obtain ⟨n, fits⟩ := not_outgrown bs bounded
    obtain ⟨fuel, located, found⟩ := libLocateHandle_returns n fits
    have done : search.perform fw fuel bs = some (located.bind fun f => search.finish fw f) := by
      rw [Search.perform, found]
      rfl
    cases here : located.bind fun f => search.finish fw f with
    | error fault =>
      rw [here] at done
      exact ⟨fuel, .error fault, by simp only [performs, done]⟩
    | ok next =>
      rw [here] at done
      obtain ⟨later, rest, run⟩ := ih next.2
      have first := Search.perform_mono (Nat.le_max_left fuel later) done
      have second := performs_mono (Nat.le_max_right fuel later) run
      refine ⟨max fuel later, rest.map fun done => (next.1 :: done.1, done.2), ?_⟩
      simp only [performs, first, second, Option.map_some]

/-- **The pool over every run** of locating, of which there are never more handles than so many. The run comes to its
end. No block is given back twice and none is overrun; a write through `NULL` is one into the table of the file systems.
There stay behind as many blocks as there are tables and sockets that have located handles; the ledger counts them, and
does not say which they are. -/
theorem performs_safe {limit : Nat} (bounded : ∀ n, (fw.handles n).length ≤ limit) (searches : List Search) (bs : BootServices) :
    (∃ fuel r, performs fw fuel searches bs = some r) ∧ ∀ fuel r, performs fw fuel searches bs = some r →
      r = .error .null ∧ .fileSystem ∈ searches ∨
        ∃ statuses bs', r = .ok (statuses, bs') ∧ statuses.length = searches.length ∧
          Ledger bs bs' (leftBehind searches statuses) :=
  ⟨performs_returns bounded searches bs, fun _ _ run => performs_ledger run⟩

/-- Two sockets and the table of the file systems leave three blocks. -/
theorem served_ledger : ∃ bs', Ledger ⟨Pool.empty, 0⟩ bs' 3 := by
  have bounded : ∀ n, (served.handles n).length ≤ 60 := fun n => Nat.le_of_eq List.length_range
  have safe := performs_safe bounded [.socket, .protocol, .fileSystem, .socket] ⟨Pool.empty, 0⟩
  rcases safe.2 3 _ rfl with ⟨failed, -⟩ | ⟨statuses, bs', ok, -, ledger⟩
  · cases failed
  · have all : statuses = [efiSuccess, efiSuccess, efiSuccess, efiSuccess] := (congrArg Prod.fst (Except.ok.inj ok)).symm
    rw [all] at ledger
    exact ⟨bs', ledger⟩

end Lavoro
