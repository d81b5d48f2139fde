import Lavoro.Efi.Base
import Lavoro.Lib.Loop
import Lavoro.Lib.Pool

/-!
# Locating handles (`misc.c`, `hand.c`)

`LibLocateHandle` calls `LocateHandle` in a loop whose condition is `GrowBuffer`: it makes the first buffer, replaces
one that was too small and gives back the one of a call that failed. The firmware may refuse any request for memory,
and the handles that support the protocol may be others at each call.
-/

namespace Lavoro
open Lib

/-- `EFI_OUT_OF_RESOURCES`. -/
def efiOutOfResources : EfiStatus := efiErr 9

/-- `EFI_NOT_FOUND`. -/
def efiNotFound : EfiStatus := efiErr 14

@[simp] theorem efiError_outOfResources : efiError efiOutOfResources = true := by decide

@[simp] theorem efiError_notFound : efiError efiNotFound = true := by decide

/-- What must not happen to a pool: a block given back that is not live, a callee that writes behind the end of its
block, and a write through `NULL`. -/
inductive PoolFault where
  | freed (b : Nat)
  | overrun
  | null
  deriving DecidableEq, Repr

/-- The boot services: the pool, and how many calls of `LocateHandle` there have been. -/
structure BootServices where
  pool : Pool
  located : Nat

/-- Which requests for memory are granted, and the handles that a call of `LocateHandle` finds. -/
structure Database where
  grants : Nat → Bool
  handles : Nat → List Nat

/-- `FreePool`. -/
def freePool (pool : Pool) (b : Nat) : Except PoolFault Pool :=
  match pool.free b with
  | some pool => .ok pool
  | none => .error (.freed b)

/-- What `GrowBuffer` leaves and returns. -/
structure Growth where
  tryAgain : Bool
  status : EfiStatus
  buffer : Option Nat
  pool : Pool

/-- The request of `GrowBuffer` for a buffer. -/
def makeBuffer (grants : Nat → Bool) (bufferSize : Nat) (pool : Pool) : Growth :=
  match pool.allocate (grants pool.requests) bufferSize with
  | (some b, pool) => ⟨true, efiBufferTooSmall, some b, pool⟩
  | (none, pool) => ⟨false, efiOutOfResources, none, pool⟩

/-- "If the status code is buffer too small, resize the buffer". -/
def resizeBuffer (grants : Nat → Bool) (status : EfiStatus) (buffer : Option Nat) (bufferSize : Nat) (pool : Pool) :
    Except PoolFault Growth :=
  if status = efiBufferTooSmall then
    match buffer with
    | some b => (freePool pool b).map (makeBuffer grants bufferSize)
    | none => .ok (makeBuffer grants bufferSize pool)
  else .ok ⟨false, status, buffer, pool⟩

/-- "If there's an error, free the buffer". -/
def clearBuffer (grown : Growth) : Except PoolFault Growth :=
  match grown.buffer with
  | some b =>
    if !grown.tryAgain && efiError grown.status then
      (freePool grown.pool b).map fun pool => { grown with buffer := none, pool }
    else .ok grown
  | none => .ok grown

/-- `GrowBuffer(Status, Buffer, BufferSize)`. -/
def growBuffer (grants : Nat → Bool) (status : EfiStatus) (buffer : Option Nat) (bufferSize : Nat) (pool : Pool) :
    Except PoolFault Growth :=
  let status := if buffer.isNone && bufferSize ≠ 0 then efiBufferTooSmall else status
  (resizeBuffer grants status buffer bufferSize pool).bind clearBuffer

/-- `LocateHandle`, with a buffer of `bufferSize` bytes: its status, and the size it leaves in `BufferSize`. -/
def locateHandle (handles : List Nat) (bufferSize : Nat) : EfiStatus × Nat :=
  if handles = [] then (efiNotFound, bufferSize)
  else if bufferSize < 8 * handles.length then (efiBufferTooSmall, 8 * handles.length)
  else (efiSuccess, 8 * handles.length)

/-- The variables of `LibLocateHandle`; `stored` are the handles in the buffer. -/
structure Locating where
  status : EfiStatus
  buffer : Option Nat
  bufferSize : Nat
  stored : List Nat
  bs : BootServices

/-- Before the loop. -/
def Locating.start (bs : BootServices) : Locating where
  status := efiSuccess
  buffer := none
  bufferSize := 50 * 8
  stored := []
  bs

/-- The buffer has room for `bytes`. -/
def Locating.hasRoom (s : Locating) (bytes : Nat) : Bool := (s.buffer.bind s.bs.pool.live).any (bytes ≤ ·)

/-- A turn of the loop of `LibLocateHandle`. -/
def locateTurn (db : Database) (s : Locating) : Turn Locating (Except PoolFault Locating) :=
  match growBuffer db.grants s.status s.buffer s.bufferSize s.bs.pool with
  | .error fault => .leave (.error fault)
  | .ok grown =>
    let s := { s with status := grown.status, buffer := grown.buffer, bs.pool := grown.pool }
    if grown.tryAgain then
      let handles := db.handles s.bs.located
      let answer := locateHandle handles s.bufferSize
      let called := { s with status := answer.1, bufferSize := answer.2, bs.located := s.bs.located + 1 }
      if answer.1 = efiSuccess then
        if s.hasRoom (8 * handles.length) then .again { called with stored := handles } else .leave (.error .overrun)
      else .again called
    else .leave (.ok s)

/-- What `LibLocateHandle` returns and leaves. -/
structure HandlesFound where
  status : EfiStatus
  noHandles : Nat
  buffer : Option Nat
  stored : List Nat
  bs : BootServices

/-- Behind the loop. -/
def Locating.found (s : Locating) : HandlesFound where
  status := s.status
  noHandles := if efiError s.status then 0 else s.bufferSize / 8
  buffer := s.buffer
  stored := s.stored
  bs := s.bs

/-- `LibLocateHandle`. -/
def libLocateHandle (db : Database) (fuel : Nat) (bs : BootServices) : Option (Except PoolFault HandlesFound) :=
  (Loop.run (locateTurn db) fuel (Locating.start bs)).map fun result => result.map Locating.found

/-- How many handles the buffer of the call `n` has room for. -/
def capacity (db : Database) (located : Nat) : Nat → Nat
  | 0 => 50
  | n + 1 => (db.handles (located + n)).length

/-- At the call `n` the buffer can be made, and the handles have outgrown it. -/
def Outgrown (db : Database) (bs : BootServices) (n : Nat) : Prop :=
  db.grants (bs.pool.requests + n) = true ∧ capacity db bs.located n < (db.handles (bs.located + n)).length

/-- How `LibLocateHandle` ends: with the handles of its last call in a buffer that has room for them, or with
neither handles nor a buffer. -/
inductive HandlesFound.Outcome (db : Database) (bs : BootServices) : HandlesFound → Prop where
  | found {b size located pool} (supported : db.handles located ≠ []) (room : 8 * (db.handles located).length ≤ size)
      (live : pool.live b = some size) (ledger : Pool.Holds bs.pool pool [b]) :
      Outcome db bs ⟨efiSuccess, (db.handles located).length, some b, db.handles located, ⟨pool, located + 1⟩⟩
  | notFound {located stored pool} (unsupported : db.handles located = []) (ledger : Pool.Holds bs.pool pool []) :
      Outcome db bs ⟨efiNotFound, 0, none, stored, ⟨pool, located + 1⟩⟩
  | outOfResources {located stored pool} (refused : db.grants (pool.requests - 1) = false)
      (ledger : Pool.Holds bs.pool pool []) :
      Outcome db bs ⟨efiOutOfResources, 0, none, stored, ⟨pool, located⟩⟩

variable {db : Database} {bs : BootServices} {grants : Nat → Bool} {status : EfiStatus} {buffer : Option Nat}
  {b size : Nat} {base pool : Pool}

theorem freePool_holds (h : Pool.Holds base pool [b]) : freePool pool b = .ok (pool.drop b) ∧ Pool.Holds base (pool.drop b) [] := by
  obtain ⟨freed, left⟩ := h.free (List.mem_singleton_self b)
  rw [List.erase_cons_head] at left
  exact ⟨by rw [freePool, freed], left⟩

theorem clearBuffer_makeBuffer : clearBuffer (makeBuffer grants size pool) = .ok (makeBuffer grants size pool) := by
  unfold makeBuffer
  cases grants pool.requests <;> rfl

/-- **Where a buffer is asked for**, the old one is given back and a new one made, if the request is granted. -/
theorem growBuffer_asked (grants : Nat → Bool) (asked : buffer = none ∧ size ≠ 0 ∨ status = efiBufferTooSmall)
    (h : Pool.Holds base pool buffer.toList) :
    ∃ left : Pool, left.requests = pool.requests ∧ Pool.Holds base left [] ∧
      growBuffer grants status buffer size pool = .ok (makeBuffer grants size left) := by
  have small : (if buffer.isNone && size ≠ 0 then efiBufferTooSmall else status) = efiBufferTooSmall := by
    rcases asked with ⟨rfl, positive⟩ | rfl
    · simp [positive]
    · exact ite_self _
  unfold growBuffer
  rw [small]
  cases buffer with
  | none => exact ⟨pool, rfl, h, clearBuffer_makeBuffer⟩
  | some b =>
    obtain ⟨freed, left⟩ := freePool_holds h
    refine ⟨pool.drop b, rfl, left, ?_⟩
    simp only [resizeBuffer, if_true, freed]
    exact clearBuffer_makeBuffer

/-- A call that has succeeded keeps its buffer. -/
theorem growBuffer_success : growBuffer grants efiSuccess (some b) size pool = .ok ⟨false, efiSuccess, some b, pool⟩ := by
  have other : efiSuccess ≠ efiBufferTooSmall := by decide
  simp [growBuffer, resizeBuffer, clearBuffer, other, Except.bind]

/-- A call that has found nothing gives it back. -/
theorem growBuffer_notFound (h : Pool.Holds base pool [b]) :
    growBuffer grants efiNotFound (some b) size pool = .ok ⟨false, efiNotFound, none, pool.drop b⟩ := by
  have other : efiNotFound ≠ efiBufferTooSmall := by decide
  simp [growBuffer, resizeBuffer, clearBuffer, other, Except.bind, (freePool_holds h).1, Except.map]

/-- The loop is about to make the buffer of the call `n`. -/
structure Locating.Pending (db : Database) (bs : BootServices) (n : Nat) (s : Locating) : Prop where
  asked : s.buffer = none ∧ s.bufferSize ≠ 0 ∨ s.status = efiBufferTooSmall
  size : s.bufferSize = 8 * capacity db bs.located n
  ledger : Pool.Holds bs.pool s.bs.pool s.buffer.toList
  requests : s.bs.pool.requests = bs.pool.requests + n
  located : s.bs.located = bs.located + n

/-- The last call has been made. -/
inductive Locating.Settled (db : Database) (bs : BootServices) : Locating → Prop where
  | found {b size located pool} (supported : db.handles located ≠ []) (room : 8 * (db.handles located).length ≤ size)
      (live : pool.live b = some size) (ledger : Pool.Holds bs.pool pool [b]) :
      Settled db bs ⟨efiSuccess, some b, 8 * (db.handles located).length, db.handles located, ⟨pool, located + 1⟩⟩
  | notFound {b located bufferSize stored pool} (unsupported : db.handles located = [])
      (ledger : Pool.Holds bs.pool pool [b]) :
      Settled db bs ⟨efiNotFound, some b, bufferSize, stored, ⟨pool, located + 1⟩⟩

theorem Locating.Pending.start (db : Database) (bs : BootServices) : Pending db bs 0 (start bs) where
  asked := .inl ⟨rfl, Nat.succ_ne_zero _⟩
  size := rfl
  ledger := Pool.Holds.refl bs.pool
  requests := rfl
  located := rfl

theorem Locating.found_of_error (error : efiError status = true) (bufferSize : Nat) (stored : List Nat) :
    (⟨status, buffer, bufferSize, stored, bs⟩ : Locating).found = ⟨status, 0, buffer, stored, bs⟩ := by
  rw [found, if_pos error]

/-- The loop is left where the last call has been made. -/
theorem Locating.Settled.leave {s : Locating} (h : s.Settled db bs) :
    ∃ s', locateTurn db s = .leave (.ok s') ∧ s'.found.Outcome db bs := by
  cases h with
  | @found b size located pool supported room live ledger =>
    refine ⟨⟨efiSuccess, some b, 8 * (db.handles located).length, db.handles located, ⟨pool, located + 1⟩⟩, ?_, ?_⟩
    · simp only [locateTurn, growBuffer_success, Bool.false_eq_true, if_false]
    · have count : 8 * (db.handles located).length / 8 = (db.handles located).length := by omega
      simp only [Locating.found, efiError_success, Bool.false_eq_true, if_false, count]
      exact .found supported room live ledger
  | @notFound b located bufferSize stored pool unsupported ledger =>
    refine ⟨⟨efiNotFound, none, bufferSize, stored, ⟨pool.drop b, located + 1⟩⟩, ?_, ?_⟩
    · simp only [locateTurn, growBuffer_notFound ledger, Bool.false_eq_true, if_false]
    · rw [found_of_error efiError_notFound bufferSize stored]
      exact .notFound unsupported (freePool_holds ledger).2

/-- The handles have outgrown the buffer that is made, and the next one is to have room for as many. -/
theorem Locating.Pending.outgrown {s : Locating} {n : Nat} (h : s.Pending db bs n) (outgrown : Outgrown db bs n) :
    ∃ s', locateTurn db s = .again s' ∧ s'.Pending db bs (n + 1) := by
  obtain ⟨left, requests, ledger, grown⟩ := growBuffer_asked db.grants h.asked h.ledger
  obtain ⟨granted, more⟩ := outgrown
  rw [← h.requests, ← requests] at granted
  rw [← h.located] at more
  have made : makeBuffer db.grants s.bufferSize left =
      ⟨true, efiBufferTooSmall, some left.requests, left.grant s.bufferSize⟩ := by
    simp [makeBuffer, granted]
  have answer : locateHandle (db.handles s.bs.located) s.bufferSize =
      (efiBufferTooSmall, 8 * (db.handles s.bs.located).length) := by
    have supported : db.handles s.bs.located ≠ [] := List.ne_nil_of_length_pos (by omega)
    have small : s.bufferSize < 8 * (db.handles s.bs.located).length := by
      rw [h.size]
      omega
    rw [locateHandle, if_neg supported, if_pos small]
  have failed : efiBufferTooSmall ≠ efiSuccess := by decide
  refine ⟨_, by simp only [locateTurn, grown, made, answer, if_true, if_neg failed]; rfl, ?_⟩
  refine ⟨.inr rfl, ?_, ledger.trans (Pool.holds_grant left _), ?_, ?_⟩
  · rw [h.located]
    rfl
  · change left.requests + 1 = _
    rw [requests, h.requests]
    omega
  · change s.bs.located + 1 = _
    rw [h.located]
    omega

/-- Otherwise there is no buffer, or the call is the last one. -/
theorem Locating.Pending.last {s : Locating} {n : Nat} (h : s.Pending db bs n) (fits : ¬ Outgrown db bs n) :
    (∃ s', locateTurn db s = .leave (.ok s') ∧ s'.found.Outcome db bs) ∨
      ∃ s', locateTurn db s = .again s' ∧ s'.Settled db bs ∧ s'.bs.located = s.bs.located + 1 := by
  obtain ⟨left, requests, ledger, grown⟩ := growBuffer_asked db.grants h.asked h.ledger
  by_cases granted : db.grants left.requests = true
  · right
    have made : makeBuffer db.grants s.bufferSize left =
        ⟨true, efiBufferTooSmall, some left.requests, left.grant s.bufferSize⟩ := by
      simp [makeBuffer, granted]
    have kept : Pool.Holds bs.pool (left.grant s.bufferSize) [left.requests] := ledger.trans (Pool.holds_grant left _)
    by_cases unsupported : db.handles s.bs.located = []
    · have answer : locateHandle (db.handles s.bs.located) s.bufferSize = (efiNotFound, s.bufferSize) := if_pos unsupported
      have failed : efiNotFound ≠ efiSuccess := by decide
      refine ⟨_, by simp only [locateTurn, grown, made, answer, if_true, if_neg failed]; rfl, ?_⟩
      exact ⟨.notFound unsupported kept, rfl⟩
    · have room : 8 * (db.handles s.bs.located).length ≤ s.bufferSize := by
        by_contra small
        refine fits ⟨?_, ?_⟩
        · rwa [← h.requests, ← requests]
        · rw [← h.located]
          have size := h.size
          omega
      have answer : locateHandle (db.handles s.bs.located) s.bufferSize =
          (efiSuccess, 8 * (db.handles s.bs.located).length) := by
        rw [locateHandle, if_neg unsupported, if_neg (Nat.not_lt.2 room)]
      refine ⟨_, by simp only [locateTurn, grown, made, answer, if_true, hasRoom, Option.bind_some,
        Pool.grant_live_self, Option.any_some, room, decide_true]; rfl, ?_⟩
      exact ⟨.found unsupported room Pool.grant_live_self kept, rfl⟩
  · left
    have refused : db.grants left.requests = false := Bool.eq_false_iff.2 granted
    have made : makeBuffer db.grants s.bufferSize left = ⟨false, efiOutOfResources, none, left.refuse⟩ := by
      simp [makeBuffer, refused]
    refine ⟨_, by simp only [locateTurn, grown, made, Bool.false_eq_true, if_false]; rfl, ?_⟩
    rw [found_of_error efiError_outOfResources s.bufferSize s.stored]
    exact .outOfResources refused (ledger.trans (Pool.holds_refuse left))

/-- **The loop has a result** unless the handles outgrow every buffer. -/
theorem locateTurn_leaves (n : Nat) (fits : ¬ Outgrown db bs n) :
    ∃ r, Loop.Leaves (locateTurn db) (Locating.start bs) r ∧ ∃ s, r = .ok s ∧ s.found.Outcome db bs := by
  apply Loop.leaves_of_decreasing (P := fun s => s.Settled db bs ∨ ∃ k, k ≤ n ∧ s.Pending db bs k)
    (fun s => n + bs.located + 2 - s.bs.located)
  · rintro s (settled | ⟨k, le, pending⟩)
    · obtain ⟨s', left, outcome⟩ := settled.leave
      exact .inl ⟨_, left, s', rfl, outcome⟩
    · by_cases outgrown : Outgrown db bs k
      · obtain ⟨s', again, later⟩ := pending.outgrown outgrown
        have before : k ≠ n := fun same => fits (same ▸ outgrown)
        refine .inr ⟨s', again, .inr ⟨k + 1, by omega, later⟩, ?_⟩
        have here := pending.located
        have next := later.located
        omega
      · rcases pending.last outgrown with ⟨s', left, outcome⟩ | ⟨s', again, settled, next⟩
        · exact .inl ⟨_, left, s', rfl, outcome⟩
        · have here := pending.located
          refine .inr ⟨s', again, .inl settled, ?_⟩
          omega
  · exact .inr ⟨0, Nat.zero_le n, .start db bs⟩

/-- Every result is one of the three. -/
theorem locateTurn_outcome {fuel : Nat} {r : Except PoolFault Locating}
    (run : Loop.run (locateTurn db) fuel (Locating.start bs) = some r) : ∃ s, r = .ok s ∧ s.found.Outcome db bs := by
  have first : (Locating.start bs).Settled db bs ∨ ∃ n, (Locating.start bs).Pending db bs n :=
    .inr ⟨0, .start db bs⟩
  apply Loop.run_keeps (P := fun s => s.Settled db bs ∨ ∃ n, s.Pending db bs n) _ _ first run
  · rintro s s' (settled | ⟨n, pending⟩) again
    · obtain ⟨t, left, -⟩ := settled.leave
      cases again.symm.trans left
    · by_cases outgrown : Outgrown db bs n
      · obtain ⟨t, turn, later⟩ := pending.outgrown outgrown
        cases again.symm.trans turn
        exact .inr ⟨n + 1, later⟩
      · rcases pending.last outgrown with ⟨t, left, -⟩ | ⟨t, turn, settled, -⟩
        · cases again.symm.trans left
        · cases again.symm.trans turn
          exact .inl settled
  · rintro s r (settled | ⟨n, pending⟩) leave
    · obtain ⟨t, left, outcome⟩ := settled.leave
      cases leave.symm.trans left
      exact ⟨t, rfl, outcome⟩
    · by_cases outgrown : Outgrown db bs n
      · obtain ⟨t, turn, -⟩ := pending.outgrown outgrown
        cases leave.symm.trans turn
      · rcases pending.last outgrown with ⟨t, left, outcome⟩ | ⟨t, turn, -⟩
        · cases leave.symm.trans left
          exact ⟨t, rfl, outcome⟩
        · cases leave.symm.trans turn

theorem libLocateHandle_outcome {fuel : Nat} {r : Except PoolFault HandlesFound}
    (run : libLocateHandle db fuel bs = some r) : ∃ f, r = .ok f ∧ f.Outcome db bs := by
  obtain ⟨made, left, rfl⟩ := Option.map_eq_some_iff.1 run
  obtain ⟨s, rfl, outcome⟩ := locateTurn_outcome left
  exact ⟨s.found, rfl, outcome⟩

theorem libLocateHandle_hangs (outgrown : ∀ n, Outgrown db bs n) (fuel : Nat) : libLocateHandle db fuel bs = none := by
  have spins : Loop.Spins (locateTurn db) (Locating.start bs) := by
    apply Loop.spins_of_inv fun s => ∃ n, s.Pending db bs n
    · rintro s ⟨n, pending⟩
      obtain ⟨s', again, later⟩ := pending.outgrown (outgrown n)
      exact ⟨s', again, n + 1, later⟩
    · exact ⟨0, .start db bs⟩
  rw [libLocateHandle, spins fuel]
  rfl

theorem libLocateHandle_returns (n : Nat) (fits : ¬ Outgrown db bs n) : ∃ fuel r, libLocateHandle db fuel bs = some r := by
  obtain ⟨r, ⟨fuel, left⟩, -⟩ := locateTurn_leaves n fits
  refine ⟨fuel, r.map Locating.found, ?_⟩
  rw [libLocateHandle, left]
  rfl

theorem libLocateHandle_mono {fuel more : Nat} {r : Except PoolFault HandlesFound} (le : fuel ≤ more)
    (run : libLocateHandle db fuel bs = some r) : libLocateHandle db more bs = some r :=
  Loop.run_map_mono le run

/-- Handles of which there are at most so many do not outgrow every buffer. -/
theorem not_outgrown (bs : BootServices) {limit : Nat} (bounded : ∀ n, (db.handles n).length ≤ limit) :
    ∃ n, ¬ Outgrown db bs n := by
  by_contra never
  have outgrown := not_exists_not.1 never
  have more : ∀ n, n ≤ capacity db bs.located n := by
    intro n
    induction n with
    | zero => exact Nat.zero_le _
    | succ n ih => exact Nat.lt_of_le_of_lt ih (outgrown n).2
  have large := Nat.lt_of_le_of_lt (more limit) (outgrown limit).2
  have small := bounded (bs.located + limit)
  omega

/-- **`LibLocateHandle`** returns unless the handles outgrow every buffer that it makes. However it ends it has
given back every buffer but the one it returns, each exactly once, and what it returns are the handles of its
last call, in a buffer that has room for them. -/
theorem libLocateHandle_safe (db : Database) (bs : BootServices) :
    ((∃ fuel r, libLocateHandle db fuel bs = some r) ↔ ∃ n, ¬ Outgrown db bs n) ∧
      ∀ fuel r, libLocateHandle db fuel bs = some r → ∃ f, r = .ok f ∧ f.Outcome db bs := by
  refine ⟨⟨?_, ?_⟩, fun fuel r run => libLocateHandle_outcome run⟩
  · rintro ⟨fuel, r, run⟩
    by_contra never
    rw [libLocateHandle_hangs (not_exists_not.1 never)] at run
    cases run
  · rintro ⟨n, fits⟩
    exact libLocateHandle_returns n fits

/-- Sixty handles, for which the first buffer is too small. -/
def crowded : Database where
  grants _ := true
  handles _ := List.range 60

theorem crowded_found : ∃ f, libLocateHandle crowded 3 ⟨Pool.empty, 0⟩ = some (.ok f) ∧ f.noHandles = 60 ∧
    f.Outcome crowded ⟨Pool.empty, 0⟩ := by
  obtain ⟨f, same, outcome⟩ := (libLocateHandle_safe crowded ⟨Pool.empty, 0⟩).2 3 _ rfl
  refine ⟨f, congrArg some same, ?_, outcome⟩
  rw [← Except.ok.inj same]
  rfl

end Lavoro
