import Lavoro.File.Protocols
import Lavoro.Screen.LScreen
import Mathlib.Data.Int.ModEq

/-!
# Boxes (`main.cpp`)

The command `filldemo` fills the screen with a chessboard of red and green boxes. `draw_boxes` asks for the modes from the
current one on; for the first that answers it fills a block of the pool and hands it to `Blt`. The size of the block
is kept in 32 bits. The answer itself is a block of the pool as well, which nothing gives back.
-/

namespace Lavoro.Screen
open Lib

/-- `EFI_NOT_STARTED`. -/
def efiNotStarted : EfiStatus := efiErr 19

/-- `Red` and `Green`. -/
inductive BoxColor where
  | red
  | green
  deriving DecidableEq, Repr

/-- `*(UINT32 *)Color`. -/
def BoxColor.value : BoxColor → BitVec 32
  | .red => 0x00ff0000#32
  | .green => 0x0000ff00#32

/-- `(Color == &Red) ? &Green : &Red`. -/
def BoxColor.other : BoxColor → BoxColor
  | .red => .green
  | .green => .red

/-- The body of the inner loop of `fill_boxes`: the pixels and `Color`. -/
def fillPixel (width : BitVec 32) (y : Nat) (s : Pixels × BoxColor) (x : Nat) : Pixels × BoxColor :=
  let color := if x % 32 = 0 ∧ x ≠ 0 then s.2.other else s.2
  (s.1.put (BitVec.ofNat 32 y * width + BitVec.ofNat 32 x).toNat color.value, color)

/-- A turn of the outer loop. -/
def fillRow (width : BitVec 32) (p : Pixels) (y : Nat) : Pixels :=
  ((List.range width.toNat).foldl (fillPixel width y) (p, if y / 32 % 2 = 0 then .red else .green)).1

/-- `fill_boxes(PixelBuffer, Width, Height)`. -/
def fillBoxes (p : Pixels) (width height : BitVec 32) : Pixels :=
  (List.range height.toNat).foldl (fillRow width) p

/-- The box of a point. -/
def boxColor (x y : Nat) : BoxColor := if (x / 32 + y / 32) % 2 = 0 then .red else .green

/-- The first `n` cells are those of a chessboard that is `w` wide, and no other has been accessed. -/
structure Boxed (w : Nat) (p : Pixels) (n : Nat) (p' : Pixels) : Prop where
  size : p'.size = p.size
  inside : p'.outside = p.outside
  cells : ∀ k, k < n → p'.cells k = (boxColor (k % w) (k / w)).value

/-- The color changes where a box ends. -/
theorem boxColor_next (x y : Nat) :
    (if x % 32 = 0 ∧ x ≠ 0 then (boxColor (x - 1) y).other else boxColor (x - 1) y) = boxColor x y := by
  unfold boxColor
  split
  · rename_i boundary
    have box : x / 32 = (x - 1) / 32 + 1 := by omega
    rw [box]
    by_cases even : ((x - 1) / 32 + y / 32) % 2 = 0
    · rw [if_pos even, if_neg (by omega)]
      rfl
    · rw [if_neg even, if_pos (by omega)]
      rfl
  · have box : x / 32 = (x - 1) / 32 := by omega
    rw [box]

variable {w n : Nat} {p p' : Pixels}

theorem Boxed.put (h : Boxed w p n p') (room : n < p.size) :
    Boxed w p (n + 1) (p'.put n (boxColor (n % w) (n / w)).value) := by
  have inside : n < p'.size := by rwa [h.size]
  rw [Pixels.put, if_pos inside]
  refine ⟨h.size, h.inside, ?_⟩
  intro k lt
  by_cases here : k = n
  · simp only [here, if_true]
  · simp only [here, if_false]
    exact h.cells k (by omega)

theorem cell_mod {x y : Nat} (left : x < w) : (y * w + x) % w = x := by
  rw [Nat.mul_add_mod_self_right, Nat.mod_eq_of_lt left]

theorem cell_div {x y : Nat} (left : x < w) : (y * w + x) / w = y := by
  rw [Nat.add_comm, Nat.add_mul_div_right _ _ (Nat.zero_lt_of_lt left), Nat.div_eq_of_lt left, Nat.zero_add]

/-- A point of the chessboard. -/
theorem Boxed.point {h x y : Nat} (boxed : Boxed w p (h * w) p') (left : x < w) (below : y < h) :
    p'.cells (y * w + x) = (boxColor x y).value := by
  have lt := cell_lt left below
  rw [Nat.mul_comm w h] at lt
  rw [boxed.cells _ lt, cell_mod left, cell_div left]

/-- `y * Width + x`, where it does not wrap round. -/
theorem toNat_cell {width : BitVec 32} {x y : Nat} (small : y * width.toNat + x < 2 ^ 32) :
    (BitVec.ofNat 32 y * width + BitVec.ofNat 32 x).toNat = y * width.toNat + x := by
  rw [BitVec.toNat_add, BitVec.toNat_mul, BitVec.toNat_ofNat, BitVec.toNat_ofNat, ← Nat.add_mod]
  calc (y % 2 ^ 32 * width.toNat + x) % 2 ^ 32
      = (y * width.toNat + x) % 2 ^ 32 := ((Nat.mod_modEq y _).mul_right _).add_right x
    _ = y * width.toNat + x := Nat.mod_eq_of_lt small

/-- A turn of the inner loop writes the next cell. -/
theorem Boxed.pixel {width : BitVec 32} {x y : Nat} (h : Boxed width.toNat p (y * width.toNat + x) p') (left : x < width.toNat)
    (room : y * width.toNat + x < p.size) (small : y * width.toNat + x < 2 ^ 32) :
    ∃ p'', fillPixel width y (p', boxColor (x - 1) y) x = (p'', boxColor x y) ∧
      Boxed width.toNat p (y * width.toNat + (x + 1)) p'' := by
  refine ⟨p'.put (y * width.toNat + x) (boxColor x y).value, ?_, ?_⟩
  · simp only [fillPixel, boxColor_next, toNat_cell small]
  · have next := h.put room
    rwa [cell_mod left, cell_div left] at next

theorem Boxed.row {width : BitVec 32} {y : Nat} (h : Boxed width.toNat p (y * width.toNat) p')
    (room : (y + 1) * width.toNat ≤ p.size) (small : (y + 1) * width.toNat ≤ 2 ^ 32) :
    Boxed width.toNat p ((y + 1) * width.toNat) (fillRow width p' y) := by
  rw [Nat.succ_mul] at room small ⊢
  let Inv (x : Nat) (s : Pixels × BoxColor) : Prop :=
    Boxed width.toNat p (y * width.toNat + x) s.1 ∧ s.2 = boxColor (x - 1) y
  have turn : ∀ x s, x < width.toNat → Inv x s → Inv (x + 1) (fillPixel width y s x) := by
    rintro x ⟨before, color⟩ left ⟨boxed, rfl⟩
    obtain ⟨after, made, next⟩ := boxed.pixel left (by omega) (by omega)
    rw [made]
    exact ⟨next, rfl⟩
  have first : (if y / 32 % 2 = 0 then BoxColor.red else .green) = boxColor (0 - 1) y := by
    simp [boxColor]
  exact (Loop.foldl_range turn ⟨h, first⟩).1

/-- **The chessboard**, where the block has a cell for each of its points. -/
theorem fillBoxes_boxed {width height : BitVec 32} (room : height.toNat * width.toNat ≤ p.size) (small : p.size ≤ 2 ^ 32) :
    Boxed width.toNat p (height.toNat * width.toNat) (fillBoxes p width height) := by
  apply Loop.foldl_range (P := fun y p' => Boxed width.toNat p (y * width.toNat) p')
  · intro y p' below boxed
    have rows : (y + 1) * width.toNat ≤ height.toNat * width.toNat := Nat.mul_le_mul_right _ below
    exact boxed.row (by omega) (by omega)
  · refine ⟨rfl, rfl, fun k lt => ?_⟩
    rw [Nat.zero_mul] at lt
    exact absurd lt (Nat.not_lt_zero k)

theorem put_size (p : Pixels) (k : Nat) (value : BitVec 32) : (p.put k value).size = p.size := by
  unfold Pixels.put
  split <;> rfl

theorem put_outside {k : Nat} {value : BitVec 32} (outside : p.outside = true) : (p.put k value).outside = true := by
  unfold Pixels.put
  split
  · exact outside
  · rfl

theorem put_behind {k : Nat} (behind : p.size ≤ k) (value : BitVec 32) : (p.put k value).outside = true := by
  rw [Pixels.put, if_neg (Nat.not_lt.2 behind)]

theorem fillRow_size (width : BitVec 32) (p : Pixels) (y : Nat) : (fillRow width p y).size = p.size := by
  apply Loop.foldl_range (P := fun _ (s : Pixels × BoxColor) => s.1.size = p.size)
  · intro x s _ size
    exact (put_size ..).trans size
  · rfl

theorem fillRow_outside {width : BitVec 32} (y : Nat) (outside : p.outside = true) : (fillRow width p y).outside = true := by
  apply Loop.foldl_range (P := fun _ (s : Pixels × BoxColor) => s.1.outside = true)
  · intro x s _ outside
    exact put_outside outside
  · exact outside

/-- The row of the first cell behind the block. -/
theorem fillRow_behind {width : BitVec 32} (wide : 0 < width.toNat) (small : p.size < 2 ^ 32) :
    (fillRow width p (p.size / width.toNat)).outside = true := by
  have cell : p.size / width.toNat * width.toNat + p.size % width.toNat = p.size := Nat.div_add_mod' ..
  have mem : p.size % width.toNat ∈ List.range width.toNat := List.mem_range.2 (Nat.mod_lt _ wide)
  let Sized (s : Pixels × BoxColor) : Prop := s.1.size = p.size
  let Outside (s : Pixels × BoxColor) : Prop := s.1.outside = true
  have sized : ∀ s x, Sized s → Sized (fillPixel width (p.size / width.toNat) s x) := fun s x size =>
    (put_size ..).trans size
  have keep : ∀ s x, Outside s → Outside (fillPixel width (p.size / width.toNat) s x) := fun s x outside =>
    put_outside outside
  have make : ∀ s, Sized s → Outside (fillPixel width (p.size / width.toNat) s (p.size % width.toNat)) := by
    intro s size
    apply put_behind
    rw [toNat_cell (by omega), cell, size]
  exact Loop.foldl_reaches sized keep mem make rfl

/-- **A block that is too small** is written behind its end. -/
theorem fillBoxes_outside {width height : BitVec 32} (small : p.size < 2 ^ 32) (more : p.size < height.toNat * width.toNat) :
    (fillBoxes p width height).outside = true := by
  have wide : 0 < width.toNat := Nat.pos_of_ne_zero fun none => by simp [none] at more
  have mem : p.size / width.toNat ∈ List.range height.toNat :=
    List.mem_range.2 ((Nat.div_lt_iff_lt_mul wide).2 more)
  let Sized (p' : Pixels) : Prop := p'.size = p.size
  let Outside (p' : Pixels) : Prop := p'.outside = true
  have sized : ∀ p' y, Sized p' → Sized (fillRow width p' y) := fun p' y size => (fillRow_size ..).trans size
  have keep : ∀ p' y, Outside p' → Outside (fillRow width p' y) := fun p' y outside => fillRow_outside y outside
  have make : ∀ p', Sized p' → Outside (fillRow width p' (p.size / width.toNat)) := by
    intro p' size
    rw [← size]
    exact fillRow_behind wide (by rwa [size])
  exact Loop.foldl_reaches sized keep mem make rfl

/-! ## The command -/

/-- `sizeof (EFI_GRAPHICS_OUTPUT_MODE_INFORMATION)`. -/
def sizeofModeInfo : Nat := 36

/-- Of `EFI_GRAPHICS_OUTPUT_MODE_INFORMATION`, the resolution. -/
structure ModeInfo where
  horizontalResolution : BitVec 32
  verticalResolution : BitVec 32

/-- A graphics protocol: `Mode->Mode` and `Mode->MaxMode`, unless `Mode` is `NULL`; what each call of `QueryMode` answers;
and what is in the memory of the block. -/
structure Gop where
  mode : Option (BitVec 32 × BitVec 32)
  queryMode : Nat → BitVec 32 → EfiStatus × ModeInfo
  memory : Nat → BitVec 32

/-- `for (i = gop->Mode->Mode; i < imax; i++)`, where both have become an `int`. -/
def modesFrom (mode maxMode : BitVec 32) : List (BitVec 32) :=
  (List.range (maxMode.toInt - mode.toInt).toNat).map fun k => mode + BitVec.ofNat 32 k

/-- `QueryMode`, and once more behind `SetMode` where the protocol has not been started: the answer, and how many calls
there have been. -/
def queryStarted (gop : Gop) (calls : Nat) (mode : BitVec 32) : (EfiStatus × ModeInfo) × Nat :=
  let answer := gop.queryMode calls mode
  if answer.1 = efiNotStarted then (gop.queryMode (calls + 1) mode, calls + 2) else (answer, calls + 1)

/-- What `Blt` is given. -/
structure Blt where
  pixels : Pixels
  width : BitVec 32
  height : BitVec 32

structure BoxesDrawn where
  pool : Pool
  blt : Option Blt

/-- `BufferSize`. -/
def ModeInfo.bufferSize (info : ModeInfo) : BitVec 32 :=
  (info.verticalResolution.setWidth 64 * info.horizontalResolution.setWidth 64 * 4#64).setWidth 32

/-- The body of the loop of `draw_boxes` behind the answer of a mode. -/
def drawMode (grants : Nat → Bool) (gop : Gop) (info : ModeInfo) (pool : Pool) : Except PoolFault BoxesDrawn :=
  let size := info.bufferSize.toNat
  match pool.allocate (grants pool.requests) size with
  | (none, pool) => .ok ⟨pool, none⟩
  | (some b, pool) =>
    let pixels := fillBoxes ⟨size / 4, gop.memory, false⟩ info.horizontalResolution info.verticalResolution
    if pixels.outside then .error .overrun
    else (freePool pool b).map fun pool => ⟨pool, some ⟨pixels, info.horizontalResolution, info.verticalResolution⟩⟩

/-- The loop of `draw_boxes`. A `QueryMode` that succeeds has made a block for `info`. -/
def drawModes (grants : Nat → Bool) (gop : Gop) (pool : Pool) : List (BitVec 32) → Nat → Except PoolFault BoxesDrawn
  | [], _ => .ok ⟨pool, none⟩
  | mode :: modes, calls =>
    let queried := queryStarted gop calls mode
    if efiError queried.1.1 then drawModes grants gop pool modes queried.2
    else drawMode grants gop queried.1.2 (pool.grant sizeofModeInfo)

/-- `draw_boxes(gop)`. -/
def drawBoxes (grants : Nat → Bool) (gop : Gop) (pool : Pool) : Except PoolFault BoxesDrawn :=
  match gop.mode with
  | none => .ok ⟨pool, none⟩
  | some (mode, maxMode) => drawModes grants gop pool (modesFrom mode maxMode) 0

/-- What the first mode that answers says. -/
def Gop.answered (gop : Gop) : List (BitVec 32) → Nat → Option ModeInfo
  | [], _ => none
  | mode :: modes, calls =>
    let queried := queryStarted gop calls mode
    if efiError queried.1.1 then gop.answered modes queried.2 else some queried.1.2

/-- The same from the current mode on. -/
def Gop.current (gop : Gop) : Option ModeInfo :=
  gop.mode.bind fun modes => gop.answered (modesFrom modes.1 modes.2) 0

/-- How many points there are. -/
def ModeInfo.area (info : ModeInfo) : Nat := info.verticalResolution.toNat * info.horizontalResolution.toNat

/-- The picture is a chessboard of this resolution. -/
structure Blt.Chessboard (info : ModeInfo) (blt : Blt) : Prop where
  width : blt.width = info.horizontalResolution
  height : blt.height = info.verticalResolution
  cells : ∀ x y, x < blt.width.toNat → y < blt.height.toNat →
    blt.pixels.cells (y * blt.width.toNat + x) = (boxColor x y).value

/-- Between two points of the pool so many blocks have been made and left, all of them answers of `QueryMode`. -/
def LeavesInfos (pool pool' : Pool) (count : Nat) : Prop :=
  ∃ infos, Pool.Holds pool pool' infos ∧ infos.length = count ∧ ∀ b ∈ infos, pool'.live b = some sizeofModeInfo

/-- How `draw_boxes` ends: there is no mode, no memory, or a chessboard, unless the size of the block has wrapped round. -/
inductive DrawOutcome (grants : Nat → Bool) (gop : Gop) (pool : Pool) : Except PoolFault BoxesDrawn → Prop where
  | unanswered (none : gop.current = none) : DrawOutcome grants gop pool (.ok ⟨pool, Option.none⟩)
  | refused {info pool'} (current : gop.current = some info) (refused : grants (pool.requests + 1) = false)
      (ledger : LeavesInfos pool pool' 1) : DrawOutcome grants gop pool (.ok ⟨pool', none⟩)
  | shown {info pool' blt} (current : gop.current = some info) (granted : grants (pool.requests + 1) = true)
      (small : info.area < 2 ^ 30) (ledger : LeavesInfos pool pool' 1) (picture : Blt.Chessboard info blt) :
      DrawOutcome grants gop pool (.ok ⟨pool', some blt⟩)
  | overrun {info} (current : gop.current = some info) (granted : grants (pool.requests + 1) = true)
      (large : 2 ^ 30 ≤ info.area) : DrawOutcome grants gop pool (.error .overrun)

variable {grants : Nat → Bool} {gop : Gop} {pool : Pool} {info : ModeInfo}

theorem bufferSize_toNat (info : ModeInfo) : info.bufferSize.toNat = 4 * info.area % 2 ^ 32 := by
  have high : info.verticalResolution.toNat % 2 ^ 64 = info.verticalResolution.toNat :=
    Nat.mod_eq_of_lt (Nat.lt_trans info.verticalResolution.isLt (by decide))
  have wide : info.horizontalResolution.toNat % 2 ^ 64 = info.horizontalResolution.toNat :=
    Nat.mod_eq_of_lt (Nat.lt_trans info.horizontalResolution.isLt (by decide))
  have points : info.area % 2 ^ 64 = info.area :=
    Nat.mod_eq_of_lt (show _ < 2 ^ 32 * 2 ^ 32 from
      Nat.mul_lt_mul'' info.verticalResolution.isLt info.horizontalResolution.isLt)
  rw [ModeInfo.bufferSize, BitVec.toNat_setWidth, BitVec.toNat_mul, BitVec.toNat_mul, BitVec.toNat_setWidth,
    BitVec.toNat_setWidth, high, wide]
  change (info.area % 2 ^ 64 * 4) % 2 ^ 64 % 2 ^ 32 = _
  rw [points]
  omega

/-- What comes behind an answer of `QueryMode` leaves this. -/
theorem leavesInfo {pool' : Pool} (after : Pool.Holds (pool.grant sizeofModeInfo) pool' []) : LeavesInfos pool pool' 1 := by
  refine ⟨[pool.requests] ++ [], (Pool.holds_grant pool sizeofModeInfo).trans after, rfl, ?_⟩
  intro b mem
  obtain rfl : b = pool.requests := by simpa using mem
  rw [after.kept _ List.not_mem_nil]
  exact Pool.grant_live_self

/-- The block of a mode: it has a cell for each point, unless its size wraps round. -/
theorem drawMode_outcome (current : gop.current = some info) :
    DrawOutcome grants gop pool (drawMode grants gop info (pool.grant sizeofModeInfo)) := by
  have cells : info.bufferSize.toNat / 4 = info.area % 2 ^ 30 := by
    rw [bufferSize_toNat]
    omega
  by_cases granted : grants (pool.requests + 1) = true
  · simp only [drawMode, Pool.grant_requests, granted, Pool.allocate_true, cells]
    by_cases small : info.area < 2 ^ 30
    · rw [Nat.mod_eq_of_lt small]
      have boxed : Boxed info.horizontalResolution.toNat ⟨info.area, gop.memory, false⟩ info.area
          (fillBoxes ⟨info.area, gop.memory, false⟩ info.horizontalResolution info.verticalResolution) :=
        fillBoxes_boxed (Nat.le_refl _) (Nat.le_trans (Nat.le_of_lt small) (by decide))
      obtain ⟨freed, left⟩ := freePool_holds (Pool.holds_grant (pool.grant sizeofModeInfo) info.bufferSize.toNat)
      rw [Pool.grant_requests] at freed left
      rw [if_neg (by rw [boxed.inside]; exact Bool.false_ne_true), freed]
      exact .shown current granted small (leavesInfo left) ⟨rfl, rfl, fun x y left below => boxed.point left below⟩
    · rw [if_pos ?_]
      · exact .overrun current granted (Nat.le_of_not_lt small)
      · have wrapped := Nat.mod_lt info.area (show 0 < 2 ^ 30 by decide)
        apply fillBoxes_outside
        · change info.area % 2 ^ 30 < 2 ^ 32
          omega
        · change info.area % 2 ^ 30 < info.area
          omega
  · have refused : grants (pool.requests + 1) = false := Bool.eq_false_iff.2 granted
    simp only [drawMode, Pool.grant_requests, refused, Pool.allocate_false]
    exact .refused current refused (leavesInfo (Pool.holds_refuse _))

theorem drawModes_outcome {modes : List (BitVec 32)} {calls : Nat} (current : gop.current = gop.answered modes calls) :
    DrawOutcome grants gop pool (drawModes grants gop pool modes calls) := by
  induction modes generalizing calls with
  | nil => exact .unanswered current
  | cons mode modes ih =>
    rw [Gop.answered] at current
    rw [drawModes]
    by_cases error : efiError (queryStarted gop calls mode).1.1 = true
    · simp only [error, if_true] at current ⊢
      exact ih current
    · simp only [error] at current ⊢
      exact drawMode_outcome current

/-- **`draw_boxes`** ends in one of the four ways. -/
theorem drawBoxes_outcome (grants : Nat → Bool) (gop : Gop) (pool : Pool) :
    DrawOutcome grants gop pool (drawBoxes grants gop pool) := by
  unfold drawBoxes
  split
  · rename_i none
    exact .unanswered (by rw [Gop.current, none]; rfl)
  · rename_i mode maxMode some
    exact drawModes_outcome (by rw [Gop.current, some]; rfl)

/-- The command `filldemo`: its status, what has been drawn, and the memory. Without a protocol `ConsoleMode` returns. -/
def filldemo (fw : Protocols) (gops : Nat → Gop) (fuel : Nat) (bs : BootServices) :
    Option (Except PoolFault (EfiStatus × Option Blt × BootServices)) :=
  (libLocateProtocol fw fuel bs).map fun result => result.bind fun p =>
    if efiError p.status then .ok (p.status, none, p.bs)
    else
      match p.interface with
      | none => .ok (efiErr 3, none, p.bs)
      | some i => (drawBoxes fw.grants (gops i) p.bs.pool).map fun d => (p.status, d.blt, { p.bs with pool := d.pool })

/-- Where a mode has answered, its answer stays. -/
theorem DrawOutcome.ledger {d : BoxesDrawn} (h : DrawOutcome grants gop pool (.ok d)) :
    LeavesInfos pool d.pool (if gop.current.isSome then 1 else 0) := by
  cases h with
  | unanswered none =>
    rw [none]
    exact ⟨[], Pool.Holds.refl pool, rfl, fun _ mem => absurd mem List.not_mem_nil⟩
  | refused current refused ledger =>
    rw [current]
    exact ledger
  | shown current granted small ledger picture =>
    rw [current]
    exact ledger

/-- How many answers of `QueryMode` stay behind `filldemo`: that of the mode it draws on, if there is one. -/
def infosLeft (gops : Nat → Gop) (p : ProtocolFound) : Nat :=
  if efiError p.status then 0
  else if (p.interface.bind fun i => (gops i).current).isSome then 1 else 0

/-- How `filldemo` ends behind `LibLocateProtocol`, and what it leaves in the pool. -/
structure FilldemoEnds (fw : Protocols) (gops : Nat → Gop) (bs : BootServices) (p : ProtocolFound)
    (r : Except PoolFault (EfiStatus × Option Blt × BootServices)) : Prop where
  located : p.Outcome fw bs
  drawn : efiError p.status = true ∧ r = .ok (p.status, none, p.bs) ∨
    ∃ i drawn, p.interface = some i ∧ DrawOutcome fw.grants (gops i) p.bs.pool drawn ∧
      r = drawn.map fun d => (p.status, d.blt, { p.bs with pool := d.pool })
  ledger : ∀ status blt bs', r = .ok (status, blt, bs') → LeavesInfos bs.pool bs'.pool (infosLeft gops p)

section Filldemo

variable {fw : Protocols} {gops : Nat → Gop} {bs : BootServices}

/-- What is made behind `LibLocateProtocol` is all that is left. -/
theorem LeavesInfos.behind {p : ProtocolFound} (located : p.Outcome fw bs) {pool' : Pool} {count : Nat}
    (h : LeavesInfos p.bs.pool pool' count) : LeavesInfos bs.pool pool' count := by
  obtain ⟨kept, before, none⟩ := located.ledger
  obtain rfl := List.eq_nil_of_length_eq_zero none
  obtain ⟨infos, holds, length, sizes⟩ := h
  exact ⟨[] ++ infos, before.trans holds, length, sizes⟩

theorem filldemo_ends {fuel : Nat} {r : Except PoolFault (EfiStatus × Option Blt × BootServices)}
    (run : filldemo fw gops fuel bs = some r) : ∃ p, FilldemoEnds fw gops bs p r := by
  obtain ⟨located, found, rfl⟩ := Option.map_eq_some_iff.1 run
  obtain ⟨p, rfl, outcome⟩ := libLocateProtocol_outcome found
  by_cases error : efiError p.status = true
  · refine ⟨p, outcome, .inl ⟨error, if_pos error⟩, ?_⟩
    intro status blt bs' ok
    simp only [Except.bind, error, if_true] at ok
    cases ok
    rw [infosLeft, if_pos error]
    exact LeavesInfos.behind outcome ⟨[], Pool.Holds.refl _, rfl, fun _ mem => absurd mem List.not_mem_nil⟩
  · obtain ⟨i, interface⟩ := Option.isSome_iff_exists.1 (outcome.interface (Bool.eq_false_iff.2 error))
    have drawn := drawBoxes_outcome fw.grants (gops i) p.bs.pool
    simp only [Except.bind, error, interface]
    refine ⟨p, outcome, .inr ⟨i, _, interface, drawn, rfl⟩, ?_⟩
    intro status blt bs' ok
    cases ended : drawBoxes fw.grants (gops i) p.bs.pool with
    | error fault =>
      rw [ended] at ok
      cases ok
    | ok d =>
      rw [ended] at ok drawn
      cases ok
      rw [infosLeft, if_neg error, interface]
      exact LeavesInfos.behind outcome drawn.ledger

/-- **`filldemo`** returns unless the handles outgrow every buffer of `LibLocateProtocol`. It gives back all the memory
that it has made, but not the answer of the mode it draws on, which `QueryMode` has made. What it hands to `Blt` is a
chessboard of the resolution that the graphics protocol located says first; it writes behind the end of its block
exactly if that has 2^30 points or more. -/
theorem filldemo_safe (fw : Protocols) (gops : Nat → Gop) (bs : BootServices) :
    ((∃ fuel r, filldemo fw gops fuel bs = some r) ↔ ∃ n, ¬ Outgrown fw.toDatabase bs n) ∧
      ∀ fuel r, filldemo fw gops fuel bs = some r → ∃ p, FilldemoEnds fw gops bs p r := by
  refine ⟨?_, fun fuel r run => filldemo_ends run⟩
  rw [← libLocateProtocol_returns_iff]
  simp only [filldemo, Option.map_eq_some_iff]
  exact ⟨fun ⟨fuel, _, located, found, _⟩ => ⟨fuel, located, found⟩,
    fun ⟨fuel, located, found⟩ => ⟨fuel, _, located, found, rfl⟩⟩

end Filldemo

/-- A screen of four points by three, of which the first answer is that it has not been started. -/
def startedLate : Gop where
  mode := some (0, 1)
  queryMode calls _ := if calls = 0 then (efiNotStarted, ⟨0, 0⟩) else (efiSuccess, ⟨4, 3⟩)
  memory _ := 0

theorem startedLate_drawn : ∃ r p, filldemo served (fun _ => startedLate) 3 ⟨Pool.empty, 0⟩ = some r ∧
    FilldemoEnds served (fun _ => startedLate) ⟨Pool.empty, 0⟩ p r := by
  have run : filldemo served (fun _ => startedLate) 3 ⟨Pool.empty, 0⟩ = some _ := rfl
  obtain ⟨p, ends⟩ := (filldemo_safe served (fun _ => startedLate) ⟨Pool.empty, 0⟩).2 3 _ run
  exact ⟨_, p, run, ends⟩

end Lavoro.Screen
