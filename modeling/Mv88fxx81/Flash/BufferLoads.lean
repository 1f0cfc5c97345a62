import Mv88fxx81.Flash.RoundTrip
import Mv88fxx81.Lib.Tiling

/-!
# Loads of the write buffer

A block is programmed in loads of the write buffer. The commands of a load go to the
sector that is looked up for the first offset of the block, which is not the sector of
a later load when the block goes on in the next sector. A block of no bytes is
programmed, too.
-/

namespace Mv88fxx81.Flash

open NorMemory Tiling

/-- A load of the write buffer. The write-to-buffer command, the count and the confirm command go to
sector `sec`. Without the buffer the command is given up, and no word is written. -/
structure BufferLoad where
  sec : ℕ
  offset : ℕ
  length : ℕ
  granted : Bool
  deriving DecidableEq, Repr

/-- How the device answers to the loads in their order. -/
structure BufferDevice where
  /-- The buffer is granted before the time is over. -/
  grants : ℕ → Bool
  /-- The load is programmed without an error before the time is over. -/
  completes : ℕ → Bool

section

variable (dev : BufferDevice) (info : FlashInfo)

/-- The loop of `intelFlashHwBufferProg`, from load `k` on. The sector is looked up for the same
offset in every turn. -/
def hwBufferLoads (offset buffSize : ℕ) :
    ℕ → ℕ → ℕ → ℕ → Option (Status × List BufferLoad)
  | 0, _, _, _ => none
  | fuel + 1, k, byteCount, absOffInFlash =>
    let sec := info.mvFlashInWhichSec offset
    let load : BufferLoad := ⟨sec, absOffInFlash, info.bufferBytes, dev.grants k⟩
    if ¬ dev.grants k then some (.fail, [load])
    else if ¬ dev.completes k then some (.fail, [load])
    else
      let byteCount := (byteCount + 2 ^ 32 - buffSize) % 2 ^ 32
      if byteCount = 0 then some (.ok, [load])
      else
        (hwBufferLoads offset buffSize fuel (k + 1) byteCount
          (absOffInFlash + info.bufferBytes)).map fun result => (result.1, load :: result.2)

/-- `intelFlashHwBufferProg`, with the loads that it makes. -/
def intelFlashHwBufferLoads (fuel offset byteCount : ℕ) : Option (Status × List BufferLoad) :=
  let buffSize := info.mvFlashNumOfDevGet * info.hwBuffLen
  if buffSize = 0 then some (.badParam, [])
  else if byteCount % buffSize ≠ 0 then some (.badParam, [])
  else if offset % buffSize ≠ 0 then some (.badParam, [])
  else hwBufferLoads dev info offset buffSize fuel 0 byteCount offset

end

variable {dev : BufferDevice} {info : FlashInfo} {offset byteCount : ℕ}

/-! ### What should hold -/

/-- The widths of the bus and of the devices, and buffers of whole words. -/
structure FlashInfo.Widths (info : FlashInfo) : Prop where
  bus : info.busWidth = 1 ∨ info.busWidth = 2 ∨ info.busWidth = 4
  dev : info.devWidth = 1 ∨ info.devWidth = 2
  buff : info.hwBuffLen % 2 = 0

/-- The block is accepted. -/
def Accepted (info : FlashInfo) (offset byteCount : ℕ) : Prop :=
  info.mvFlashNumOfDevGet * info.hwBuffLen ≠ 0 ∧
    byteCount % (info.mvFlashNumOfDevGet * info.hwBuffLen) = 0 ∧
    offset % (info.mvFlashNumOfDevGet * info.hwBuffLen) = 0

/-- A load lies in the sector of its commands and in one buffer. -/
def LoadRight (info : FlashInfo) (load : BufferLoad) : Prop :=
  (∀ i < load.length, info.InSector (load.offset + i) load.sec) ∧
    load.offset % (info.mvFlashNumOfDevGet * info.hwBuffLen) + load.length ≤
      info.mvFlashNumOfDevGet * info.hwBuffLen

/-- The ranges of the loads that have got the buffer. -/
def grantedRanges (loads : List BufferLoad) : List (ℤ × ℤ) :=
  (loads.filter fun load => load.granted).map fun load => (load.offset, load.length)

/-- The call ends, and however the device answers, each load is right, the loads cover the block
from its start on, and all of it when the call succeeds. -/
def LoadsRight (info : FlashInfo) (offset byteCount : ℕ) : Prop :=
  ∀ dev : BufferDevice,
    (∃ fuel, (intelFlashHwBufferLoads dev info fuel offset byteCount).isSome = true) ∧
      ∀ fuel status loads,
        intelFlashHwBufferLoads dev info fuel offset byteCount = some (status, loads) →
          (∀ load ∈ loads, LoadRight info load) ∧
            ∃ stop, Tiles (grantedRanges loads) offset stop ∧ stop ≤ offset + byteCount ∧
              (status = .ok → stop = offset + byteCount)

/-! ### The loop -/

/-- One turn for a block that is not empty. -/
theorem byteCount_next {buffSize n : ℕ} (hpos : 0 < buffSize) (hlt : (n + 1) * buffSize < 2 ^ 32) :
    ((n + 1) * buffSize + 2 ^ 32 - buffSize) % 2 ^ 32 = n * buffSize := by
  rw [Nat.succ_mul] at hlt ⊢
  omega

section

variable {buffSize fuel k absOff n : ℕ}

/-- The load of a turn. -/
def turnLoad (dev : BufferDevice) (info : FlashInfo) (offset k absOff : ℕ) : BufferLoad :=
  ⟨info.mvFlashInWhichSec offset, absOff, info.bufferBytes, dev.grants k⟩

/-- A load that fails ends the loop. -/
theorem hwBufferLoads_fail (hfail : ¬ (dev.grants k = true ∧ dev.completes k = true)) :
    hwBufferLoads dev info offset buffSize (fuel + 1) k byteCount absOff =
      some (.fail, [turnLoad dev info offset k absOff]) := by
  unfold hwBufferLoads
  dsimp only
  by_cases hgrants : dev.grants k = true
  · rw [if_neg (not_not.mpr hgrants), if_pos fun hcompletes => hfail ⟨hgrants, hcompletes⟩]
    rfl
  · rw [if_pos hgrants]
    rfl

/-- The last load of a block. -/
theorem hwBufferLoads_last (hpos : 0 < buffSize) (hlt : (0 + 1) * buffSize < 2 ^ 32)
    (hok : dev.grants k = true ∧ dev.completes k = true) :
    hwBufferLoads dev info offset buffSize (fuel + 1) k ((0 + 1) * buffSize) absOff =
      some (.ok, [turnLoad dev info offset k absOff]) := by
  unfold hwBufferLoads
  dsimp only
  rw [if_neg (not_not.mpr hok.1), if_neg (not_not.mpr hok.2), byteCount_next hpos hlt,
    Nat.zero_mul, if_pos rfl]
  rfl

/-- Another load of a block. -/
theorem hwBufferLoads_more (hpos : 0 < buffSize) (hlt : (n + 1 + 1) * buffSize < 2 ^ 32)
    (hok : dev.grants k = true ∧ dev.completes k = true) :
    hwBufferLoads dev info offset buffSize (fuel + 1) k ((n + 1 + 1) * buffSize) absOff =
      (hwBufferLoads dev info offset buffSize fuel (k + 1) ((n + 1) * buffSize)
        (absOff + info.bufferBytes)).map fun result =>
          (result.1, turnLoad dev info offset k absOff :: result.2) := by
  have hrest : (n + 1) * buffSize ≠ 0 := Nat.mul_ne_zero (Nat.succ_ne_zero n) (by omega)
  conv_lhs => unfold hwBufferLoads
  dsimp only
  rw [if_neg (not_not.mpr hok.1), if_neg (not_not.mpr hok.2), byteCount_next hpos hlt,
    if_neg hrest]
  rfl

/-- A block that is one load shorter. -/
theorem shorter_lt (hlt : (n + 1 + 1) * buffSize < 2 ^ 32) : (n + 1) * buffSize < 2 ^ 32 :=
  Nat.lt_of_le_of_lt (Nat.mul_le_mul_right _ (Nat.le_succ _)) hlt

/-- With as many turns as loads the loop ends. -/
theorem hwBufferLoads_isSome (hpos : 0 < buffSize) (hlt : (n + 1) * buffSize < 2 ^ 32) :
    (hwBufferLoads dev info offset buffSize (n + 1) k ((n + 1) * buffSize) absOff).isSome =
      true := by
  induction n generalizing k absOff with
  | zero =>
    by_cases hok : dev.grants k = true ∧ dev.completes k = true
    · rw [hwBufferLoads_last hpos hlt hok]
      rfl
    · rw [hwBufferLoads_fail hok]
      rfl
  | succ n ih =>
    by_cases hok : dev.grants k = true ∧ dev.completes k = true
    · rw [hwBufferLoads_more hpos hlt hok, Option.isSome_map]
      exact ih (shorter_lt hlt)
    · rw [hwBufferLoads_fail hok]
      rfl

/-- A load of the loop, `j` loads after the first one. -/
def LoadAt (info : FlashInfo) (offset absOff j : ℕ) (load : BufferLoad) : Prop :=
  load.sec = info.mvFlashInWhichSec offset ∧ load.offset = absOff + j * info.bufferBytes ∧
    load.length = info.bufferBytes

theorem turnLoad_loadAt : LoadAt info offset absOff 0 (turnLoad dev info offset k absOff) :=
  ⟨rfl, by rw [Nat.zero_mul]; rfl, rfl⟩

/-- The loads behind the first one. -/
theorem LoadAt.succ {j : ℕ} {load : BufferLoad}
    (hat : LoadAt info offset (absOff + info.bufferBytes) j load) :
    LoadAt info offset absOff (j + 1) load := by
  obtain ⟨hsec, hoffset, hlength⟩ := hat
  refine ⟨hsec, ?_, hlength⟩
  rw [hoffset, Nat.succ_mul]
  omega

/-- A load that has got the buffer. -/
theorem grantedRanges_of_granted {load : BufferLoad} (loads : List BufferLoad)
    (hgranted : load.granted = true) :
    grantedRanges (load :: loads) =
      ((load.offset : ℤ), (load.length : ℤ)) :: grantedRanges loads := by
  have hfilter : (load :: loads).filter (fun load => load.granted) =
      load :: loads.filter fun load => load.granted := List.filter_cons_of_pos hgranted
  unfold grantedRanges
  rw [hfilter, List.map_cons]

/-- A load that has not got it. -/
theorem grantedRanges_of_refused {load : BufferLoad} (loads : List BufferLoad)
    (hrefused : load.granted = false) : grantedRanges (load :: loads) = grantedRanges loads := by
  have hfilter : (load :: loads).filter (fun load => load.granted) =
      loads.filter fun load => load.granted :=
    List.filter_cons_of_neg (Bool.eq_false_iff.mp hrefused)
  unfold grantedRanges
  rw [hfilter]

/-- The load of a turn, and the loads behind it. -/
theorem tiles_turnLoad {loads : List BufferLoad} {m : ℕ} (hgrants : dev.grants k = true)
    (htiles : Tiles (grantedRanges loads) (absOff + info.bufferBytes : ℕ)
      (absOff + info.bufferBytes + m * info.bufferBytes : ℕ)) :
    Tiles (grantedRanges (turnLoad dev info offset k absOff :: loads)) absOff
      (absOff + (m + 1) * info.bufferBytes : ℕ) := by
  have hstop : absOff + (m + 1) * info.bufferBytes =
      absOff + info.bufferBytes + m * info.bufferBytes := by
    rw [Nat.succ_mul]
    omega
  rw [grantedRanges_of_granted loads hgrants, hstop]
  exact ⟨rfl, Int.natCast_nonneg _, htiles⟩

/-- What is known of the loads that the loop has made. -/
def LoadsOf (info : FlashInfo) (offset absOff n : ℕ) (status : Status)
    (loads : List BufferLoad) : Prop :=
  (∀ load ∈ loads, ∃ j ≤ n, LoadAt info offset absOff j load) ∧
    ∃ m ≤ n + 1, Tiles (grantedRanges loads) absOff (absOff + m * info.bufferBytes : ℕ) ∧
      (status = .ok → m = n + 1)

/-- The loop has ended with the load of the turn. -/
theorem loadsOf_turnLoad {status : Status}
    (hok : status = .ok → dev.grants k = true ∧ n = 0) :
    LoadsOf info offset absOff n status [turnLoad dev info offset k absOff] := by
  constructor
  · intro load hload
    rw [List.mem_singleton.mp hload]
    exact ⟨0, Nat.zero_le n, turnLoad_loadAt⟩
  · cases hgrants : dev.grants k with
    | true =>
      refine ⟨1, by omega, ?_, fun hstatus => ?_⟩
      · have hnil : Tiles (grantedRanges []) (absOff + info.bufferBytes : ℕ)
            (absOff + info.bufferBytes + 0 * info.bufferBytes : ℕ) := by
          rw [Nat.zero_mul, Nat.add_zero]
          rfl
        exact tiles_turnLoad hgrants hnil
      · rw [(hok hstatus).2]
    | false =>
      refine ⟨0, Nat.zero_le _, ?_, fun hstatus => ?_⟩
      · rw [grantedRanges_of_refused [] hgrants, Nat.zero_mul]
        rfl
      · have hyes := (hok hstatus).1
        rw [hgrants] at hyes
        cases hyes

/-- The loads of the loop follow each other, and a loop that succeeds has made all of them. -/
theorem hwBufferLoads_loadsOf (hpos : 0 < buffSize) (hlt : (n + 1) * buffSize < 2 ^ 32)
    {status : Status} {loads : List BufferLoad}
    (hrun : hwBufferLoads dev info offset buffSize fuel k ((n + 1) * buffSize) absOff =
      some (status, loads)) : LoadsOf info offset absOff n status loads := by
  induction n generalizing fuel k absOff status loads with
  | zero =>
    cases fuel with
    | zero => cases hrun
    | succ fuel =>
      by_cases hok : dev.grants k = true ∧ dev.completes k = true
      · rw [hwBufferLoads_last hpos hlt hok] at hrun
        obtain ⟨rfl, rfl⟩ := Prod.mk.inj (Option.some.inj hrun)
        exact loadsOf_turnLoad fun _ => ⟨hok.1, rfl⟩
      · rw [hwBufferLoads_fail hok] at hrun
        obtain ⟨rfl, rfl⟩ := Prod.mk.inj (Option.some.inj hrun)
        exact loadsOf_turnLoad fun hfalse => by cases hfalse
  | succ n ih =>
    cases fuel with
    | zero => cases hrun
    | succ fuel =>
      by_cases hok : dev.grants k = true ∧ dev.completes k = true
      · rw [hwBufferLoads_more hpos hlt hok, Option.map_eq_some_iff] at hrun
        obtain ⟨⟨status', rest⟩, hrest, hresult⟩ := hrun
        obtain ⟨rfl, rfl⟩ := Prod.mk.inj hresult
        obtain ⟨hloads, m, hm, htiles, hall⟩ := ih (shorter_lt hlt) hrest
        refine ⟨fun load hload => ?_, m + 1, by omega, tiles_turnLoad hok.1 htiles,
          fun hstatus => by rw [hall hstatus]⟩
        rcases List.mem_cons.mp hload with rfl | hlater
        · exact ⟨0, Nat.zero_le _, turnLoad_loadAt⟩
        · obtain ⟨j, hj, hat⟩ := hloads load hlater
          exact ⟨j + 1, Nat.succ_le_succ hj, hat.succ⟩
      · rw [hwBufferLoads_fail hok] at hrun
        obtain ⟨rfl, rfl⟩ := Prod.mk.inj (Option.some.inj hrun)
        exact loadsOf_turnLoad fun hfalse => by cases hfalse

/-- A device that completes every load. -/
def perfectBuffer : BufferDevice := ⟨fun _ => true, fun _ => true⟩

/-- A loop that meets no failure makes every load. -/
theorem hwBufferLoads_perfect (hpos : 0 < buffSize) (hlt : (n + 1) * buffSize < 2 ^ 32) :
    ∃ loads, hwBufferLoads perfectBuffer info offset buffSize (n + 1) k ((n + 1) * buffSize)
      absOff = some (.ok, loads) ∧ ∀ j ≤ n, ∃ load ∈ loads, LoadAt info offset absOff j load := by
  induction n generalizing k absOff with
  | zero =>
    refine ⟨_, hwBufferLoads_last hpos hlt ⟨rfl, rfl⟩, fun j hj => ?_⟩
    obtain rfl : j = 0 := by omega
    exact ⟨_, List.mem_singleton_self _, turnLoad_loadAt⟩
  | succ n ih =>
    obtain ⟨loads, hrest, hall⟩ := @ih (k + 1) (absOff + info.bufferBytes) (shorter_lt hlt)
    refine ⟨turnLoad perfectBuffer info offset k absOff :: loads, ?_, fun j hj => ?_⟩
    · rw [hwBufferLoads_more hpos hlt ⟨rfl, rfl⟩, hrest]
      rfl
    · cases j with
      | zero => exact ⟨_, List.mem_cons_self, turnLoad_loadAt⟩
      | succ j =>
        obtain ⟨load, hload, hat⟩ := hall j (Nat.le_of_succ_le_succ hj)
        exact ⟨load, List.mem_cons_of_mem _ hload, hat.succ⟩

end

/-! ### The call -/

/-- The size of the write buffers of all devices. -/
def FlashInfo.buffSize (info : FlashInfo) : ℕ := info.mvFlashNumOfDevGet * info.hwBuffLen

/-- A block that is accepted is programmed. -/
theorem intelFlashHwBufferLoads_eq (haccepted : Accepted info offset byteCount) (fuel : ℕ) :
    intelFlashHwBufferLoads dev info fuel offset byteCount =
      hwBufferLoads dev info offset info.buffSize fuel 0 byteCount offset := by
  obtain ⟨hsize, hcount, hoffset⟩ := haccepted
  unfold intelFlashHwBufferLoads
  dsimp only
  rw [if_neg hsize, if_neg (not_not.mpr hcount), if_neg (not_not.mpr hoffset)]
  rfl

/-- A block that is accepted and not empty is a number of buffers. -/
theorem Accepted.loads (haccepted : Accepted info offset byteCount) (hne : byteCount ≠ 0) :
    ∃ n, byteCount = (n + 1) * info.buffSize := by
  obtain ⟨-, hcount, -⟩ := haccepted
  obtain ⟨n, hn⟩ := Nat.dvd_of_mod_eq_zero hcount
  cases n with
  | zero => exact absurd hn hne
  | succ n => exact ⟨n, hn.trans (Nat.mul_comm _ _)⟩

/-- A load has bytes. -/
theorem FlashInfo.Widths.bufferBytes_pos (hwidths : info.Widths) (hsize : info.buffSize ≠ 0) :
    0 < info.bufferBytes := by
  obtain ⟨hbus, hdev, hbuff⟩ := hwidths
  have hlen : info.hwBuffLen ≠ 0 := fun h => hsize (by
    unfold FlashInfo.buffSize
    rw [h, Nat.mul_zero])
  unfold FlashInfo.bufferBytes
  refine Nat.mul_pos ?_ ?_
  · rcases hdev with hdev | hdev
    · rw [hdev]
      omega
    · rw [hdev]
      omega
  · rcases hbus with hbus | hbus | hbus
    all_goals omega

/-- A load fills the buffers when the bus is not narrower than a device, and only then. -/
theorem FlashInfo.Widths.bufferBytes_eq_iff (hwidths : info.Widths) (hsize : info.buffSize ≠ 0) :
    info.bufferBytes = info.buffSize ↔ info.devWidth ≤ info.busWidth := by
  constructor
  · intro hfill
    by_contra hnarrow
    have hpos := hwidths.bufferBytes_pos hsize
    obtain ⟨hbus, hdev, -⟩ := hwidths
    obtain ⟨hbus, hdev⟩ : info.busWidth = 1 ∧ info.devWidth = 2 := by omega
    unfold FlashInfo.buffSize FlashInfo.mvFlashNumOfDevGet at hfill
    rw [if_neg hnarrow] at hfill
    unfold FlashInfo.bufferBytes at hfill hpos
    rw [hbus, hdev] at hfill hpos
    omega
  · exact bufferBytes_eq hwidths.bus hwidths.dev hwidths.buff

/-- The first load of an empty block is too long. -/
theorem loadsRight_ne_zero (hwidths : info.Widths) (haccepted : Accepted info offset byteCount)
    (hright : LoadsRight info offset byteCount) : byteCount ≠ 0 := by
  intro hzero
  have hpos := hwidths.bufferBytes_pos haccepted.1
  have hrun : intelFlashHwBufferLoads ⟨fun _ => true, fun _ => false⟩ info 1 offset byteCount =
      some (.fail, [turnLoad ⟨fun _ => true, fun _ => false⟩ info offset 0 offset]) := by
    rw [intelFlashHwBufferLoads_eq haccepted]
    refine hwBufferLoads_fail fun h => ?_
    cases h.2
  obtain ⟨-, stop, htiles, hstop, -⟩ := (hright _).2 1 _ _ hrun
  rw [grantedRanges_of_granted [] (by rfl)] at htiles
  obtain ⟨-, -, hrest⟩ := htiles
  have hend : (offset : ℤ) + (info.bufferBytes : ℤ) = stop := hrest
  omega

/-- The loads are right when the block is not empty, the loads fill the buffers and the whole block
lies in the sector of its first offset, and for no other block. -/
theorem loadsRight_iff (hwidths : info.Widths) (haccepted : Accepted info offset byteCount)
    (hcount : byteCount < 2 ^ 32) :
    LoadsRight info offset byteCount ↔
      byteCount ≠ 0 ∧ info.devWidth ≤ info.busWidth ∧
        ∀ i < byteCount, info.InSector (offset + i) (info.mvFlashInWhichSec offset) := by
  have hsize : 0 < info.buffSize := Nat.pos_of_ne_zero haccepted.1
  constructor
  · intro hright
    have hne := loadsRight_ne_zero hwidths haccepted hright
    obtain ⟨n, hn⟩ := haccepted.loads hne
    rw [hn] at hcount
    obtain ⟨loads, hrun, hall⟩ := @hwBufferLoads_perfect info offset info.buffSize 0 offset n
      hsize hcount
    obtain ⟨-, m, -, htiles, hm⟩ := hwBufferLoads_loadsOf hsize hcount hrun
    rw [← hn, ← intelFlashHwBufferLoads_eq haccepted] at hrun
    obtain ⟨hloads, stop, htiles', -, hstop⟩ := (hright _).2 _ _ _ hrun
    have hfill : info.bufferBytes = info.buffSize := by
      have hend := htiles.stop_eq htiles'
      rw [hstop rfl, hm rfl, hn] at hend
      have hmul : (n + 1) * info.bufferBytes = (n + 1) * info.buffSize := by omega
      exact Nat.eq_of_mul_eq_mul_left (Nat.succ_pos n) hmul
    refine ⟨hne, (hwidths.bufferBytes_eq_iff haccepted.1).mp hfill, fun i hi => ?_⟩
    have hj : i / info.buffSize < n + 1 := by
      rw [Nat.div_lt_iff_lt_mul hsize, ← hn]
      exact hi
    obtain ⟨load, hload, hsec, hoff, hlen⟩ := hall (i / info.buffSize) (Nat.le_of_lt_succ hj)
    have hin := (hloads load hload).1 (i % info.buffSize)
      (by rw [hlen, hfill]; exact Nat.mod_lt _ hsize)
    have hsplit := Nat.div_add_mod' i info.buffSize
    rw [hsec, hoff, hfill, Nat.add_assoc, hsplit] at hin
    exact hin
  · rintro ⟨hne, hwide, hsector⟩ dev
    obtain ⟨n, hn⟩ := haccepted.loads hne
    have hfill := (hwidths.bufferBytes_eq_iff haccepted.1).mpr hwide
    rw [hn] at hcount
    constructor
    · refine ⟨n + 1, ?_⟩
      rw [intelFlashHwBufferLoads_eq haccepted, hn]
      exact hwBufferLoads_isSome hsize hcount
    · intro fuel status loads hrun
      rw [intelFlashHwBufferLoads_eq haccepted, hn] at hrun
      obtain ⟨hloads, m, hm, htiles, hall⟩ := hwBufferLoads_loadsOf hsize hcount hrun
      rw [hfill] at htiles
      refine ⟨fun load hload => ?_, _, htiles, ?_, fun hstatus => ?_⟩
      · obtain ⟨j, hj, hsec, hoff, hlen⟩ := hloads load hload
        constructor
        · intro i hi
          rw [hsec, hoff, Nat.add_assoc]
          apply hsector
          rw [hlen, hfill] at hi
          rw [hfill, hn]
          calc j * info.buffSize + i < j * info.buffSize + info.buffSize :=
                Nat.add_lt_add_left hi _
            _ = (j + 1) * info.buffSize := (Nat.succ_mul j _).symm
            _ ≤ (n + 1) * info.buffSize := Nat.mul_le_mul_right _ (Nat.succ_le_succ hj)
        · have hmod : load.offset % info.buffSize = 0 := by
            rw [hoff, hfill, Nat.add_mul_mod_self_right]
            exact haccepted.2.2
          change load.offset % info.buffSize + load.length ≤ info.buffSize
          rw [hmod, hlen, hfill, Nat.zero_add]
      · have hle : m * info.buffSize ≤ byteCount := by
          rw [hn]
          exact Nat.mul_le_mul_right _ hm
        omega
      · rw [hall hstatus, ← hn]
        push_cast
        rfl

/-- Two sectors of two buffers. -/
def twoSectors : FlashInfo where
  flashVen := .intel
  sectorNum := 2
  hwBuffLen := 32
  sector n := ⟨n * 64, 64, false⟩
  busWidth := 1
  devWidth := 1

/-- The first sector is programmed. -/
theorem twoSectors_loadsRight : LoadsRight twoSectors 0 64 := by
  have hwidths : twoSectors.Widths := ⟨by decide, by decide, by decide⟩
  have haccepted : Accepted twoSectors 0 64 := ⟨by decide, by decide, by decide⟩
  have hfirst : twoSectors.mvFlashInWhichSec 0 = 0 := by decide
  refine (loadsRight_iff hwidths haccepted (by decide)).mpr ⟨by decide, by decide, fun i hi => ?_⟩
  rw [hfirst, Nat.zero_add]
  exact ⟨by decide, Nat.zero_le i, hi⟩

/-- A block that goes on in the second sector has its second load in the wrong one. -/
theorem not_loadsRight_all :
    ¬ ∀ (info : FlashInfo) (offset byteCount : ℕ), info.Widths → Accepted info offset byteCount →
      byteCount < 2 ^ 32 → LoadsRight info offset byteCount := by
  intro hall
  have hright := hall twoSectors 32 64 ⟨by decide, by decide, by decide⟩
    ⟨by decide, by decide, by decide⟩ (by decide)
  have hrun : intelFlashHwBufferLoads perfectBuffer twoSectors 2 32 64 =
      some (.ok, [⟨0, 32, 32, true⟩, ⟨0, 64, 32, true⟩]) := by
    decide
  have hload := ((hright perfectBuffer).2 _ _ _ hrun).1 ⟨0, 64, 32, true⟩ (by decide)
  have hin := (hload.1 0 (by decide)).2.2
  exact absurd hin (by decide)

/-! ### The memory -/

/-- The answers of a device to the loads of a block. -/
def FlashDevice.buffers (dev : FlashDevice) (info : FlashInfo) (offset : ℕ) : BufferDevice where
  grants k := dev.takes (info.mvFlashInWhichSec offset) (offset + k * info.bufferBytes)
  completes _ := true

/-- What a load of a block leaves in the flash. -/
def programLoad (info : FlashInfo) (offset : ℕ) (pData : List (BitVec 8)) (mem : ℕ → BitVec 8)
    (load : BufferLoad) : ℕ → BitVec 8 :=
  if load.granted then
    program mem load.offset
      (bufferWords info pData (info.hwBuffLen / info.devWidth) (load.offset - offset))
  else mem

/-- What the load of a turn leaves in the flash. -/
theorem programLoad_turnLoad {flashDev : FlashDevice} {pData : List (BitVec 8)}
    {mem : ℕ → BitVec 8} {k : ℕ}
    (htakes : flashDev.takes (info.mvFlashInWhichSec offset)
      (offset + k * info.bufferBytes) = true) :
    programLoad info offset pData mem
        (turnLoad (flashDev.buffers info offset) info offset k (offset + k * info.bufferBytes)) =
      program mem (offset + k * info.bufferBytes)
        (bufferWords info pData (info.hwBuffLen / info.devWidth) (k * info.bufferBytes)) := by
  unfold programLoad
  rw [if_pos (by exact htakes)]
  unfold turnLoad
  dsimp only
  rw [Nat.add_sub_cancel_left]

/-- The loop over the buffers programs the loads. -/
theorem hwBufferLoop_loads {flashDev : FlashDevice} {pData : List (BitVec 8)}
    {mem : ℕ → BitVec 8} {fuel k n : ℕ} {status : Status} {loads : List BufferLoad}
    (hpos : 0 < info.buffSize) (hlt : (n + 1) * info.buffSize < 2 ^ 32)
    (hrun : hwBufferLoads (flashDev.buffers info offset) info offset info.buffSize fuel k
      ((n + 1) * info.buffSize) (offset + k * info.bufferBytes) = some (status, loads)) :
    hwBufferLoop flashDev info (info.mvFlashInWhichSec offset) pData
        (info.hwBuffLen / info.devWidth) (n + 1) (k * info.bufferBytes)
        (offset + k * info.bufferBytes) mem =
      (status, loads.foldl (programLoad info offset pData) mem) := by
  induction n generalizing fuel k status loads mem with
  | zero =>
    cases fuel with
    | zero => cases hrun
    | succ fuel =>
      unfold hwBufferLoop
      by_cases htakes : flashDev.takes (info.mvFlashInWhichSec offset)
        (offset + k * info.bufferBytes) = true
      · rw [hwBufferLoads_last hpos hlt ⟨htakes, rfl⟩] at hrun
        obtain ⟨rfl, rfl⟩ := Prod.mk.inj (Option.some.inj hrun)
        rw [if_pos htakes, List.foldl_cons, List.foldl_nil, programLoad_turnLoad htakes]
        rfl
      · rw [hwBufferLoads_fail fun h => htakes h.1] at hrun
        obtain ⟨rfl, rfl⟩ := Prod.mk.inj (Option.some.inj hrun)
        rw [if_neg htakes, List.foldl_cons, List.foldl_nil]
        unfold programLoad
        rw [if_neg (by exact htakes)]
  | succ n ih =>
    cases fuel with
    | zero => cases hrun
    | succ fuel =>
      unfold hwBufferLoop
      by_cases htakes : flashDev.takes (info.mvFlashInWhichSec offset)
        (offset + k * info.bufferBytes) = true
      · rw [hwBufferLoads_more hpos hlt ⟨htakes, rfl⟩, Option.map_eq_some_iff] at hrun
        obtain ⟨⟨status', rest⟩, hrest, hresult⟩ := hrun
        obtain ⟨rfl, rfl⟩ := Prod.mk.inj hresult
        have hbytes : info.hwBuffLen / info.devWidth * info.busWidth = info.bufferBytes := rfl
        rw [Nat.add_assoc, ← Nat.succ_mul] at hrest
        rw [if_pos htakes, List.foldl_cons, programLoad_turnLoad htakes, hbytes, Nat.add_assoc,
          ← Nat.succ_mul]
        exact ih (shorter_lt hlt) hrest
      · rw [hwBufferLoads_fail fun h => htakes h.1] at hrun
        obtain ⟨rfl, rfl⟩ := Prod.mk.inj (Option.some.inj hrun)
        rw [if_neg htakes, List.foldl_cons, List.foldl_nil]
        unfold programLoad
        rw [if_neg (by exact htakes)]

/-- `intelFlashHwBufferProg` leaves in the flash what its loads program. -/
theorem intelFlashHwBufferProg_loads {flashDev : FlashDevice} {pData : List (BitVec 8)}
    {mem : ℕ → BitVec 8} {fuel : ℕ} {status : Status} {loads : List BufferLoad}
    (haccepted : Accepted info offset pData.length) (hne : pData.length ≠ 0)
    (hcount : pData.length < 2 ^ 32)
    (hrun : intelFlashHwBufferLoads (flashDev.buffers info offset) info fuel offset pData.length =
      some (status, loads)) :
    intelFlashHwBufferProg flashDev info mem offset pData =
      (status, loads.foldl (programLoad info offset pData) mem) := by
  have hsize : 0 < info.buffSize := Nat.pos_of_ne_zero haccepted.1
  obtain ⟨n, hn⟩ := haccepted.loads hne
  rw [intelFlashHwBufferLoads_eq haccepted, hn] at hrun
  rw [hn] at hcount
  have hloop := @hwBufferLoop_loads info offset flashDev pData mem fuel 0 n status loads hsize
    hcount (by rw [Nat.zero_mul]; exact hrun)
  rw [Nat.zero_mul, Nat.add_zero] at hloop
  have hturns : hwBufferTurns (info.mvFlashNumOfDevGet * info.hwBuffLen) pData.length = n + 1 := by
    rw [hwBufferTurns, if_neg hne, hn]
    exact Nat.mul_div_cancel _ hsize
  unfold intelFlashHwBufferProg
  dsimp only
  rw [if_neg haccepted.1, if_neg (not_not.mpr haccepted.2.1), if_neg (not_not.mpr haccepted.2.2),
    hturns]
  exact hloop

end Mv88fxx81.Flash
