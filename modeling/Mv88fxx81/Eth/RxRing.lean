import Mathlib.Data.Finset.Card
import Mathlib.Data.Finset.Range
import Mathlib.Data.Int.Notation
import Mathlib.Data.List.Basic
import Mathlib.Logic.Function.Basic
import Mv88fxx81.Lib.RingIndex
import Mv88fxx81.Lib.Run

/-!
# The receive ring

The receive descriptors of a queue form a ring. `mvEthPortRxDone` hands a buffer to
the hardware at the descriptor `used`, the hardware fills it, and `mvEthPortRx`
takes the filled buffer at the descriptor `curr`. A frame that is spread over
several buffers is not accepted: its buffers are handed to the hardware again.

The ring is compared with the list of the buffers in it. The hardware may fill
any descriptor it owns at any time, also while `mvEthPortRx` is in its loop.
-/

namespace Mv88fxx81.Eth

open RingIndex TransitionSystem

/-- `ETH_RX_DESC`. The link to the next descriptor never changes and is left out. -/
structure RxDesc where
  cmdSts : BitVec 32
  bufSize : BitVec 16
  byteCnt : BitVec 16
  bufPtr : BitVec 32
  returnInfo : BitVec 32
  deriving DecidableEq, Repr

/-- `ETH_BUFFER_OWNED_BY_DMA`. -/
def bufferOwnedByDma : BitVec 32 := BitVec.twoPow 32 31

/-- `ETH_RX_LAST_DESC_MASK`. -/
def rxLastDescMask : BitVec 32 := BitVec.twoPow 32 26

/-- `ETH_RX_FIRST_DESC_MASK`. -/
def rxFirstDescMask : BitVec 32 := BitVec.twoPow 32 27

/-- `ETH_RX_ENABLE_INTERRUPT_MASK`. -/
def rxEnableInterruptMask : BitVec 32 := BitVec.twoPow 32 29

/-- `ETH_RX_BUFFER_MASK`. -/
def rxBufferMask : BitVec 16 := 0xFFF8

/-- `ETH_RX_IP_FRAGMENTED_FRAME_MASK`. -/
def rxIpFragmentedFrameMask : BitVec 16 := BitVec.twoPow 16 2

/-- The test `cmdSts & ETH_BUFFER_OWNED_BY_DMA`. -/
def ownedByDma (cmdSts : BitVec 32) : Bool := cmdSts &&& bufferOwnedByDma != 0

/-- A receive buffer: the `osInfo` of the packet that brings it, the physical address of its
memory and its size. -/
structure RxBuf where
  osInfo : BitVec 32
  bufPhysAddr : BitVec 32
  bufSize : BitVec 16
  deriving DecidableEq, Repr

/-- What `mvEthPortRx` fills in of `MV_PKT_INFO`. -/
structure RxPkt where
  pktSize : BitVec 16
  status : BitVec 32
  osInfo : BitVec 32
  fragIP : BitVec 16
  deriving DecidableEq, Repr

/-- The queue control of a receive queue and its descriptors. `inRx` says that `mvEthPortRx` is in
its loop. -/
structure RxRing where
  desc : ℕ → RxDesc
  curr : ℕ
  used : ℕ
  resource : ℤ
  inRx : Bool

/-- `ethInitRxDescRing`. -/
def ethInitRxDescRing : RxRing :=
  { desc := fun _ => ⟨0, 0, 0, 0, 0⟩
    curr := 0
    used := 0
    resource := 0
    inRx := false }

/-- The results of `mvEthPortRxDone`. -/
inductive RxDoneStatus
  | ok
  | full
  | outOfRange
  deriving DecidableEq, Repr

/-- The calls of the driver, one iteration of the loop of `mvEthPortRx`, and the hardware filling
the buffer of a descriptor with a part of a frame. -/
inductive RxEvent
  | rx
  | rxIteration
  | rxDone (buf : RxBuf)
  | forceRx
  | fill (i : ℕ) (cmdSts : BitVec 32) (byteCnt : BitVec 16) (fragIP : BitVec 16)
  deriving DecidableEq, Repr

/-- What an event answers. -/
inductive RxAnswer
  | noResource
  | looping
  | noMore
  | received (pkt : RxPkt)
  | recycled
  | rxDone (status : RxDoneStatus)
  | empty
  | forced (status osInfo : BitVec 32)
  | filled
  deriving DecidableEq, Repr

namespace RxRing

/-- Hand a buffer to the hardware at a descriptor. -/
def give (d : RxDesc) (bufPtr returnInfo : BitVec 32) (bufSize : BitVec 16) : RxDesc :=
  { d with
    bufPtr := bufPtr
    returnInfo := returnInfo
    bufSize := bufSize &&& rxBufferMask
    cmdSts := bufferOwnedByDma ||| rxEnableInterruptMask }

/-- The entry of `mvEthPortRx`. -/
def mvEthPortRx (s : RxRing) : RxAnswer × RxRing :=
  if s.resource = 0 then (.noResource, s) else (.looping, { s with inRx := true })

/-- One iteration of the loop of `mvEthPortRx`. -/
def mvEthPortRxIteration (N : ℕ) (s : RxRing) : RxAnswer × RxRing :=
  let d := s.desc s.curr
  if ownedByDma d.cmdSts then (.noMore, { s with inRx := false })
  else if
      d.cmdSts &&& (rxLastDescMask ||| rxFirstDescMask) = rxLastDescMask ||| rxFirstDescMask then
    (.received ⟨d.byteCnt, d.cmdSts, d.returnInfo, d.bufSize &&& rxIpFragmentedFrameMask⟩,
      { s with
        resource := s.resource - 1
        curr := next N s.curr
        inRx := false })
  else
    (.recycled,
      { s with
        desc := Function.update s.desc s.used
          (give (s.desc s.used) d.bufPtr d.returnInfo d.bufSize)
        used := next N s.used
        curr := next N s.curr })

/-- `mvEthPortRxDone`. -/
def mvEthPortRxDone (N : ℕ) (s : RxRing) (buf : RxBuf) : RxDoneStatus × RxRing :=
  if s.used = s.curr ∧ s.resource ≠ 0 then (.outOfRange, s)
  else
    let s' :=
      { s with
        desc := Function.update s.desc s.used
          (give (s.desc s.used) buf.bufPhysAddr buf.osInfo buf.bufSize)
        resource := s.resource + 1
        used := next N s.used }
    if s'.used = s'.curr then (.full, s') else (.ok, s')

/-- `mvEthPortForceRx`. -/
def mvEthPortForceRx (N : ℕ) (s : RxRing) : RxAnswer × RxRing :=
  if s.resource = 0 then (.empty, s)
  else
    let d := s.desc s.curr
    (.forced d.cmdSts d.returnInfo,
      { s with
        resource := s.resource - 1
        desc := Function.update s.desc s.curr { d with cmdSts := 0, returnInfo := 0 }
        curr := next N s.curr })

/-- The hardware writes what it received to a descriptor and gives it back. -/
def filled (d : RxDesc) (cmdSts : BitVec 32) (byteCnt fragIP : BitVec 16) : RxDesc :=
  { d with
    cmdSts := cmdSts &&& ~~~bufferOwnedByDma
    byteCnt := byteCnt
    bufSize := (d.bufSize &&& rxBufferMask) ||| (fragIP &&& rxIpFragmentedFrameMask) }

end RxRing

/-- One event on a ring of `N` descriptors. The calls of the driver come one after another, and the
hardware fills descriptors that it owns. -/
def rxStep (N : ℕ) (s : RxRing) : RxEvent → Option (RxAnswer × RxRing)
  | .rx => if s.inRx then none else some s.mvEthPortRx
  | .rxIteration => if s.inRx then some (s.mvEthPortRxIteration N) else none
  | .rxDone buf =>
    if s.inRx then none
    else some ((.rxDone (s.mvEthPortRxDone N buf).1), (s.mvEthPortRxDone N buf).2)
  | .forceRx => if s.inRx then none else some (s.mvEthPortForceRx N)
  | .fill i cmdSts byteCnt fragIP =>
    if i < N ∧ ownedByDma (s.desc i).cmdSts then
      some (.filled,
        { s with
          desc := Function.update s.desc i (RxRing.filled (s.desc i) cmdSts byteCnt fragIP) })
    else none

/-- The buffer that is handed to `mvEthPortRxDone`, if it accepts it. -/
def accepted : RxEvent → RxAnswer → List RxBuf
  | .rxDone buf, .rxDone status => if status = .outOfRange then [] else [buf]
  | _, _ => []

/-- The buffers in the ring, from `curr` on, after an event: a buffer is added at the end, taken
from the front, or moved from the front to the end. -/
def bufsStep (l : List RxBuf) (event : RxEvent) : RxAnswer → List RxBuf
  | .received _ => l.tail
  | .forced _ _ => l.tail
  | .recycled => l.tail ++ l.head?.toList
  | .rxDone status => l ++ accepted event (.rxDone status)
  | .noResource | .looping | .noMore | .empty | .filled => l

/-- The `osInfo` that an answer hands out. -/
def RxAnswer.out : RxAnswer → List (BitVec 32)
  | .received pkt => [pkt.osInfo]
  | .forced _ osInfo => [osInfo]
  | _ => []

/-- The `osInfo` of the buffers that have been taken out of the ring, oldest first. -/
def taken (trace : List (RxEvent × RxAnswer)) : List (BitVec 32) :=
  trace.flatMap fun e => e.2.out

/-- A descriptor holds a buffer. -/
structure RxDesc.Has (d : RxDesc) (buf : RxBuf) : Prop where
  osInfo : d.returnInfo = buf.osInfo
  bufPtr : d.bufPtr = buf.bufPhysAddr
  bufSize : d.bufSize &&& rxBufferMask = buf.bufSize &&& rxBufferMask

/-- The ring holds the buffers of the list from `curr` to `used`, and the hardware owns no other
descriptor. -/
structure RxRing.Holds (N : ℕ) (s : RxRing) (l : List RxBuf) : Prop where
  curr_lt : s.curr < N
  length_le : l.length ≤ N
  resource : s.resource = l.length
  used : s.used = cell N s.curr l.length
  slots : ∀ k buf, l[k]? = some buf → (s.desc (cell N s.curr k)).Has buf
  free : ∀ k, l.length ≤ k → k < N → ownedByDma (s.desc (cell N s.curr k)).cmdSts = false

variable {N : ℕ} {s s' : RxRing} {l : List RxBuf} {buf : RxBuf} {event : RxEvent}
  {answer : RxAnswer} {trace : List (RxEvent × RxAnswer)}

@[simp] theorem ownedByDma_give (d : RxDesc) (bufPtr returnInfo : BitVec 32) (bufSize : BitVec 16) :
    ownedByDma (RxRing.give d bufPtr returnInfo bufSize).cmdSts = true := by
  change ownedByDma (bufferOwnedByDma ||| rxEnableInterruptMask) = true
  decide

/-- A descriptor holds the buffer that it has been given. -/
theorem RxRing.give_has (d : RxDesc) {bufPtr returnInfo : BitVec 32} {bufSize : BitVec 16}
    (hinfo : returnInfo = buf.osInfo) (hptr : bufPtr = buf.bufPhysAddr)
    (hsize : bufSize &&& rxBufferMask = buf.bufSize &&& rxBufferMask) :
    (RxRing.give d bufPtr returnInfo bufSize).Has buf := by
  refine ⟨hinfo, hptr, ?_⟩
  change bufSize &&& rxBufferMask &&& rxBufferMask = _
  rw [BitVec.and_assoc, BitVec.and_self, hsize]

/-- Filling a descriptor leaves its buffer in place. -/
theorem RxDesc.Has.filled {d : RxDesc} (hd : d.Has buf) (cmdSts : BitVec 32)
    (byteCnt fragIP : BitVec 16) : (RxRing.filled d cmdSts byteCnt fragIP).Has buf := by
  refine ⟨hd.osInfo, hd.bufPtr, ?_⟩
  have hmask : rxIpFragmentedFrameMask &&& rxBufferMask = 0 := by decide
  change ((d.bufSize &&& rxBufferMask) ||| (fragIP &&& rxIpFragmentedFrameMask)) &&&
    rxBufferMask = _
  rw [BitVec.and_or_distrib_right, BitVec.and_assoc, BitVec.and_self, BitVec.and_assoc, hmask]
  simpa using hd.bufSize

namespace RxRing.Holds

/-- The front buffer leaves the ring. -/
theorem take {desc : ℕ → RxDesc} (inRx : Bool) (hs : s.Holds N (buf :: l))
    (hcurr : ownedByDma (desc s.curr).cmdSts = false)
    (hsame : ∀ i, i ≠ s.curr → desc i = s.desc i) :
    RxRing.Holds N ⟨desc, next N s.curr, s.used, s.resource - 1, inRx⟩ l := by
  have hlength := hs.length_le
  rw [List.length_cons] at hlength
  have hother : ∀ k, k + 1 < N → desc (cell N (next N s.curr) k) = s.desc
    (cell N s.curr (k + 1)) := by
    intro k hk
    rw [cell_next hs.curr_lt (by omega)]
    apply hsame
    have hne : cell N s.curr (k + 1) ≠ cell N s.curr 0 := by
      rw [Ne, cell_inj hk (by omega)]
      omega
    rwa [cell_zero hs.curr_lt] at hne
  refine ⟨next_lt hs.curr_lt, by omega, ?_, ?_, ?_, ?_⟩
  · have hresource := hs.resource
    rw [List.length_cons] at hresource
    simp only
    omega
  · rw [hs.used, List.length_cons, cell_next hs.curr_lt (by omega)]
  · intro k b hk
    have hlt : k < l.length := (List.getElem?_eq_some_iff.mp hk).1
    dsimp only
    rw [hother k (by omega)]
    exact hs.slots (k + 1) b (by simpa using hk)
  · intro k hle hlt
    dsimp only
    by_cases hlast : k + 1 = N
    · rw [cell_next hs.curr_lt hlt, hlast, cell_capacity]
      exact hcurr
    · rw [hother k (by omega)]
      exact hs.free (k + 1) (by simpa using hle) (by omega)

/-- A buffer enters the ring at the end. -/
theorem post {d : RxDesc} (inRx : Bool) (hs : s.Holds N l)
    (hroom : l.length < N) (hd : d.Has buf) :
    RxRing.Holds N ⟨Function.update s.desc s.used d, s.curr, next N s.used, s.resource + 1, inRx⟩
      (l ++ [buf]) := by
  have hother : ∀ k, k < N → k ≠ l.length →
      Function.update s.desc s.used d (cell N s.curr k) = s.desc (cell N s.curr k) := by
    intro k hk hne
    apply Function.update_of_ne
    rw [hs.used, Ne, cell_inj hk hroom]
    exact hne
  refine ⟨hs.curr_lt, ?_, ?_, ?_, ?_, ?_⟩
  · rw [List.length_append, List.length_singleton]
    omega
  · have hresource := hs.resource
    rw [List.length_append, List.length_singleton]
    simp only
    omega
  · rw [List.length_append, List.length_singleton]
    simp only
    rw [hs.used, next_cell hs.curr_lt hroom]
  · intro k b hk
    dsimp only
    rcases Nat.lt_trichotomy k l.length with hlt | heq | hgt
    · rw [hother k (by omega) (by omega)]
      exact hs.slots k b (by simpa [List.getElem?_append_left hlt] using hk)
    · subst heq
      obtain rfl : buf = b := by simpa using hk
      rw [← hs.used, Function.update_self]
      exact hd
    · rw [List.getElem?_append_right (by omega)] at hk
      have hnone : [buf][k - l.length]? = none := by
        rw [List.getElem?_eq_none_iff]
        simp only [List.length_singleton]
        omega
      rw [hnone] at hk
      cases hk
  · intro k hle hlt
    rw [List.length_append, List.length_singleton] at hle
    dsimp only
    rw [hother k hlt (by omega)]
    exact hs.free k (by omega) hlt

/-- The front buffer is moved to the end. -/
theorem recycle (inRx : Bool) (hs : s.Holds N (buf :: l))
    (hcurr : ownedByDma (s.desc s.curr).cmdSts = false) :
    RxRing.Holds N ⟨Function.update s.desc s.used (RxRing.give (s.desc s.used)
        (s.desc s.curr).bufPtr (s.desc s.curr).returnInfo (s.desc s.curr).bufSize),
      next N s.curr, next N s.used, s.resource, inRx⟩ (l ++ [buf]) := by
  have hlength := hs.length_le
  rw [List.length_cons] at hlength
  have hbuf : (s.desc s.curr).Has buf := by
    have hslot := hs.slots 0 buf rfl
    rwa [cell_zero hs.curr_lt] at hslot
  have htaken := hs.take inRx hcurr fun i _ => rfl
  have hposted := htaken.post inRx (by omega : l.length < N)
    (RxRing.give_has (s.desc s.used) hbuf.osInfo hbuf.bufPtr hbuf.bufSize)
  rwa [Int.sub_add_cancel] at hposted

/-- The ring is refused a buffer exactly when it holds `N`. -/
theorem refused_iff (hs : s.Holds N l) : s.used = s.curr ∧ s.resource ≠ 0 ↔ l.length = N := by
  have hN := hs.curr_lt
  rw [hs.used, hs.resource, cell_eq_head hs.curr_lt hs.length_le]
  omega

/-- The two ends of the ring meet behind a new buffer exactly when it is the last one that fits. -/
theorem full_iff (hs : s.Holds N l) (hroom : l.length < N) :
    next N s.used = s.curr ↔ l.length + 1 = N := by
  rw [hs.used, next_cell hs.curr_lt hroom, cell_eq_head hs.curr_lt (by omega)]
  omega

/-- The ring is empty exactly when no resource is left. -/
theorem resource_eq_zero_iff (hs : s.Holds N l) : s.resource = 0 ↔ l = [] := by
  rw [hs.resource, ← List.length_eq_zero_iff]
  omega

end RxRing.Holds

/-- What the answer of an event says about the buffers in the ring before it. -/
def RxAnswer.Fits (N : ℕ) (s : RxRing) (l : List RxBuf) : RxAnswer → Prop
  | .noResource => l = []
  | .looping => l ≠ []
  | .noMore => ownedByDma (s.desc s.curr).cmdSts = true
  | .received pkt => ownedByDma (s.desc s.curr).cmdSts = false ∧
      l.head?.map RxBuf.osInfo = some pkt.osInfo
  | .recycled => ownedByDma (s.desc s.curr).cmdSts = false ∧ l ≠ []
  | .rxDone status => (status = .outOfRange ↔ l.length = N) ∧ (status = .full ↔ l.length + 1 = N)
  | .empty => l = []
  | .forced _ osInfo => l.head?.map RxBuf.osInfo = some osInfo
  | .filled => True

/-- The ring holds the buffers, and `mvEthPortRx` is in its loop only when there are some. -/
structure RxKept (N : ℕ) (s : RxRing) (l : List RxBuf) : Prop where
  holds : s.Holds N l
  looping : s.inRx = true → l ≠ []

/-- The front buffer is the one at `curr`. -/
theorem RxRing.Holds.front (hs : s.Holds N (buf :: l)) : (s.desc s.curr).Has buf := by
  have hslot := hs.slots 0 buf rfl
  rwa [cell_zero hs.curr_lt] at hslot

/-- One iteration of the loop of `mvEthPortRx`. -/
theorem RxKept.iteration (hs : RxKept N s l) (hin : s.inRx = true) :
    RxKept N (s.mvEthPortRxIteration N).2
        (bufsStep l .rxIteration (s.mvEthPortRxIteration N).1) ∧
      (s.mvEthPortRxIteration N).1.Fits N s l := by
  obtain ⟨hholds, hloop⟩ := hs
  cases l with
  | nil => exact absurd rfl (hloop hin)
  | cons buf l =>
    by_cases howned : ownedByDma (s.desc s.curr).cmdSts = true
    · simp only [RxRing.mvEthPortRxIteration, if_pos howned]
      refine ⟨⟨⟨hholds.curr_lt, hholds.length_le, hholds.resource, hholds.used, hholds.slots,
        hholds.free⟩, ?_⟩, howned⟩
      intro h
      cases h
    · simp only [RxRing.mvEthPortRxIteration, if_neg howned]
      rw [Bool.not_eq_true] at howned
      split_ifs with hwhole
      · dsimp only
        have hfront : (buf :: l).head?.map RxBuf.osInfo = some (s.desc s.curr).returnInfo :=
          congrArg some hholds.front.osInfo.symm
        refine ⟨⟨hholds.take false howned fun i _ => rfl, fun h => ?_⟩, ?_⟩
        · cases h
        · unfold RxAnswer.Fits
          exact ⟨howned, hfront⟩
      · dsimp only
        have hfits : RxAnswer.recycled.Fits N s (buf :: l) := ⟨howned, List.cons_ne_nil buf l⟩
        exact ⟨⟨hholds.recycle s.inRx howned, fun _ => by simp [bufsStep]⟩, hfits⟩

/-- `mvEthPortRxDone`. -/
theorem RxKept.rxDone (hs : RxKept N s l) (hin : s.inRx = false) (buf : RxBuf) :
    RxKept N (s.mvEthPortRxDone N buf).2
        (bufsStep l (.rxDone buf) (.rxDone (s.mvEthPortRxDone N buf).1)) ∧
      (RxAnswer.rxDone (s.mvEthPortRxDone N buf).1).Fits N s l := by
  obtain ⟨hholds, hloop⟩ := hs
  have hrefused := hholds.refused_iff
  unfold RxRing.mvEthPortRxDone
  by_cases hfull : s.used = s.curr ∧ s.resource ≠ 0
  · have hN := hrefused.mp hfull
    have hsame : bufsStep l (.rxDone buf) (.rxDone .outOfRange) = l := by
      simp [bufsStep, accepted]
    simp only [if_pos hfull, hsame]
    refine ⟨⟨hholds, hloop⟩, iff_of_true rfl hN, ?_⟩
    exact iff_of_false (by decide) (by omega)
  · have hN : l.length ≠ N := fun h => hfull (hrefused.mpr h)
    have hle := hholds.length_le
    have hroom : l.length < N := by omega
    have hlast := hholds.full_iff hroom
    have hnew := hholds.post s.inRx hroom
      (RxRing.give_has (s.desc s.used) rfl rfl rfl :
        (RxRing.give (s.desc s.used) buf.bufPhysAddr buf.osInfo buf.bufSize).Has buf)
    simp only [if_neg hfull]
    by_cases hends : next N s.used = s.curr
    · rw [if_pos hends]
      dsimp only
      refine ⟨⟨hnew, fun h => ?_⟩, iff_of_false (by decide) hN, iff_of_true rfl (hlast.mp hends)⟩
      rw [hin] at h
      cases h
    · rw [if_neg hends]
      dsimp only
      refine ⟨⟨hnew, fun h => ?_⟩, iff_of_false (by decide) hN,
        iff_of_false (by decide) fun h => hends (hlast.mpr h)⟩
      rw [hin] at h
      cases h

/-- `mvEthPortForceRx`. -/
theorem RxKept.forceRx (hs : RxKept N s l) (hin : s.inRx = false) :
    RxKept N (s.mvEthPortForceRx N).2 (bufsStep l .forceRx (s.mvEthPortForceRx N).1) ∧
      (s.mvEthPortForceRx N).1.Fits N s l := by
  obtain ⟨hholds, hloop⟩ := hs
  by_cases hzero : s.resource = 0
  · simp only [RxRing.mvEthPortForceRx, if_pos hzero]
    exact ⟨⟨hholds, hloop⟩, hholds.resource_eq_zero_iff.mp hzero⟩
  · simp only [RxRing.mvEthPortForceRx, if_neg hzero]
    cases l with
    | nil => exact absurd (hholds.resource_eq_zero_iff.mpr rfl) hzero
    | cons buf l =>
      refine ⟨⟨hholds.take s.inRx ?_ fun i hi => Function.update_of_ne hi _ _, fun h => ?_⟩, ?_⟩
      · rw [Function.update_self]
        exact (by decide : ownedByDma 0 = false)
      · rw [hin] at h
        cases h
      · exact congrArg some hholds.front.osInfo.symm

/-- The hardware fills a descriptor that it owns. -/
theorem RxKept.fill {i : ℕ} (hs : RxKept N s l)
    (howned : ownedByDma (s.desc i).cmdSts = true) (cmdSts : BitVec 32)
    (byteCnt fragIP : BitVec 16) :
    RxKept N
      { s with desc := Function.update s.desc i (RxRing.filled (s.desc i) cmdSts byteCnt fragIP) }
      l := by
  obtain ⟨hholds, hloop⟩ := hs
  refine ⟨⟨hholds.curr_lt, hholds.length_le, hholds.resource, hholds.used, ?_, ?_⟩, hloop⟩
  · intro k buf hk
    have hslot := hholds.slots k buf hk
    dsimp only
    by_cases heq : cell N s.curr k = i
    · rw [heq] at hslot ⊢
      rw [Function.update_self]
      exact hslot.filled cmdSts byteCnt fragIP
    · rwa [Function.update_of_ne heq]
  · intro k hle hlt
    have hfree := hholds.free k hle hlt
    dsimp only
    by_cases heq : cell N s.curr k = i
    · rw [heq, howned] at hfree
      cases hfree
    · rwa [Function.update_of_ne heq]

/-- The number of descriptors in the ring that are filled. -/
def filledCount (N : ℕ) (s : RxRing) (l : List RxBuf) : ℕ :=
  ((Finset.range l.length).filter fun k =>
    ownedByDma (s.desc (cell N s.curr k)).cmdSts = false).card

/-- A buffer that is recycled is filled before and empty afterwards. -/
theorem filledCount_recycle {d : RxDesc} (inRx : Bool) (hs : s.Holds N (buf :: l))
    (hcurr : ownedByDma (s.desc s.curr).cmdSts = false) (hd : ownedByDma d.cmdSts = true) :
    filledCount N ⟨Function.update s.desc s.used d, next N s.curr, next N s.used, s.resource, inRx⟩
        (l ++ [buf]) + 1 ≤ filledCount N s (buf :: l) := by
  have hlength := hs.length_le
  rw [List.length_cons] at hlength
  have hfirst : 0 ∈ (Finset.range (buf :: l).length).filter fun k =>
      ownedByDma (s.desc (cell N s.curr k)).cmdSts = false := by
    simp [cell_zero hs.curr_lt, hcurr]
  -- position `k` from the new `curr` is position `k + 1` from the old one
  have hsubset : ((Finset.range (l ++ [buf]).length).filter fun k => ownedByDma
      (Function.update s.desc s.used d (cell N (next N s.curr) k)).cmdSts = false).image (· + 1) ⊆
        ((Finset.range (buf :: l).length).filter fun k =>
          ownedByDma (s.desc (cell N s.curr k)).cmdSts = false).erase 0 := by
    intro j hj
    obtain ⟨k, hk, rfl⟩ := Finset.mem_image.mp hj
    obtain ⟨hrange, hempty⟩ := Finset.mem_filter.mp hk
    rw [Finset.mem_range, List.length_append, List.length_singleton] at hrange
    rw [cell_next hs.curr_lt (by omega)] at hempty
    have hnotUsed : cell N s.curr (k + 1) ≠ s.used := by
      intro heq
      rw [heq, Function.update_self, hd] at hempty
      cases hempty
    rw [Function.update_of_ne hnotUsed] at hempty
    have hlt : k ≠ l.length := by
      rintro rfl
      exact hnotUsed (by rw [hs.used, List.length_cons])
    refine Finset.mem_erase.mpr ⟨Nat.succ_ne_zero k, Finset.mem_filter.mpr ⟨?_, hempty⟩⟩
    rw [Finset.mem_range, List.length_cons]
    omega
  have hcard := Finset.card_le_card hsubset
  rw [Finset.card_image_of_injective _ fun a b h => Nat.succ.inj h,
    Finset.card_erase_of_mem hfirst] at hcard
  have hpos := Finset.card_pos.mpr ⟨0, hfirst⟩
  unfold filledCount
  dsimp only
  omega

/-- Filling a descriptor adds at most one to the filled ones. -/
theorem filledCount_fill {i : ℕ} (hs : s.Holds N l) (hi : i < N) (d : RxDesc) :
    filledCount N { s with desc := Function.update s.desc i d } l ≤ filledCount N s l + 1 := by
  obtain ⟨k, hk, hcell⟩ := exists_cell hs.curr_lt hi
  have hsubset : ((Finset.range l.length).filter fun j =>
      ownedByDma (Function.update s.desc i d (cell N s.curr j)).cmdSts = false) ⊆
        insert k ((Finset.range l.length).filter fun j =>
          ownedByDma (s.desc (cell N s.curr j)).cmdSts = false) := by
    intro j hj
    obtain ⟨hrange, hempty⟩ := Finset.mem_filter.mp hj
    by_cases hjk : j = k
    · exact Finset.mem_insert.mpr (Or.inl hjk)
    · have hlength := hs.length_le
      have hlt := Finset.mem_range.mp hrange
      have hne : cell N s.curr j ≠ i := by
        rw [← hcell, Ne, cell_inj (by omega) hk]
        exact hjk
      rw [Function.update_of_ne hne] at hempty
      exact Finset.mem_insert_of_mem (Finset.mem_filter.mpr ⟨hrange, hempty⟩)
  exact (Finset.card_le_card hsubset).trans (Finset.card_insert_le _ _)

/-- What happens while `mvEthPortRx` is in its loop: its iterations, and the hardware. -/
def InLoop (s : RxRing) (event : RxEvent) : Prop :=
  s.inRx = true ∧ (event = .rxIteration ∨ ∃ i cmdSts byteCnt fragIP,
    event = .fill i cmdSts byteCnt fragIP)

/-- The number of buffers that the hardware has filled. -/
def fills (trace : List (RxEvent × RxAnswer)) : ℕ := trace.countP fun e => e.2 = .filled

/-- One event of the loop: while it goes on, the filled buffers become fewer with each recycled one
and more with each one that the hardware fills. -/
theorem filledCount_step (hs : RxKept N s l) (hloop : InLoop s event)
    (hstep : rxStep N s event = some (answer, s')) :
    (answer = .recycled → 0 < filledCount N s l) ∧ (s'.inRx = true →
      filledCount N s' (bufsStep l event answer) + (if answer = .recycled then 1 else 0) ≤
        filledCount N s l + if answer = .filled then 1 else 0) := by
  obtain ⟨hin, hevent⟩ := hloop
  rcases hevent with rfl | ⟨i, cmdSts, byteCnt, fragIP, rfl⟩
  · simp only [rxStep, hin, if_true, Option.some.injEq] at hstep
    cases l with
    | nil => exact absurd rfl (hs.looping hin)
    | cons buf l =>
      by_cases howned : ownedByDma (s.desc s.curr).cmdSts = true
      · simp only [RxRing.mvEthPortRxIteration, if_pos howned, Prod.mk.injEq] at hstep
        obtain ⟨rfl, rfl⟩ := hstep
        exact ⟨fun h => (by cases h), fun h => (by cases h)⟩
      · simp only [RxRing.mvEthPortRxIteration, if_neg howned] at hstep
        rw [Bool.not_eq_true] at howned
        split_ifs at hstep with hwhole
        · obtain ⟨rfl, rfl⟩ := Prod.mk.inj hstep
          exact ⟨fun h => (by cases h), fun h => (by cases h)⟩
        · obtain ⟨rfl, rfl⟩ := Prod.mk.inj hstep
          have hless := filledCount_recycle s.inRx hs.holds howned
            (ownedByDma_give (s.desc s.used) (s.desc s.curr).bufPtr (s.desc s.curr).returnInfo
              (s.desc s.curr).bufSize)
          exact ⟨fun _ => by omega, fun _ => hless⟩
  · simp only [rxStep] at hstep
    split_ifs at hstep with howned
    obtain ⟨rfl, rfl⟩ := Prod.mk.inj (Option.some.inj hstep)
    refine ⟨fun h => (by cases h), fun _ => ?_⟩
    exact filledCount_fill hs.holds howned.1 _

/-- The ring as it is initialised. -/
theorem rxKept_init (hN : 0 < N) : RxKept N ethInitRxDescRing [] := by
  refine ⟨⟨hN, Nat.zero_le N, rfl, ?_, ?_, ?_⟩, ?_⟩
  · exact (cell_zero hN).symm
  · intro k buf hk
    cases hk
  · intro k _ _
    exact (by decide : ownedByDma 0 = false)
  · intro h
    cases h

end Mv88fxx81.Eth
