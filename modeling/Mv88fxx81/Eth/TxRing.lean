import Mathlib.Data.Int.Notation
import Mathlib.Data.List.Basic
import Mathlib.Logic.Function.Basic
import Mv88fxx81.Lib.RingIndex
import Mv88fxx81.Lib.Run

/-!
# The transmit ring

The transmit descriptors of a queue form a ring. `mvEthPortTx` writes a packet to
the descriptors from `curr` on, one for each fragment, and gives them to the
DMA; the DMA transmits them in ring order and gives each back; `mvEthPortTxDone`
reclaims the descriptors that the DMA has given back from `used` on, and returns
a packet with its last descriptor. `mvEthPortForceTxDone` does so in spite of the
DMA.

The functions are cut where they write to the status of a descriptor, so that the
DMA may go on between any two of these writes.
-/

namespace Mv88fxx81.Eth

open RingIndex TransitionSystem

/-- The bits of `cmdSts` that the transmit functions use. -/
def txBit (bit : ℕ) : BitVec 32 := BitVec.twoPow 32 bit

/-- `ETH_BUFFER_OWNED_BY_DMA`. -/
def txOwnedByDma : BitVec 32 := txBit 31

/-- `ETH_TX_ENABLE_INTERRUPT_MASK`. -/
def txEnableInterruptMask : BitVec 32 := txBit 23

/-- `ETH_TX_GENERATE_CRC_MASK`. -/
def txGenerateCrcMask : BitVec 32 := txBit 22

/-- `ETH_TX_FIRST_DESC_MASK`. -/
def txFirstDescMask : BitVec 32 := txBit 21

/-- `ETH_TX_LAST_DESC_MASK`. -/
def txLastDescMask : BitVec 32 := txBit 20

/-- `ETH_TX_ZERO_PADDING_MASK`. -/
def txZeroPaddingMask : BitVec 32 := txBit 19

/-- The bits that the DMA sets when a packet could not be sent: `ETH_ERROR_SUMMARY_MASK` and
`ETH_TX_ERROR_CODE_MASK`. -/
def txErrorMask : BitVec 32 := 0x7

/-- `MV_BUF_INFO`, as far as it is used. -/
structure BufInfo where
  bufVirtPtr : BitVec 32
  bufSize : BitVec 32
  deriving DecidableEq, Repr

/-- `MV_PKT_INFO` of a packet to be sent. The caller may set bits for the checksum offload in the
status, all below the bit that marks a last descriptor. -/
structure PktInfo where
  osInfo : BitVec 32
  status : BitVec 32
  frags : List BufInfo
  frags_ne_nil : frags ≠ []
  status_not_last : status.getLsbD 20 = false

/-- Where the data of a descriptor are: in the memory of the caller, or, for at most
`MIN_TX_BUFF_LOAD` bytes, in the descriptor. -/
inductive TxBufPtr
  | memory (bufVirtPtr : BitVec 32)
  | descriptor
  deriving DecidableEq, Repr

/-- `ETH_TX_DESC`. The link to the next descriptor never changes and is left out. -/
structure TxDesc where
  cmdSts : BitVec 32
  byteCnt : BitVec 16
  bufPtr : TxBufPtr
  returnInfo : BitVec 32
  deriving DecidableEq, Repr

/-- The call in progress and what is left of it. -/
inductive TxCall
  | idle
  | txLoop (pkt : PktInfo) (first cur bufCount : ℕ)
  | txFirst (pkt : PktInfo) (first cur bufCount : ℕ)
  | txUpdate (pkt : PktInfo) (cur bufCount : ℕ)
  | txDone
  | forceTxDone

/-- The queue control of a transmit queue and its descriptors; the call in progress; and the
descriptors that the DMA has been given and has not given back, in ring order. -/
structure TxRing where
  desc : ℕ → TxDesc
  curr : ℕ
  used : ℕ
  resource : ℤ
  call : TxCall
  dma : List ℕ

/-- `ethInitTxDescRing`. One descriptor is left out of use. -/
def ethInitTxDescRing (N : ℕ) : TxRing :=
  { desc := fun _ => ⟨0, 0, .memory 0, 0⟩
    curr := 0
    used := 0
    resource := N - 1
    call := .idle
    dma := [] }

/-- The calls of the driver, the next piece of the call in progress, and the DMA giving a
descriptor back. -/
inductive TxEvent
  | tx (pkt : PktInfo)
  | txDone
  | forceTxDone
  | run
  | release (error : BitVec 32)

/-- What an event answers. The last piece of a call answers what the call returns. -/
inductive TxAnswer
  | running
  | noResource
  | started
  | sent (bufCount : ℕ)
  | reclaimed
  | notFound
  | empty
  | done (status osInfo : BitVec 32)
  | forced (status osInfo : BitVec 32)
  | released
  deriving DecidableEq, Repr

/-- The descriptors of `n` fragments from `first` on. -/
def ringRange (N first : ℕ) : ℕ → List ℕ
  | 0 => []
  | n + 1 => first :: ringRange N (next N first) n

namespace TxRing

variable (N : ℕ) (s : TxRing)

/-- Write to a descriptor. -/
def setDesc (i : ℕ) (d : TxDesc) : TxRing := { s with desc := Function.update s.desc i d }

/-- `MIN_TX_BUFF_LOAD`. -/
def minTxBuffLoad : BitVec 32 := 8

/-- The buffer pointer and the byte count of a fragment. -/
def fillDesc (d : TxDesc) (frag : BufInfo) : TxDesc :=
  { d with
    bufPtr := if frag.bufSize ≤ minTxBuffLoad then .descriptor else .memory frag.bufVirtPtr
    byteCnt := frag.bufSize.setWidth 16 }

/-- The status of a packet's only descriptor. -/
def singleSts (pkt : PktInfo) : BitVec 32 :=
  pkt.status ||| txOwnedByDma ||| txGenerateCrcMask ||| txEnableInterruptMask |||
    txZeroPaddingMask ||| txFirstDescMask ||| txLastDescMask

/-- The status of the last one of several descriptors. -/
def lastSts : BitVec 32 :=
  txOwnedByDma ||| txEnableInterruptMask ||| txZeroPaddingMask ||| txLastDescMask

/-- The status of the first one of several descriptors. -/
def firstSts (pkt : PktInfo) : BitVec 32 :=
  pkt.status ||| txOwnedByDma ||| txGenerateCrcMask ||| txFirstDescMask

/-- The entry of `mvEthPortTx`. -/
def mvEthPortTx (pkt : PktInfo) : TxAnswer × TxRing :=
  if s.resource < pkt.frags.length then (.noResource, s)
  else (.started, { s with call := .txLoop pkt s.curr s.curr 0 })

/-- One iteration of the loop of `mvEthPortTx`. The last one goes on to the status of the last
descriptor, which hands the packet over when it is the only one. -/
def mvEthPortTxIteration (pkt : PktInfo) (first cur bufCount : ℕ) (frag : BufInfo) :
    TxAnswer × TxRing :=
  let d := fillDesc (s.desc cur) frag
  let bufCount := bufCount + 1
  if bufCount ≥ pkt.frags.length then
    if bufCount = 1 then
      (.running,
        { s.setDesc cur { d with returnInfo := pkt.osInfo, cmdSts := singleSts pkt } with
          call := .txUpdate pkt cur bufCount
          dma := s.dma ++ ringRange N first bufCount })
    else
      (.running,
        { s.setDesc cur { d with returnInfo := pkt.osInfo, cmdSts := lastSts } with
          call := .txFirst pkt first cur bufCount })
  else
    let d := if bufCount > 1 then { d with cmdSts := txOwnedByDma } else d
    (.running, { s.setDesc cur d with call := .txLoop pkt first (next N cur) bufCount })

/-- The status of the first one of several descriptors is written, which hands the packet over. -/
def mvEthPortTxFirst (pkt : PktInfo) (first cur bufCount : ℕ) : TxAnswer × TxRing :=
  (.running,
    { s.setDesc first { s.desc first with cmdSts := firstSts pkt } with
      call := .txUpdate pkt cur bufCount
      dma := s.dma ++ ringRange N first bufCount })

/-- The end of `mvEthPortTx`. -/
def mvEthPortTxUpdate (cur bufCount : ℕ) : TxAnswer × TxRing :=
  (.sent bufCount,
    { s with
      resource := s.resource - bufCount
      curr := next N cur
      call := .idle })

/-- One iteration of the loop of `mvEthPortTxDone`. -/
def mvEthPortTxDone : TxAnswer × TxRing :=
  let d := s.desc s.used
  if d.cmdSts &&& txOwnedByDma ≠ 0 then (.notFound, { s with call := .idle })
  else if s.used = s.curr ∧ s.resource ≠ 0 then (.empty, { s with call := .idle })
  else
    let s := { s with resource := s.resource + 1, used := next N s.used }
    if d.cmdSts &&& txLastDescMask ≠ 0 then (.done d.cmdSts d.returnInfo, { s with call := .idle })
    else (.reclaimed, s)

/-- One iteration of the loop of `mvEthPortForceTxDone`. -/
def mvEthPortForceTxDone : TxAnswer × TxRing :=
  if s.used ≠ s.curr ∨ s.resource = 0 then
    let d := s.desc s.used
    let s :=
      { s.setDesc s.used { d with cmdSts := 0, returnInfo := 0 } with
        resource := s.resource + 1
        used := next N s.used
        dma := s.dma.erase s.used }
    if d.cmdSts &&& txLastDescMask ≠ 0 then
      (.forced d.cmdSts d.returnInfo, { s with call := .idle })
    else (.reclaimed, s)
  else (.empty, { s with call := .idle })

/-- The DMA gives a descriptor back. -/
def releaseDesc (d : TxDesc) (error : BitVec 32) : TxDesc :=
  { d with cmdSts := (d.cmdSts &&& ~~~txOwnedByDma) ||| (error &&& txErrorMask) }

end TxRing

/-- One event on a ring of `N` descriptors. The calls of the driver come one after another, and the
DMA gives back the descriptors that it has in their order. -/
def txStep (N : ℕ) (s : TxRing) : TxEvent → Option (TxAnswer × TxRing)
  | .tx pkt =>
    match s.call with
    | .idle => some (s.mvEthPortTx pkt)
    | _ => none
  | .txDone =>
    match s.call with
    | .idle => some (.running, { s with call := .txDone })
    | _ => none
  | .forceTxDone =>
    match s.call with
    | .idle => some (.running, { s with call := .forceTxDone })
    | _ => none
  | .run =>
    match s.call with
    | .idle => none
    | .txLoop pkt first cur bufCount =>
      pkt.frags[bufCount]?.map fun frag => s.mvEthPortTxIteration N pkt first cur bufCount frag
    | .txFirst pkt first cur bufCount => some (s.mvEthPortTxFirst N pkt first cur bufCount)
    | .txUpdate _ cur bufCount => some (s.mvEthPortTxUpdate N cur bufCount)
    | .txDone => some (s.mvEthPortTxDone N)
    | .forceTxDone => some (s.mvEthPortForceTxDone N)
  | .release error =>
    match s.dma with
    | [] => none
    | i :: dma =>
      some (.released,
        { s.setDesc i (TxRing.releaseDesc (s.desc i) error) with dma := dma })

end Mv88fxx81.Eth
