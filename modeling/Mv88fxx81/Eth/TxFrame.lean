import Mathlib.Data.BitVec
import Mathlib.Data.Int.Notation
import Mv88fxx81.Eth.EgigaTx
import Mv88fxx81.Lib.Gather

/-!
# The assembly of a frame

`egiga_tx` of `LSP/egiga/mv_e_main.c` describes the data of a packet by entries of
`tx_buf_info_arr`. In the builds for a switch it adds a pad, and the header or the trailer that
tells the switch which ports a frame is for: into the socket buffer where that has room, or as an
entry of its own. A pointer is an object and an offset in it, since none of the objects that it
may point to overlaps another one.
-/

namespace Mv88fxx81.Eth

open Gather

/-- `MIN_ETH_PACKET_LEN`. -/
def MIN_ETH_PACKET_LEN : ℕ := 60

/-- `HEADER_SIZE`. -/
def HEADER_SIZE : ℕ := 2

/-- `TRAILER_SIZE`. -/
def TRAILER_SIZE : ℕ := 4

/-- The builds: without `CONFIG_QUARTER_DECK`, and with it and `HEADERS` or `TRAILERS`. -/
inductive TxBuild
  | plain
  | headers
  | trailers
  deriving DecidableEq, Repr

/-- The entry of `mvBindings` for the interface, as far as it is used. -/
structure Binding where
  header : List (BitVec 8)
  trailer : List (BitVec 8)
  header_length : header.length = HEADER_SIZE
  trailer_length : trailer.length = TRAILER_SIZE

/-- The data of a `struct sk_buff`: its linear area, cut at `data` and at `tail`, and the bytes of
its page fragments. -/
structure SkBuff where
  headroom : List (BitVec 8)
  linear : List (BitVec 8)
  tailroom : List (BitVec 8)
  frags : List (List (BitVec 8))
  frags_le : frags.length ≤ MAX_SKB_FRAGS

namespace SkBuff

variable (skb : SkBuff)

/-- The bytes from `head` to `end`. -/
def area : List (BitVec 8) := skb.headroom ++ skb.linear ++ skb.tailroom

/-- `data`, from `head` on. -/
def data : ℕ := skb.headroom.length

/-- `len`. -/
def len : ℕ := skb.linear.length + skb.frags.flatten.length

/-- `skb_headlen`. -/
def headlen : ℕ := skb.linear.length

/-- The bytes of the packet. -/
def bytes : List (BitVec 8) := skb.linear ++ skb.frags.flatten

/-- `skb_push`, with the bytes copied to its result. -/
def push (bytes : List (BitVec 8)) : SkBuff :=
  { skb with
    headroom := skb.headroom.take (skb.headroom.length - bytes.length)
    linear := bytes ++ skb.linear }

/-- `skb_put`, with the bytes copied to its result. -/
def put (bytes : List (BitVec 8)) : SkBuff :=
  { skb with
    linear := skb.linear ++ bytes
    tailroom := skb.tailroom.drop bytes.length }

end SkBuff

/-- The objects that an entry may point to. -/
inductive TxObject
  | linear
  | page (i : ℕ)
  | zeroPad
  | header
  | trailer
  deriving DecidableEq, Repr

/-- `MV_BUF_INFO`, with the object and the offset that its pointer stands for. -/
structure TxBufInfo where
  object : TxObject
  offset : ℕ
  bufSize : ℕ
  deriving DecidableEq, Repr

/-- `MV_PKT_INFO`, with the index that `pFrags` points to. Its size is one of 16 bits. -/
structure TxPktInfo where
  pFrags : ℕ
  numFrags : ℕ
  pktSize : BitVec 16
  deriving DecidableEq, Repr

/-- The variables of an interface that `egiga_tx` uses. -/
structure EgigaPriv where
  txBufInfoArr : ℕ → TxBufInfo
  txPktInfo : TxPktInfo

/-- The number of entries of `tx_buf_info_arr`. -/
def txBufInfoEntries : ℕ := MAX_SKB_FRAGS + 3

/-- The state of `egiga_tx`: the variables of the interface, the socket buffer, and the entries that
it has written. An entry behind the array falls on `tx_pkt_info`; what that does to its `osInfo` and
its `status` is left out. -/
structure TxAssembly extends EgigaPriv where
  skb : SkBuff
  written : List ℕ

namespace TxAssembly

variable (binding : Binding) (a : TxAssembly)

/-- Write an entry. -/
def writeBuf (i : ℕ) (info : TxBufInfo) : TxAssembly :=
  { a with
    txBufInfoArr := Function.update a.txBufInfoArr i info
    written := a.written ++ [i] }

/-- `pktSize += size`. -/
def addSize (size : ℕ) : TxAssembly :=
  { a with
    txPktInfo := { a.txPktInfo with pktSize := a.txPktInfo.pktSize + BitVec.ofNat 16 size } }

/-- Set `numFrags`. -/
def setNumFrags (numFrags : ℕ) : TxAssembly :=
  { a with txPktInfo := { a.txPktInfo with numFrags := numFrags } }

/-- Writing an entry leaves the packet information alone. -/
@[simp]
theorem writeBuf_txPktInfo (i : ℕ) (info : TxBufInfo) :
    (a.writeBuf i info).txPktInfo = a.txPktInfo := rfl

/-- An entry that is written. -/
@[simp]
theorem writeBuf_written (i : ℕ) (info : TxBufInfo) :
    (a.writeBuf i info).written = a.written ++ [i] := rfl

/-- Adding to the size leaves the entries alone. -/
@[simp]
theorem addSize_txBufInfoArr (size : ℕ) : (a.addSize size).txBufInfoArr = a.txBufInfoArr := rfl

/-- Adding to the size writes no entry. -/
@[simp]
theorem addSize_written (size : ℕ) : (a.addSize size).written = a.written := rfl

/-- Setting their number leaves the entries alone. -/
@[simp]
theorem setNumFrags_txBufInfoArr (numFrags : ℕ) :
    (a.setNumFrags numFrags).txBufInfoArr = a.txBufInfoArr := rfl

/-- Setting their number writes no entry. -/
@[simp]
theorem setNumFrags_written (numFrags : ℕ) : (a.setNumFrags numFrags).written = a.written := rfl

/-- The loop over the page fragments. -/
def fillFrags : ℕ → List (List (BitVec 8)) → TxAssembly → TxAssembly
  | _, [], a => a
  | i, frag :: frags, a =>
    fillFrags (i + 1) frags (a.writeBuf (i + 2) ⟨.page i, 0, frag.length⟩)

/-- The start of `egiga_tx`. The first entry is left for a header. -/
def initPktInfo : TxAssembly :=
  let a :=
    { a with
      txPktInfo := { a.txPktInfo with pFrags := 1, pktSize := BitVec.ofNat 16 a.skb.len } }
  if a.skb.frags.length = 0 then
    (a.writeBuf 1 ⟨.linear, a.skb.data, a.skb.len⟩).setNumFrags 1
  else
    let a := a.writeBuf 1 ⟨.linear, a.skb.data, a.skb.headlen⟩
    (fillFrags 0 a.skb.frags a).setNumFrags (a.skb.frags.length + 1)

/-- The pad of a short packet. -/
def addZeroPad : TxAssembly :=
  if a.txPktInfo.pktSize.toNat < MIN_ETH_PACKET_LEN then
    let size := MIN_ETH_PACKET_LEN - a.txPktInfo.pktSize.toNat
    let a := a.writeBuf (a.txPktInfo.numFrags + 1) ⟨.zeroPad, a.skb.len, size⟩
    (a.addSize size).setNumFrags (a.txPktInfo.numFrags + 1)
  else a

/-- The header of `HEADERS`. In the socket buffer, the size of the packet grows by that of the whole
first entry. -/
def addHeader : TxAssembly :=
  if HEADER_SIZE ≤ a.skb.headroom.length then
    let a := { a with skb := a.skb.push binding.header }
    let first := a.txBufInfoArr a.txPktInfo.pFrags
    let first :=
      { first with offset := first.offset - HEADER_SIZE, bufSize := first.bufSize + HEADER_SIZE }
    (a.writeBuf a.txPktInfo.pFrags first).addSize first.bufSize
  else
    let a := a.writeBuf 0 ⟨.header, 0, HEADER_SIZE⟩
    let a := { a with txPktInfo := { a.txPktInfo with pFrags := 0 } }
    (a.addSize HEADER_SIZE).setNumFrags (a.txPktInfo.numFrags + 1)

/-- The trailer of `TRAILERS`. In the socket buffer, the size of the packet grows by that of the
whole entry. -/
def addTrailer : TxAssembly :=
  if a.txPktInfo.numFrags = 1 ∧ TRAILER_SIZE ≤ a.skb.tailroom.length then
    let a := { a with skb := a.skb.put binding.trailer }
    let last := a.txBufInfoArr a.txPktInfo.numFrags
    let last := { last with bufSize := last.bufSize + TRAILER_SIZE }
    (a.writeBuf a.txPktInfo.numFrags last).addSize last.bufSize
  else
    let a := a.writeBuf (a.txPktInfo.numFrags + 1) ⟨.trailer, 0, TRAILER_SIZE⟩
    (a.addSize TRAILER_SIZE).setNumFrags (a.txPktInfo.numFrags + 1)

/-- The additions of a build. -/
def addSwitchData : TxBuild → TxAssembly → TxAssembly
  | .plain, a => a
  | .headers, a => a.addZeroPad.addHeader binding
  | .trailers, a => a.addZeroPad.addTrailer binding

/-- The bytes of an object. -/
def objectBytes : TxObject → List (BitVec 8)
  | .linear => a.skb.area
  | .page i => (a.skb.frags[i]?).getD []
  | .zeroPad => List.replicate MIN_ETH_PACKET_LEN 0
  | .header => binding.header
  | .trailer => binding.trailer

/-- The bytes of an entry. -/
def bufBytes (info : TxBufInfo) : List (BitVec 8) :=
  ((a.objectBytes binding info.object).drop info.offset).take info.bufSize

/-- The frame that the fragment list stands for. -/
def frame : List (BitVec 8) :=
  gather (a.bufBytes binding) a.txBufInfoArr a.txPktInfo.pFrags a.txPktInfo.numFrags

end TxAssembly

/-- `mvEthPortTx` takes a packet for which the queue has enough descriptors. -/
def portTakes (resource : ℤ) (pkt : TxPktInfo) : Bool := !decide (resource < pkt.numFrags)

/-- `egiga_tx` up to `mvEthPortTx`. -/
def egigaTxAssemble (build : TxBuild) (binding : Binding) (priv : EgigaPriv) (skb : SkBuff) :
    TxAssembly :=
  let a : TxAssembly := { priv with skb := skb, written := [] }
  a.initPktInfo.addSwitchData binding build

/-- `egiga_tx` on an interface that is not stopped, with a number of free descriptors: what it
returns, and the state behind it. -/
def egigaTxSend (build : TxBuild) (binding : Binding) (resource : ℤ) (priv : EgigaPriv)
    (skb : SkBuff) : ℕ × TxAssembly :=
  let a := egigaTxAssemble build binding priv skb
  (if portTakes resource a.txPktInfo then 0 else 1, a)

/-- The zero bytes that a packet lacks in the builds for a switch. -/
def txPad (skb : SkBuff) : List (BitVec 8) := List.replicate (MIN_ETH_PACKET_LEN - skb.len) 0

/-- The frame that a packet is meant to be sent as. -/
def txFrame (binding : Binding) (skb : SkBuff) : TxBuild → List (BitVec 8)
  | .plain => skb.bytes
  | .headers => binding.header ++ skb.bytes ++ txPad skb
  | .trailers => skb.bytes ++ txPad skb ++ binding.trailer

/-- What a call of `egiga_tx` is meant to do: the right frame with its size, entries in the array,
and, when the port does not take the packet, a socket buffer that can be submitted again. -/
structure TxRight (build : TxBuild) (binding : Binding) (resource : ℤ) (priv : EgigaPriv)
    (skb : SkBuff) : Prop where
  frame : (egigaTxSend build binding resource priv skb).2.frame binding = txFrame binding skb build
  pktSize : (egigaTxSend build binding resource priv skb).2.txPktInfo.pktSize.toNat =
    (txFrame binding skb build).length
  inside : ∀ i ∈ (egigaTxSend build binding resource priv skb).2.written, i < txBufInfoEntries
  resubmit : (egigaTxSend build binding resource priv skb).1 ≠ 0 →
    (egigaTxSend build binding resource priv skb).2.skb = skb ∧
      ∀ resource', (egigaTxSend build binding resource'
        (egigaTxSend build binding resource priv skb).2.toEgigaPriv
        (egigaTxSend build binding resource priv skb).2.skb).2.frame binding =
          (egigaTxSend build binding resource priv skb).2.frame binding

/-- The entries that a packet takes without a header or a trailer of its own. -/
def txEntries (skb : SkBuff) : ℕ :=
  skb.frags.length + 1 + if skb.len < MIN_ETH_PACKET_LEN then 1 else 0

/-- When a packet is sent as it is meant to be: the frame has a size of 16 bits; a header is not
put into the socket buffer, or its linear part is empty and the queue has enough descriptors; a
trailer is not put into the socket buffer, and not put behind the pad of a packet with all
fragments that there may be. -/
def TxSound (resource : ℤ) (skb : SkBuff) : TxBuild → Prop
  | .plain => skb.len < 2 ^ 16
  | .headers =>
    max skb.len MIN_ETH_PACKET_LEN + HEADER_SIZE < 2 ^ 16 ∧
      (skb.headroom.length < HEADER_SIZE ∨ skb.linear = [] ∧ txEntries skb ≤ resource)
  | .trailers =>
    max skb.len MIN_ETH_PACKET_LEN + TRAILER_SIZE < 2 ^ 16 ∧
      ¬ (txEntries skb = 1 ∧ TRAILER_SIZE ≤ skb.tailroom.length) ∧
      ¬ (skb.frags.length = MAX_SKB_FRAGS ∧ skb.len < MIN_ETH_PACKET_LEN)

end Mv88fxx81.Eth
