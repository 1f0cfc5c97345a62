import Mathlib.Data.BitVec
import Mv88fxx81.Eth.TxRing

/-!
# Transmission in the network driver

`egiga_tx`, `egiga_tx_done` and the link changes of `egiga_interrupt_handler` of
`LSP/egiga/mv_e_main.c`, in the build with a single transmit queue. The calls of the
driver come one after another, each as a whole; the DMA transmits between them. A
descriptor that the DMA gives back during a call is one that it gives back before the
call, if the call has seen it, or after it.
-/

namespace Mv88fxx81.Eth

open RingIndex TransitionSystem

/-- `MAX_SKB_FRAGS`, for pages of 4096 bytes. -/
def MAX_SKB_FRAGS : ℕ := 65536 / 4096 + 2

/-- A `struct sk_buff` to be sent. -/
structure Skb where
  /-- The address of the structure. -/
  addr : BitVec 32
  /-- The data in the linear part. -/
  head : BufInfo
  /-- The page fragments of `skb_shinfo`. -/
  frags : List BufInfo
  /-- `ip_summed` is `CHECKSUM_HW`. -/
  csumHw : Bool
  /-- `nh.iph->ihl`. -/
  ihl : BitVec 4
  /-- `nh.iph->protocol` is `IPPROTO_TCP`. -/
  tcp : Bool
  addr_ne_zero : addr ≠ 0
  frags_le : frags.length ≤ MAX_SKB_FRAGS

/-- The checksum bits of the first descriptor. The source gives the number of the bit of the IP
checksum, and not its mask. -/
def txCsumStatus (skb : Skb) : BitVec 32 :=
  if skb.csumHw then
    -- `ETH_TX_IP_NO_FRAG`, the header length, the protocol and `ETH_TX_GENERATE_L4_CHKSUM_MASK`
    txBit 10 ||| skb.ihl.setWidth 32 <<< 11 ||| (if skb.tcp then 0 else txBit 16) |||
      txBit 17 ||| 18
  else (5 : BitVec 32) <<< 11

/-- The checksum bits do not mark a last descriptor. -/
theorem txCsumStatus_not_last (skb : Skb) : (txCsumStatus skb).getLsbD 20 = false := by
  have hihl : (skb.ihl.setWidth 32 <<< 11).getLsbD 20 = false := by
    rw [BitVec.getLsbD_shiftLeft, BitVec.getLsbD_setWidth, BitVec.getLsbD_of_ge _ _ (by omega)]
    simp
  have htcp : (if skb.tcp then (0 : BitVec 32) else txBit 16).getLsbD 20 = false := by
    cases skb.tcp <;> decide
  unfold txCsumStatus
  cases skb.csumHw with
  | false =>
    rw [if_neg Bool.false_ne_true]
    decide
  | true =>
    rw [if_pos rfl]
    simp only [BitVec.getLsbD_or, hihl, htcp]
    decide

/-- The packet that `egiga_tx` gives to the port. -/
def txPktInfo (skb : Skb) : PktInfo where
  osInfo := skb.addr
  status := txCsumStatus skb
  frags := skb.head :: skb.frags
  frags_ne_nil := List.cons_ne_nil _ _
  status_not_last := txCsumStatus_not_last skb

/-- The pieces of a call on the ring, up to its last one. -/
def completeCall (N : ℕ) : ℕ → TxAnswer → TxRing → TxAnswer × TxRing
  | 0, answer, ring => (answer, ring)
  | fuel + 1, answer, ring =>
    match txStep N ring .run with
    | none => (answer, ring)
    | some (answer, ring) => completeCall N fuel answer ring

/-- A call on the ring. No call has more pieces than the ring has descriptors, and two. -/
def ringCall (N : ℕ) (event : TxEvent) (ring : TxRing) : TxAnswer × TxRing :=
  match txStep N ring event with
  | none => (.running, ring)
  | some (answer, ring) => completeCall N (N + 2) answer ring

/-- The transmission of an interface. -/
structure EgigaTx where
  /-- The transmit queue of the port. -/
  ring : TxRing
  /-- `netif_queue_stopped`. -/
  stopped : Bool
  /-- `netif_carrier_ok`: the link is up. -/
  carrier : Bool
  /-- `IFF_UP` in the flags of the device. -/
  iffUp : Bool

/-- What happens to an interface. -/
inductive EgigaTxEvent
  /-- `egiga_tx`. -/
  | tx (skb : Skb)
  /-- `egiga_tx_done`. -/
  | txDone
  /-- An interrupt for a change of the link; the PHY says whether auto negotiation is done. -/
  | phy (anDone : Bool)
  /-- The DMA gives a descriptor back. -/
  | release (error : BitVec 32)

/-- What an event answers. -/
inductive EgigaTxAnswer
  /-- `egiga_tx` is called while the queue is stopped. -/
  | whileStopped
  | sent
  /-- `mvEthPortTx` has answered `MV_NO_RESOURCE`. -/
  | noResource
  | reclaimed (count : ℕ)
  | linkDown
  | linkUp
  | released
  deriving DecidableEq, Repr

namespace EgigaTx

variable (N : ℕ) (s : EgigaTx)

/-- The stack is stopped when `mvEthTxResourceGet` less `nr_frags`, an unsigned difference, is at
most `MAX_SKB_FRAGS`. -/
def stopIfFull (skb : Skb) : EgigaTx :=
  if (BitVec.ofInt 32 s.ring.resource - BitVec.ofNat 32 skb.frags.length).toNat ≤ MAX_SKB_FRAGS then
    { s with stopped := true }
  else s

/-- `egiga_tx`. -/
def egigaTx (skb : Skb) : EgigaTxAnswer × EgigaTx :=
  if s.stopped then (.whileStopped, s)
  else
    match ringCall N (.tx (txPktInfo skb)) s.ring with
    | (.noResource, ring) =>
      (.noResource, stopIfFull { s with ring := ring, stopped := true } skb)
    | (_, ring) => (.sent, stopIfFull { s with ring := ring } skb)

/-- The loop of `egiga_tx_done`. -/
def txDoneLoop : ℕ → ℕ → EgigaTx → ℕ × EgigaTx
  | 0, count, s => (count, s)
  | fuel + 1, count, s =>
    match ringCall N .txDone s.ring with
    | (.done _ osInfo, ring) =>
      if osInfo = 0 then txDoneLoop fuel count { s with ring := ring }
      else
        txDoneLoop fuel (count + 1)
          { s with ring := ring, stopped := s.stopped && !s.iffUp }
    | (_, ring) => (count, { s with ring := ring })

/-- `egiga_tx_done`. Each turn reclaims a descriptor. -/
def egigaTxDone : EgigaTxAnswer × EgigaTx :=
  let r := txDoneLoop N (N + 1) 0 s
  (.reclaimed r.1, r.2)

/-- The loop of `egiga_down_internals`. -/
def downLoop : ℕ → TxRing → TxRing
  | 0, ring => ring
  | fuel + 1, ring =>
    match ringCall N .forceTxDone ring with
    | (.forced _ osInfo, ring) => if osInfo = 0 then ring else downLoop fuel ring
    | (_, ring) => ring

/-- The part of `egiga_interrupt_handler` for a change of the link. -/
def phyChange (anDone : Bool) : EgigaTxAnswer × EgigaTx :=
  if anDone then (.linkUp, { s with carrier := true, stopped := false })
  else (.linkDown, { s with carrier := false, stopped := true, ring := downLoop N (N + 1) s.ring })

end EgigaTx

/-- One event of an interface with a ring of `N` descriptors. -/
def egigaTxStep (N : ℕ) (s : EgigaTx) : EgigaTxEvent → Option (EgigaTxAnswer × EgigaTx)
  | .tx skb => some (s.egigaTx N skb)
  | .txDone => some (s.egigaTxDone N)
  | .phy anDone => some (s.phyChange N anDone)
  | .release error =>
    (txStep N s.ring (.release error)).map fun r => (.released, { s with ring := r.2 })

/-- The interface is up, and its ring is empty. -/
def egigaTxUp (N : ℕ) : EgigaTx where
  ring := ethInitTxDescRing N
  stopped := false
  carrier := true
  iffUp := true

end Mv88fxx81.Eth
