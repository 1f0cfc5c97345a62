import Mathlib.Data.BitVec
import Mathlib.Data.List.FinRange
import Mv88fxx81.Eth.RxRing

/-!
# Reception in the network driver

`egiga_rx`, `egiga_rx_fill`, the timer that fills the rings later, and the start and the
stop of an interface, of `LSP/egiga/mv_e_main.c`. There are `Q` receive queues, and queue
`q` has `descNum q` descriptors. The calls of the driver come one after another, each as a
whole; the hardware receives between them.

The skbs are accounted for by their addresses: `owned` are those that the driver has
allocated and neither handed to the stack nor freed.
-/

namespace Mv88fxx81.Eth

open TransitionSystem

/-- `ETH_ERROR_SUMMARY_MASK`. -/
def ethErrorSummaryMask : BitVec 32 := BitVec.twoPow 32 0

/-- The skbs of the driver. -/
structure Skbs where
  /-- The skbs that have been allocated and neither handed to the stack nor freed. -/
  owned : List (BitVec 32)
  /-- An skb has been handed to the stack or freed that was not owned. -/
  twice : Bool
  deriving DecidableEq, Repr

namespace Skbs

/-- `dev_alloc_skb` returns an skb. It is not null, and none of those that the driver owns. -/
def devAllocSkb (skbs : Skbs) (skb : BitVec 32) : Option Skbs :=
  if skb = 0 ∨ skb ∈ skbs.owned then none else some { skbs with owned := skb :: skbs.owned }

/-- An skb is given away. -/
def giveAway (skbs : Skbs) (skb : BitVec 32) : Skbs :=
  { owned := skbs.owned.erase skb
    twice := skbs.twice || !decide (skb ∈ skbs.owned) }

/-- `dev_kfree_skb`. -/
def devKfreeSkb (skbs : Skbs) (skb : BitVec 32) : Skbs := skbs.giveAway skb

/-- `netif_receive_skb`. -/
def netifReceiveSkb (skbs : Skbs) (skb : BitVec 32) : Skbs := skbs.giveAway skb

end Skbs

/-- The reception of an interface. -/
structure EgigaRx (Q : ℕ) where
  /-- The receive queues of the port. -/
  ring : Fin Q → RxRing
  /-- `rxq_count`. -/
  rxqCount : Fin Q → BitVec 32
  /-- `rx_fill_flag`: the timer is running. -/
  rxFillFlag : Bool
  skbs : Skbs
  /-- `egiga_start_internals` has been called, and `egiga_stop_internals` not since. -/
  started : Bool

/-- What happens to an interface. The buffers of a call are those it allocates for each queue before
an allocation fails. -/
inductive EgigaRxEvent (Q : ℕ)
  /-- `egiga_start_internals`. -/
  | start (bufs : Fin Q → List RxBuf)
  /-- `egiga_stop_internals`. -/
  | stop
  /-- `egiga_rx` of `egiga_poll`, with the queue that each turn of its loop looks at: with a single
  queue it is always that one, and otherwise `mvEthRxPolicyGet` names it, until no cause is left. -/
  | poll (workToDo : ℕ) (turns : List (Fin Q)) (bufs : Fin Q → List RxBuf)
  /-- `egiga_rx_fill_on_timeout`. -/
  | timeout (bufs : Fin Q → List RxBuf)
  /-- The hardware receives into a descriptor. -/
  | receive (queue : Fin Q) (i : ℕ) (cmdSts : BitVec 32) (byteCnt : BitVec 16) (fragIP : BitVec 16)

/-- What an event answers. -/
inductive EgigaRxAnswer
  | started
  | stopped (failed : Bool)
  | polled (workDone : ℕ)
  | filled
  | received
  deriving DecidableEq, Repr

/-- The loop of `mvEthPortRx`, without the hardware. -/
def portRxLoop (N : ℕ) : ℕ → RxRing → RxAnswer × RxRing
  | 0, ring => (.recycled, ring)
  | fuel + 1, ring =>
    match ring.mvEthPortRxIteration N with
    | (.recycled, ring) => portRxLoop N fuel ring
    | (answer, ring) => (answer, ring)

/-- `mvEthPortRx` as a whole. No buffer is recycled twice. -/
def portRx (N : ℕ) (ring : RxRing) : RxAnswer × RxRing :=
  match ring.mvEthPortRx with
  | (.looping, ring) => portRxLoop N (N + 1) ring
  | (answer, ring) => (answer, ring)

namespace EgigaRx

variable {Q : ℕ} (descNum : Fin Q → ℕ) (multiQueue : Bool)

/-- A queue after a call of the port. -/
def setRing (s : EgigaRx Q) (queue : Fin Q) (ring : RxRing) : EgigaRx Q :=
  { s with ring := Function.update s.ring queue ring }

/-- Add to `rxq_count`. -/
def addCount (s : EgigaRx Q) (queue : Fin Q) (n : BitVec 32) : EgigaRx Q :=
  { s with rxqCount := Function.update s.rxqCount queue (s.rxqCount queue + n) }

/-- The loop of `egiga_rx_fill`. It says whether an allocation has failed. -/
def rxFillLoop (queue : Fin Q) : ℕ → List RxBuf → EgigaRx Q → Option (Bool × EgigaRx Q)
  | 0, _, s => some (false, s)
  | _ + 1, [], s => some (true, s)
  | total + 1, buf :: bufs, s =>
    match s.skbs.devAllocSkb buf.osInfo with
    | none => none
    | some skbs =>
      match (s.ring queue).mvEthPortRxDone (descNum queue) buf with
      | (.ok, ring) =>
        rxFillLoop queue total bufs (({ s with skbs := skbs }.setRing queue ring).addCount queue 1)
      | (.full, ring) => some (false, ({ s with skbs := skbs }.setRing queue ring).addCount queue 1)
      -- the skb is not freed
      | (.outOfRange, ring) => some (false, { s with skbs := skbs }.setRing queue ring)

/-- The end of `egiga_rx_fill`: the timer is set when an allocation has failed and less than half of
the ring is filled. -/
def setFillTimer (queue : Fin Q) (allocSkbFailed : Bool) (s : EgigaRx Q) : EgigaRx Q :=
  if allocSkbFailed ∧ s.rxqCount queue < BitVec.ofNat 32 (descNum queue / 2) then
    if s.rxFillFlag then s else { s with rxFillFlag := true }
  else s

/-- `egiga_rx_fill`, for a whole ring. -/
def egigaRxFill (queue : Fin Q) (bufs : List RxBuf) (s : EgigaRx Q) : Option (EgigaRx Q) :=
  (rxFillLoop descNum queue (descNum queue) bufs s).map fun r => setFillTimer descNum queue r.1 r.2

/-- `egiga_rx_fill` for one queue after another. -/
def fillQueues (bufs : Fin Q → List RxBuf) : List (Fin Q) → EgigaRx Q → Option (EgigaRx Q)
  | [], s => some s
  | queue :: queues, s =>
    (egigaRxFill descNum queue (bufs queue) s).bind (fillQueues bufs queues)

/-- What `egiga_rx` does with a received packet. -/
def rxPacket (s : EgigaRx Q) (pkt : RxPkt) : EgigaRx Q :=
  if pkt.osInfo = 0 then s
  else if pkt.status &&& ethErrorSummaryMask ≠ 0 then
    { s with skbs := s.skbs.devKfreeSkb pkt.osInfo }
  else { s with skbs := s.skbs.netifReceiveSkb pkt.osInfo }

/-- The loop of `egiga_rx`. It counts the packets, and says which queues they came from. -/
def rxLoop (workToDo : ℕ) : List (Fin Q) → ℕ → (Fin Q → Bool) → EgigaRx Q →
    ℕ × (Fin Q → Bool) × EgigaRx Q
  | [], workDone, done, s => (workDone, done, s)
  | queue :: turns, workDone, done, s =>
    if workDone < workToDo then
      match portRx (descNum queue) (s.ring queue) with
      | (.received pkt, ring) =>
        rxLoop workToDo turns (workDone + 1) (Function.update done queue true)
          (((s.setRing queue ring).addCount queue (-1)).rxPacket pkt)
      | (_, ring) =>
        if multiQueue then rxLoop workToDo turns workDone done (s.setRing queue ring)
        else (workDone, done, s.setRing queue ring)
    else (workDone, done, s)

/-- `egiga_rx`. -/
def egigaRx (workToDo : ℕ) (turns : List (Fin Q)) (bufs : Fin Q → List RxBuf) (s : EgigaRx Q) :
    Option (ℕ × EgigaRx Q) :=
  let r := rxLoop descNum multiQueue workToDo turns 0 (fun _ => false) s
  (fillQueues descNum bufs ((List.finRange Q).filter r.2.1) r.2.2).map fun s => (r.1, s)

/-- `egiga_start_internals`. -/
def egigaStartInternals (bufs : Fin Q → List RxBuf) (s : EgigaRx Q) : Option (EgigaRx Q) :=
  (fillQueues descNum bufs (List.finRange Q) s).map fun s => { s with started := true }

/-- `egiga_rx_fill_on_timeout`. -/
def egigaRxFillOnTimeout (bufs : Fin Q → List RxBuf) (s : EgigaRx Q) : Option (EgigaRx Q) :=
  fillQueues descNum bufs (List.finRange Q) { s with rxFillFlag := false }

/-- The loop of `egiga_stop_internals` on a queue. It says whether a buffer without an skb has been
found. -/
def forceRxLoop (queue : Fin Q) : ℕ → EgigaRx Q → Bool × EgigaRx Q
  | 0, s => (false, s)
  | fuel + 1, s =>
    match (s.ring queue).mvEthPortForceRx (descNum queue) with
    | (.forced _ osInfo, ring) =>
      let s := (s.setRing queue ring).addCount queue (-1)
      if osInfo = 0 then (true, s)
      else forceRxLoop queue fuel { s with skbs := s.skbs.devKfreeSkb osInfo }
    | (_, ring) => (false, s.setRing queue ring)

/-- `egiga_stop_internals` frees the skbs of one queue after another, each with as many turns as it
has descriptors, and one that finds it empty. -/
def freeQueues : List (Fin Q) → EgigaRx Q → Bool × EgigaRx Q
  | [], s => (false, s)
  | queue :: queues, s =>
    match forceRxLoop descNum queue (descNum queue + 1) s with
    | (true, s) => (true, s)
    | (false, s) => freeQueues queues s

/-- `egiga_stop_internals`. The rings are reset by `ethResetRxDescRing`. -/
def egigaStopInternals (s : EgigaRx Q) : Bool × EgigaRx Q :=
  match freeQueues descNum (List.finRange Q) s with
  | (true, s) => (true, { s with started := false })
  | (false, s) => (false, { s with ring := fun _ => ethInitRxDescRing, started := false })

end EgigaRx

/-- One event of an interface. -/
def egigaRxStep {Q : ℕ} (descNum : Fin Q → ℕ) (multiQueue : Bool) (s : EgigaRx Q) :
    EgigaRxEvent Q → Option (EgigaRxAnswer × EgigaRx Q)
  | .start bufs => (s.egigaStartInternals descNum bufs).map fun s => (.started, s)
  | .stop => some (.stopped (s.egigaStopInternals descNum).1, (s.egigaStopInternals descNum).2)
  | .poll workToDo turns bufs =>
    (s.egigaRx descNum multiQueue workToDo turns bufs).map fun r => (.polled r.1, r.2)
  | .timeout bufs =>
    if s.rxFillFlag then (s.egigaRxFillOnTimeout descNum bufs).map fun s => (.filled, s) else none
  | .receive queue i cmdSts byteCnt fragIP =>
    (rxStep (descNum queue) (s.ring queue) (.fill i cmdSts byteCnt fragIP)).map fun r =>
      (.received, s.setRing queue r.2)

/-- The interface as it is loaded. -/
def egigaRxLoad (Q : ℕ) : EgigaRx Q where
  ring := fun _ => ethInitRxDescRing
  rxqCount := fun _ => 0
  rxFillFlag := false
  skbs := ⟨[], false⟩
  started := false

end Mv88fxx81.Eth
