import Mathlib.Data.BitVec
import Mv88fxx81.Lib.RoundRobin

/-!
# The receive policy

`mvEthRxPolicyGet` of `mvEthPolicy.c` says which receive queue is served next, out of those that are
ready in the cause: always the highest one, or, in WRR mode, one after the other, each as often as
its quota says. The search for the next queue goes round until it finds one; it is cut off after a
number of turns here, and a call returns when some number is enough.
-/

namespace Mv88fxx81.Eth

open RoundRobin

/-- `MV_ETH_RX_Q_NUM`, with and without `INCLUDE_MULTI_QUEUE`. -/
def MV_ETH_RX_Q_NUM (multiQueue : Bool) : ℕ := if multiQueue then 8 else 1

/-- `MV_ETH_PRIO_MODE`. -/
inductive EthPrioMode
  | fixed
  | wrr
  deriving DecidableEq, Repr

/-- `ETH_RX_POLICY`, for `N` queues. -/
structure EthRxPolicy (N : ℕ) where
  rxPrioMode : EthPrioMode
  rxQuota : Fin N → ℤ
  rxCurQ : Fin N
  rxCurQuota : ℤ

variable {N : ℕ}

/-- The bit `ETH_CAUSE_RX_READY_BIT` of the cause. -/
def rxReady (cause : BitVec 32) (queue : Fin N) : Bool := cause.getLsbD (2 + queue.val)

/-- `mvEthRxPolicyInit`. -/
def mvEthRxPolicyInit (hN : 0 < N) (defQuota : ℤ) (defMode : EthPrioMode) : EthRxPolicy N where
  rxPrioMode := defMode
  rxQuota _ := defQuota
  rxCurQ := ⟨N - 1, by omega⟩
  rxCurQuota := defQuota

namespace EthRxPolicy

variable (s : EthRxPolicy N)

/-- `mvEthRxPolicyQueueCfg`. It takes any quota. -/
def mvEthRxPolicyQueueCfg (rxQueue : Fin N) (rxQuota : ℤ) : EthRxPolicy N :=
  { s with rxQuota := Function.update s.rxQuota rxQueue rxQuota }

/-- The loop over the queues in the fixed mode, downward from the given number. -/
def fixedLoop (cause : BitVec 32) : (n : ℕ) → n ≤ N → Option (Fin N)
  | 0, _ => none
  | n + 1, hn => if rxReady cause ⟨n, hn⟩ then some ⟨n, hn⟩ else fixedLoop cause n (by omega)

/-- The search for the next queue in WRR mode, with the number of turns left. -/
def wrrLoop (cause : BitVec 32) : ℕ → EthRxPolicy N → Option (Fin N × EthRxPolicy N)
  | 0, _ => none
  | fuel + 1, s =>
    let s := { s with rxCurQ := back s.rxCurQ }
    if rxReady cause s.rxCurQ ∧ s.rxQuota s.rxCurQ ≠ 0 then
      some (s.rxCurQ, { s with rxCurQuota := s.rxQuota s.rxCurQ - 1 })
    else wrrLoop cause fuel s

/-- `mvEthRxPolicyGet`. In the fixed mode it answers `MV_INVALID` where no queue is ready. -/
def mvEthRxPolicyGet (fuel : ℕ) (cause : BitVec 32) : Option (Option (Fin N) × EthRxPolicy N) :=
  match s.rxPrioMode with
  | .fixed => some (fixedLoop cause N (Nat.le_refl N), s)
  | .wrr =>
    if rxReady cause s.rxCurQ ∧ 0 < s.rxCurQuota then
      some (some s.rxCurQ, { s with rxCurQuota := s.rxCurQuota - 1 })
    else (wrrLoop cause fuel s).map fun r => (some r.1, r.2)

/-- A call returns a queue. -/
def Returns (cause : BitVec 32) (queue : Fin N) (s' : EthRxPolicy N) : Prop :=
  ∃ fuel, s.mvEthRxPolicyGet fuel cause = some (some queue, s')

end EthRxPolicy

open EthRxPolicy

/-- Each of some calls terminates and returns a queue that is ready. -/
def CallsRight (s : EthRxPolicy N) : List (BitVec 32) → Prop
  | [] => True
  | cause :: causes =>
    ∃ queue s', s.Returns cause queue s' ∧ rxReady cause queue = true ∧ CallsRight s' causes

/-- The current queue is ready and has some of its quota left, or some queue is ready that has a
quota. -/
def RxCallSound (s : EthRxPolicy N) (cause : BitVec 32) : Prop :=
  (rxReady cause s.rxCurQ = true ∧ 0 < s.rxCurQuota) ∨
    ∃ queue, rxReady cause queue = true ∧ s.rxQuota queue ≠ 0

/-- Each of some calls is sound in the state that it is made in. -/
def RxCallsSound (s : EthRxPolicy N) : List (BitVec 32) → Prop
  | [] => True
  | cause :: causes =>
    RxCallSound s cause ∧ ∀ queue s', s.Returns cause queue s' → RxCallsSound s' causes

/-- Some calls that return, with their causes and the queues that they return. -/
inductive RxCalls : EthRxPolicy N → List (BitVec 32 × Fin N) → EthRxPolicy N → Prop
  | nil {s : EthRxPolicy N} : RxCalls s [] s
  | cons {s s' s'' : EthRxPolicy N} {cause : BitVec 32} {queue : Fin N}
      {trace : List (BitVec 32 × Fin N)} (hreturns : s.Returns cause queue s')
      (hrest : RxCalls s' trace s'') : RxCalls s ((cause, queue) :: trace) s''

/-- No queue is returned more than its quota of times in a row while another one is ready in these
calls. -/
def WithinQuota (quota : Fin N → ℤ) (trace : List (BitVec 32 × Fin N)) : Prop :=
  ∀ first row rest queue, trace = first ++ row ++ rest →
    (∀ call ∈ row, call.2 = queue ∧ ∃ other, other ≠ queue ∧ rxReady call.1 other = true) →
      (row.length : ℤ) ≤ quota queue

/-- A queue that stays ready is returned after at most as many calls as the quotas of the others
say. -/
def ServedAgain (quota : Fin N → ℤ) (trace : List (BitVec 32 × Fin N)) : Prop :=
  ∀ first wait rest queue, trace = first ++ wait ++ rest →
    (∀ call ∈ wait, rxReady call.1 queue = true ∧ call.2 ≠ queue) →
      (wait.length : ℤ) ≤ ∑ other ∈ Finset.univ.erase queue, quota other

end Mv88fxx81.Eth
