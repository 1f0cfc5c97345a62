import Mv88fxx81.Eth.Filter
import Mv88fxx81.Lib.Run

/-!
# The unicast filter

In promiscuous mode the unicast table is to accept every address, and otherwise
the address of the port and those that share its last nibble.
-/

namespace Mv88fxx81.Eth

open TransitionSystem EthFilter

variable {cfg : PortConfig} {port port' : EthFilter} {addr macAddr : MacAddr} {queue : ℤ}
  {event : FilterEvent} {status : MvStatus}

/-- The unicast table accepts all entries in promiscuous mode, and otherwise exactly the one of
the address that the port has. -/
def UcastExact (port : EthFilter) : Prop :=
  ∀ nibble < 16, accepts port.ucastTable nibble =
    (port.promiscuous || decide (nibble = lastNibble port.mvEthMacAddrGet.a5))

/-- A new address is given to an existing queue and, outside promiscuous mode, has the last nibble
of the address before it; or the call is refused. -/
def UcastClean (cfg : PortConfig) (port : EthFilter) : FilterEvent → Prop
  | .macAddrSet addr queue =>
    queue ≥ rxQNum cfg.multiQueue ∨ 0 ≤ queue ∧
      (port.promiscuous = true ∨ lastNibble addr.a5 = lastNibble port.mvEthMacAddrGet.a5)
  | _ => True

/-- What a run keeps beside the table: the address of the port is the one in its registers, and
its queue exists. -/
structure UcastKept (port : EthFilter) : Prop where
  addr : port.mvEthMacAddrGet = port.macAddr
  queue_nonneg : 0 ≤ port.rxUcastQ
  queue_lt : port.rxUcastQ < 8
  ucast : UcastExact port

/-- The lowest byte of a register. -/
theorem setWidth_and_byte (reg : BitVec 32) : (reg &&& 0xFF).setWidth 8 = reg.setWidth 8 := by
  have hmask : (0xFF : BitVec 32).setWidth 8 = BitVec.allOnes 8 := by decide
  rw [BitVec.setWidth_and, hmask, BitVec.and_allOnes]

/-- The address that the registers hold after it has been set. -/
theorem mvEthMacAddrGet_set (hqueue : queue < rxQNum cfg.multiQueue) :
    (port.mvEthMacAddrSet cfg addr queue).2.mvEthMacAddrGet = addr := by
  obtain ⟨a0, a1, a2, a3, a4, a5⟩ := addr
  have hset : ¬ queue ≥ rxQNum cfg.multiQueue := not_le.mpr hqueue
  simp only [mvEthMacAddrSet, if_neg hset, mvEthMacAddrGet, MacAddr.mk.injEq, setWidth_and_byte]
  refine ⟨?_, ?_, ?_, ?_, ?_, ?_⟩ <;> ext i hi <;>
    simp only [BitVec.getElem_setWidth, BitVec.getLsbD_ushiftRight, BitVec.getLsbD_append,
      BitVec.getLsbD_setWidth] <;> grind

/-- Changing the mode does not touch the address. -/
theorem mvEthMacAddrGet_mode (isPromisc : Bool) :
    (port.mvEthRxFilterModeSet cfg isPromisc).mvEthMacAddrGet = port.mvEthMacAddrGet := by
  cases isPromisc <;> rfl

/-- A mode change writes the whole unicast table. -/
theorem UcastKept.mode (hkept : UcastKept port) (isPromisc : Bool) :
    UcastKept (port.mvEthRxFilterModeSet cfg isPromisc) := by
  refine ⟨?_, ?_, ?_, ?_⟩
  · rw [mvEthMacAddrGet_mode, hkept.addr]
    cases isPromisc <;> rfl
  · cases isPromisc <;> exact hkept.queue_nonneg
  · cases isPromisc <;> exact hkept.queue_lt
  · intro nibble hnibble
    rw [promiscuous_mode, mvEthMacAddrGet_mode, hkept.addr]
    cases isPromisc with
    | true =>
      have hdefault : cfg.rxDefQ ≠ -1 := by
        have := cfg.rxDefQ_nonneg
        omega
      change accepts (setTable 4 port.ucastTable cfg.rxDefQ) nibble = _
      rw [accepts_setTable (by omega)]
      simp [hdefault]
    | false =>
      have hnonneg := hkept.queue_nonneg
      change accepts (setAddr (setTable 4 port.ucastTable (-1)) _ port.rxUcastQ) nibble = _
      rw [accepts_setAddr (by omega) hkept.queue_lt, accepts_setTable (by omega)]
      by_cases hsame : nibble = lastNibble port.macAddr.a5
      · have hset : port.rxUcastQ ≠ -1 := by omega
        simp [hsame, hset]
      · simp [hsame]

/-- The unicast table after an address has been given to a queue. -/
theorem ucastExact_set_iff (hkept : UcastExact port) (hlow : -1 ≤ queue)
    (hqueue : queue < rxQNum cfg.multiQueue) :
    UcastExact (port.mvEthMacAddrSet cfg addr queue).2 ↔
      0 ≤ queue ∧
        (port.promiscuous = true ∨ lastNibble addr.a5 = lastNibble port.mvEthMacAddrGet.a5) := by
  have hset : ¬ queue ≥ rxQNum cfg.multiQueue := not_le.mpr hqueue
  have hlt : queue < 8 := lt_of_lt_of_le hqueue (rxQNum_le _)
  have htable : ∀ nibble, accepts (port.mvEthMacAddrSet cfg addr queue).2.ucastTable nibble =
      if nibble = lastNibble addr.a5 then decide (queue ≠ -1)
      else accepts port.ucastTable nibble := by
    intro nibble
    simp only [mvEthMacAddrSet, if_neg hset]
    exact accepts_setAddr hlow hlt
  unfold UcastExact
  rw [promiscuous_macAddrSet, mvEthMacAddrGet_set hqueue]
  simp only [htable]
  constructor
  · intro hexact
    have hself := hexact (lastNibble addr.a5) (lastNibble_lt _)
    rw [if_pos rfl] at hself
    have hne : queue ≠ -1 := by simpa using hself
    refine ⟨by omega, ?_⟩
    -- the entry of the address before is as it was
    by_contra hneither
    rw [not_or] at hneither
    obtain ⟨hmode, hother⟩ := hneither
    have hold := hexact (lastNibble port.mvEthMacAddrGet.a5) (lastNibble_lt _)
    rw [if_neg (Ne.symm hother), hkept _ (lastNibble_lt _)] at hold
    simp [hmode, Ne.symm hother] at hold
  · rintro ⟨hnonneg, hwhich⟩ nibble hnibble
    have hne : queue ≠ -1 := by omega
    by_cases hself : nibble = lastNibble addr.a5
    · simp [hself, hne]
    · rw [if_neg hself, hkept nibble hnibble]
      rcases hwhich with hmode | hsame
      · simp [hmode]
      · rw [hsame]

/-- An address that is given to an existing queue. -/
theorem ucastKept_set (hnonneg : 0 ≤ queue)
    (hqueue : queue < rxQNum cfg.multiQueue)
    (hexact : UcastExact (port.mvEthMacAddrSet cfg addr queue).2) :
    UcastKept (port.mvEthMacAddrSet cfg addr queue).2 := by
  have hset : ¬ queue ≥ rxQNum cfg.multiQueue := not_le.mpr hqueue
  refine ⟨?_, ?_, ?_, hexact⟩
  · rw [mvEthMacAddrGet_set hqueue]
    simp [mvEthMacAddrSet, if_neg hset]
  · simpa [mvEthMacAddrSet, if_neg hset] using hnonneg
  · simpa [mvEthMacAddrSet, if_neg hset] using lt_of_lt_of_le hqueue (rxQNum_le _)

/-- Setting a multicast address does not touch the unicast filter. -/
theorem UcastKept.mcast (hkept : UcastKept port) :
    UcastKept (port.mvEthMcastAddrSet cfg addr queue).2 := by
  unfold mvEthMcastAddrSet
  split_ifs
  · exact hkept
  · exact ⟨hkept.addr, hkept.queue_nonneg, hkept.queue_lt, hkept.ucast⟩
  all_goals
    dsimp only
    split_ifs <;> exact ⟨hkept.addr, hkept.queue_nonneg, hkept.queue_lt, hkept.ucast⟩

/-- The filter of a port that has been initialised. -/
theorem ucastKept_defaults (regs : EthFilter) : UcastKept (mvEthDefaultsSet cfg regs macAddr) := by
  refine ucastKept_set cfg.rxDefQ_nonneg cfg.rxDefQ_lt ?_
  have hlt : cfg.rxDefQ < 8 := lt_of_lt_of_le cfg.rxDefQ_lt (rxQNum_le _)
  have hset : ¬ cfg.rxDefQ ≥ rxQNum cfg.multiQueue := not_le.mpr cfg.rxDefQ_lt
  have hnonneg := cfg.rxDefQ_nonneg
  intro nibble hnibble
  rw [mvEthMacAddrGet_set cfg.rxDefQ_lt]
  simp only [mvEthMacAddrSet, if_neg hset, ethSetUcastAddr, ethSetUcastTable]
  rw [accepts_setAddr (by omega) hlt, accepts_setTable (by omega)]
  have hne : cfg.rxDefQ ≠ -1 := by omega
  by_cases hself : nibble = lastNibble macAddr.a5
  · simp [hself, hne]
  · simp [hself, promiscuous]

/-- One call: the filter stays exact when the call meets its condition, and only then if no
negative number but `-1` is given for a queue. -/
theorem filterStep_ucast (hkept : UcastKept port)
    (hstep : filterStep cfg port event = some (status, port')) :
    (UcastClean cfg port event → UcastKept port') ∧
      ((∀ addr queue, event = .macAddrSet addr queue → -1 ≤ queue) →
        (UcastExact port' ↔ UcastClean cfg port event)) := by
  cases event with
  | rxFilterModeSet isPromisc =>
    obtain ⟨-, rfl⟩ := Prod.mk.inj (Option.some.inj hstep)
    exact ⟨fun _ => hkept.mode isPromisc, fun _ => iff_of_true (hkept.mode isPromisc).ucast trivial⟩
  | mcastAddrSet addr queue =>
    obtain rfl : (port.mvEthMcastAddrSet cfg addr queue).2 = port' :=
      congrArg Prod.snd (Option.some.inj hstep)
    exact ⟨fun _ => hkept.mcast, fun _ => iff_of_true hkept.mcast.ucast trivial⟩
  | macAddrSet addr queue =>
    obtain rfl : (port.mvEthMacAddrSet cfg addr queue).2 = port' :=
      congrArg Prod.snd (Option.some.inj hstep)
    by_cases hrefused : queue ≥ rxQNum cfg.multiQueue
    · have hsame : (port.mvEthMacAddrSet cfg addr queue).2 = port := by
        simp [mvEthMacAddrSet, if_pos hrefused]
      rw [hsame]
      exact ⟨fun _ => hkept, fun _ => iff_of_true hkept.ucast (Or.inl hrefused)⟩
    · have hqueue : queue < rxQNum cfg.multiQueue := not_le.mp hrefused
      constructor
      · intro hclean
        have hset := hclean.resolve_left hrefused
        apply ucastKept_set hset.1 hqueue
        have hlow : -1 ≤ queue := by omega
        exact (ucastExact_set_iff hkept.ucast hlow hqueue).mpr hset
      · intro hlow
        rw [ucastExact_set_iff hkept.ucast (hlow addr queue rfl) hqueue]
        exact ⟨Or.inr, fun hclean => hclean.resolve_left hrefused⟩

/-- The unicast filter. From an initialised port, and while new addresses are given to existing
queues and keep the last nibble outside promiscuous mode, the unicast table accepts exactly the
entry of the address that the port has, and every entry in promiscuous mode. The first call that
is not of this kind breaks this. -/
theorem filterRun_ucast {regs : EthFilter} {trace : List (FilterEvent × MvStatus)}
    (hrun : Run (filterStep cfg) (UcastClean cfg) (mvEthDefaultsSet cfg regs macAddr) trace port) :
    UcastExact port ∧
      ∀ event status port', filterStep cfg port event = some (status, port') →
        (∀ addr queue, event = .macAddrSet addr queue → -1 ≤ queue) →
          (UcastExact port' ↔ UcastClean cfg port event) := by
  have hkept : UcastKept port := by
    refine Run.invariant (I := fun _ port => UcastKept port) ?_ ?_ hrun
    · exact ucastKept_defaults regs
    · intro trace port event status port' hkept hclean hstep
      exact (filterStep_ucast hkept hstep).1 hclean
  exact ⟨hkept.ucast, fun event status port' hstep => (filterStep_ucast hkept hstep).2⟩

/-- The address is changed in promiscuous mode, which is then left. -/
theorem filterRun_ucast_change :
    ∃ trace port, Run (filterStep oneQueue) (UcastClean oneQueue)
      (mvEthDefaultsSet oneQueue zeroRegs ⟨0x00, 0x50, 0x43, 0, 0, 1⟩) trace port ∧
        port.macAddr = ⟨0x00, 0x50, 0x43, 0, 0, 2⟩ ∧ UcastExact port := by
  have hset : ∀ port : EthFilter, port.promiscuous = true →
      UcastClean oneQueue port (.macAddrSet ⟨0x00, 0x50, 0x43, 0, 0, 2⟩ 0) :=
    fun port hmode => Or.inr ⟨by decide, Or.inl hmode⟩
  have hstart : Run (filterStep oneQueue) (UcastClean oneQueue)
      (mvEthDefaultsSet oneQueue zeroRegs ⟨0x00, 0x50, 0x43, 0, 0, 1⟩) [] _ := .start
  have hany : ∀ port isPromisc, UcastClean oneQueue port (.rxFilterModeSet isPromisc) :=
    fun _ _ => trivial
  have hmode := Run.next hstart (hany _ true) rfl
  have hchanged := Run.next hmode (hset _ (promiscuous_mode true)) rfl
  have hleft := Run.next hchanged (hany _ false) rfl
  exact ⟨_, _, hleft, rfl, (filterRun_ucast hleft).1⟩

/-- The address is changed outside promiscuous mode: the entry of the address before still
accepts. -/
theorem filterRun_ucast_stale :
    ∃ trace port, Run (filterStep oneQueue) (fun _ _ => True)
      (mvEthDefaultsSet oneQueue zeroRegs ⟨0x00, 0x50, 0x43, 0, 0, 1⟩) trace port ∧
        trace = [(.macAddrSet ⟨0x00, 0x50, 0x43, 0, 0, 2⟩ 0, .ok)] ∧
        port.promiscuous = false ∧ accepts port.ucastTable 1 = true ∧
        accepts port.ucastTable 2 = true ∧ ¬ UcastExact port := by
  refine ⟨_, _, Run.next .start trivial rfl, rfl, by decide, by decide, by decide, ?_⟩
  intro hexact
  have hold := hexact 1 (by decide)
  revert hold
  decide

end Mv88fxx81.Eth
