import Mathlib.Data.List.Range
import Mv88fxx81.Sata.IalBringUp

/-!
# The ports behind a port multiplier

The ports whose link is up are kept in a set of bits. They are reset in increasing
order, each at most once, and the port that is being reset is always one that the
port multiplier has. The structure of a channel is allocated in all states of the
bring-up that use it.
-/

namespace Mv88fxx81.Sata.Ial

open TransitionSystem

variable {n : ℕ} {hw : ChannelHardware} {ch ch' : IalChannel} {p i : ℕ} {s s' : AdapterState}

theorem getLsbD_portBit (p i : ℕ) : (portBit p).getLsbD i = decide (i = p ∧ i < 16) := by
  unfold portBit
  rw [BitVec.getLsbD_shiftLeft, BitVec.getLsbD_one]
  by_cases hi : i < 16
  · by_cases hp : i = p
    · simp [hp, hp ▸ hi]
    · by_cases hlt : i < p
      · simp [hlt, hp]
      · have hsub : i - p ≠ 0 := by omega
        simp [hlt, hp, hsub]
  · simp [hi]

/-- Clearing the bit of a port. -/
theorem getLsbD_clear (devs : BitVec 16) (p i : ℕ) :
    (devs &&& ~~~portBit p).getLsbD i = (devs.getLsbD i && decide (i ≠ p)) := by
  rw [BitVec.getLsbD_and, BitVec.getLsbD_not, getLsbD_portBit]
  by_cases hi : i < 16
  · by_cases hp : i = p <;> simp [hi, hp]
  · simp [BitVec.getLsbD_of_ge devs i (Nat.le_of_not_lt hi)]

/-- Setting the bit of a port. -/
theorem getLsbD_set (devs : BitVec 16) (p i : ℕ) :
    (devs ||| portBit p).getLsbD i = (devs.getLsbD i || decide (i = p ∧ i < 16)) := by
  rw [BitVec.getLsbD_or, getLsbD_portBit]

/-- The ports of a channel that change while they are checked. -/
def IalChannel.hasPort (ch : IalChannel) (p : ℕ) : Prop := ch.pmDevsToInit.getLsbD p = true

/-- Checking a port clears or keeps its bit. The first port whose bit is kept is remembered. -/
theorem checkPort_spec (hw : ChannelHardware) (ch : IalChannel) (p : ℕ) :
    (∀ i, (checkPort hw ch p).2.hasPort i → ch.hasPort i) ∧
      ((checkPort hw ch p).2.devInSRST = ch.devInSRST ∨ (checkPort hw ch p).2.devInSRST = p) ∧
      (ch.devInSRST ≠ 16 → (checkPort hw ch p).2.devInSRST ≠ 16) ∧
      ((checkPort hw ch p).2.devInSRST = 16 → p ≠ 16 → ¬ (checkPort hw ch p).2.hasPort p) ∧
      (checkPort hw ch p).2.pmNumberOfPorts = ch.pmNumberOfPorts ∧
      (checkPort hw ch p).2.portResets = ch.portResets := by
  unfold checkPort IalChannel.hasPort
  by_cases hbit : ch.pmDevsToInit.getLsbD p = true
  · rw [if_neg (not_not.mpr hbit)]
    dsimp only
    have hcleared : ∀ i, (ch.pmDevsToInit &&& ~~~portBit p).getLsbD i = true →
        ch.pmDevsToInit.getLsbD i = true := by
      intro i hi
      rw [getLsbD_clear, Bool.and_eq_true] at hi
      exact hi.1
    have hgone : ¬ (ch.pmDevsToInit &&& ~~~portBit p).getLsbD p = true := by
      rw [getLsbD_clear]
      simp
    cases hw.sStatus p with
    | none => exact ⟨hcleared, Or.inl rfl, id, fun _ _ => hgone, rfl, rfl⟩
    | some sStatus =>
      dsimp only
      by_cases hlink : sStatus &&& 0xf ≠ 3
      · rw [if_pos hlink]
        exact ⟨hcleared, Or.inl rfl, id, fun _ _ => hgone, rfl, rfl⟩
      · rw [if_neg hlink]
        have hkept : ∀ i, ((ch.pmDevsToInit &&& ~~~portBit p) ||| portBit p).getLsbD i = true →
            ch.pmDevsToInit.getLsbD i = true := by
          intro i hi
          rw [getLsbD_set, Bool.or_eq_true, decide_eq_true_iff] at hi
          rcases hi with hi | ⟨rfl, -⟩
          · exact hcleared i hi
          · exact hbit
        by_cases hfirst : ch.devInSRST = pmControlPort + 1
        · rw [if_pos hfirst]
          exact ⟨hkept, Or.inr rfl, fun hne => absurd hfirst hne, fun hp hne => absurd hp hne,
            rfl, rfl⟩
        · rw [if_neg hfirst]
          exact ⟨hkept, Or.inl rfl, id, fun hp => absurd hp hfirst, rfl, rfl⟩
  · rw [if_pos hbit]
    exact ⟨fun _ => id, Or.inl rfl, id, fun _ _ => hbit, rfl, rfl⟩

/-- When no port is remembered, no bit of a port that has been checked is left. -/
theorem checkPorts_spec (hw : ChannelHardware) (ports : List ℕ) (hports : ∀ p ∈ ports, p ≠ 16)
    (ch : IalChannel) :
    (∀ i, (checkPorts hw ports ch).2.hasPort i → ch.hasPort i) ∧
      ((checkPorts hw ports ch).2.devInSRST = ch.devInSRST ∨
        (checkPorts hw ports ch).2.devInSRST ∈ ports) ∧
      (ch.devInSRST ≠ 16 → (checkPorts hw ports ch).2.devInSRST ≠ 16) ∧
      ((checkPorts hw ports ch).1 = true → (checkPorts hw ports ch).2.devInSRST = 16 →
        ∀ p ∈ ports, ¬ (checkPorts hw ports ch).2.hasPort p) ∧
      (checkPorts hw ports ch).2.pmNumberOfPorts = ch.pmNumberOfPorts ∧
      (checkPorts hw ports ch).2.portResets = ch.portResets := by
  induction ports generalizing ch with
  | nil => exact ⟨fun _ => id, Or.inl rfl, id, fun _ _ _ hp => (by cases hp), rfl, rfl⟩
  | cons p ports ih =>
    obtain ⟨hbits, hdev, hkept, hgone, hnumber, hresets⟩ := checkPort_spec hw ch p
    unfold checkPorts
    dsimp only
    split_ifs with hgo
    · obtain ⟨hbits', hdev', hkept', hgone', hnumber', hresets'⟩ :=
        ih (fun q hq => hports q (List.mem_cons_of_mem p hq)) (checkPort hw ch p).2
      refine ⟨fun i hi => hbits i (hbits' i hi), ?_, fun hne => hkept' (hkept hne), ?_,
        hnumber'.trans hnumber, hresets'.trans hresets⟩
      · rcases hdev' with hdev' | hdev'
        · rw [hdev']
          exact hdev.imp_right fun heq => List.mem_cons.mpr (Or.inl heq)
        · exact Or.inr (List.mem_cons_of_mem p hdev')
      · intro hall hnone q hq
        rcases List.mem_cons.mp hq with rfl | hq
        · have hbefore : (checkPort hw ch q).2.devInSRST = 16 := by
            by_contra hne
            exact hkept' hne hnone
          intro hbit
          exact hgone hbefore (hports q List.mem_cons_self) (hbits' q hbit)
        · exact hgone' hall hnone q hq
    · refine ⟨hbits, hdev.imp_right fun heq => List.mem_cons.mpr (Or.inl heq), hkept, ?_,
        hnumber, hresets⟩
      intro hfalse
      cases hfalse

/-! ### The next port -/

/-- The ports that have been reset are in order, and the last one is remembered. -/
structure InOrder (ch : IalChannel) : Prop where
  increasing : ch.portResets.Pairwise (· < ·)
  reached : ∀ q ∈ ch.portResets, q ≤ ch.devInSRST

/-- The ports that are still to be reset come after the ones that have been reset. -/
def IalChannel.Fresh (ch : IalChannel) (ports : List ℕ) : Prop :=
  ∀ p ∈ ports, ch.hasPort p → ∀ q ∈ ch.portResets, q < p

/-- A port that comes after all the ones that have been reset. -/
theorem inOrder_reset (h : InOrder ch) (hafter : ∀ q ∈ ch.portResets, q < p) (devs : BitVec 16) :
    InOrder { ch with
      devInSRST := p
      portResets := ch.portResets ++ [p]
      pmDevsToInit := devs } := by
  constructor
  · rw [List.pairwise_append]
    refine ⟨h.increasing, List.pairwise_singleton _ _, ?_⟩
    intro q hq p' hp'
    rw [List.mem_singleton.mp hp']
    exact hafter q hq
  · intro q hq
    rcases List.mem_append.mp hq with hq | hq
    · exact (hafter q hq).le
    · exact (List.mem_singleton.mp hq).le

/-- The loop over the ports stays at its port or goes to one of them. -/
theorem resetNextPort_port (hw : ChannelHardware) (giveUp : ℕ → Bool) (ports : List ℕ)
    (ch : IalChannel) :
    ((resetNextPort hw giveUp ports ch).2.devInSRST = ch.devInSRST ∨
        (resetNextPort hw giveUp ports ch).2.devInSRST ∈ ports) ∧
      (resetNextPort hw giveUp ports ch).2.pmNumberOfPorts = ch.pmNumberOfPorts := by
  induction ports generalizing ch with
  | nil => exact ⟨Or.inl rfl, rfl⟩
  | cons p ports ih =>
    unfold resetNextPort startPortReset
    dsimp only
    split_ifs
    · exact ⟨Or.inr List.mem_cons_self, rfl⟩
    · exact ⟨Or.inr List.mem_cons_self, rfl⟩
    · obtain ⟨hdev, hnumber⟩ := ih { ch with
        devInSRST := p
        portResets := ch.portResets ++ [p]
        pmDevsToInit := ch.pmDevsToInit &&& ~~~portBit p }
      refine ⟨Or.inr ?_, hnumber⟩
      rcases hdev with hdev | hdev
      · rw [hdev]
        exact List.mem_cons_self
      · exact List.mem_cons_of_mem p hdev
    · obtain ⟨hdev, hnumber⟩ := ih ch
      exact ⟨hdev.imp_right (List.mem_cons_of_mem p), hnumber⟩

/-- The loop over the ports keeps their order. -/
theorem resetNextPort_inOrder {giveUp : ℕ → Bool} {ports : List ℕ}
    (hports : ports.Pairwise (· < ·)) (h : InOrder ch) (hfresh : ch.Fresh ports) :
    InOrder (resetNextPort hw giveUp ports ch).2 := by
  induction ports generalizing ch with
  | nil => exact h
  | cons p ports ih =>
    obtain ⟨hlater, hports⟩ := List.pairwise_cons.mp hports
    unfold resetNextPort startPortReset
    dsimp only
    by_cases hbit : ch.pmDevsToInit.getLsbD p = true
    · rw [if_pos hbit]
      have hafter : ∀ q ∈ ch.portResets, q < p := hfresh p List.mem_cons_self hbit
      split_ifs
      · exact ⟨h.increasing, fun q hq => (hafter q hq).le⟩
      · exact inOrder_reset h hafter _
      · -- the reset could not be started: the loop goes on behind this port
        have hfresh' : ({ ch with
            devInSRST := p
            portResets := ch.portResets ++ [p]
            pmDevsToInit := ch.pmDevsToInit &&& ~~~portBit p } : IalChannel).Fresh ports := by
          intro p' hp' hbit' q hq
          unfold IalChannel.hasPort at hbit'
          rw [getLsbD_clear, Bool.and_eq_true] at hbit'
          rcases List.mem_append.mp hq with hq | hq
          · exact hfresh p' (List.mem_cons_of_mem p hp') hbit'.1 q hq
          · rw [List.mem_singleton.mp hq]
            exact hlater p' hp'
        exact ih hports (inOrder_reset h hafter _) hfresh'
    · rw [if_neg hbit]
      exact ih hports h fun p' hp' => hfresh p' (List.mem_cons_of_mem p hp')

/-- The next port is the same one or one of the port multiplier. -/
theorem nextPort_port (hw : ChannelHardware) (giveUp : ℕ → Bool) (ch : IalChannel) :
    ((nextPort hw giveUp ch).2.devInSRST = ch.devInSRST ∨
        (nextPort hw giveUp ch).2.devInSRST < ch.pmNumberOfPorts) ∧
      (nextPort hw giveUp ch).2.pmNumberOfPorts = ch.pmNumberOfPorts := by
  obtain ⟨hdev, hnumber⟩ := resetNextPort_port hw giveUp (portsFrom ch) ch
  have hdev' : (resetNextPort hw giveUp (portsFrom ch) ch).2.devInSRST = ch.devInSRST ∨
      (resetNextPort hw giveUp (portsFrom ch) ch).2.devInSRST < ch.pmNumberOfPorts := by
    refine hdev.imp_right fun hmem => ?_
    have hrange := List.mem_range'_1.mp hmem
    omega
  unfold nextPort
  by_cases hnone : ch.pmDevsToInit = 0
  · rw [if_pos hnone]
    exact ⟨Or.inl rfl, rfl⟩
  · rw [if_neg hnone]
    dsimp only
    cases (resetNextPort hw giveUp (portsFrom ch) ch).1 with
    | failed => exact ⟨hdev', hnumber⟩
    | started => exact ⟨hdev', hnumber⟩
    | exhausted => exact ⟨hdev', hnumber⟩

theorem nextPort_inOrder {giveUp : ℕ → Bool} (h : InOrder ch) (hfresh : ch.Fresh (portsFrom ch)) :
    InOrder (nextPort hw giveUp ch).2 := by
  have hports : (portsFrom ch).Pairwise (· < ·) := List.pairwise_lt_range' _
  have hinOrder := @resetNextPort_inOrder hw _ giveUp _ hports h hfresh
  unfold nextPort
  by_cases hnone : ch.pmDevsToInit = 0
  · rw [if_pos hnone]
    exact h
  · rw [if_neg hnone]
    dsimp only
    cases (resetNextPort hw giveUp (portsFrom ch) ch).1 with
    | failed => exact hinOrder
    | started => exact hinOrder
    | exhausted => exact hinOrder

/-- The ports are checked from the first one on. -/
theorem mvPMCheckForConnectedDevices_port (hw : ChannelHardware)
    (hnumber : ch.pmNumberOfPorts ≤ 15) :
    ((mvPMCheckForConnectedDevices hw ch).2.devInSRST = 16 ∨
        (mvPMCheckForConnectedDevices hw ch).2.devInSRST < ch.pmNumberOfPorts) ∧
      (mvPMCheckForConnectedDevices hw ch).2.pmNumberOfPorts = ch.pmNumberOfPorts := by
  have hrange : ∀ p ∈ List.range ch.pmNumberOfPorts, p ≠ 16 := by
    intro p hp
    have hlt := List.mem_range.mp hp
    omega
  obtain ⟨-, hdev, -, -, hsame, -⟩ := checkPorts_spec hw (List.range ch.pmNumberOfPorts) hrange
    { ch with devInSRST := pmControlPort + 1 }
  rw [List.mem_range] at hdev
  unfold mvPMCheckForConnectedDevices
  generalize checkPorts hw (List.range ch.pmNumberOfPorts)
    { ch with devInSRST := pmControlPort + 1 } = result at hdev hsame ⊢
  obtain ⟨goOn, ch₁⟩ := result
  dsimp only at hdev hsame ⊢
  split_ifs
  · obtain ⟨hnext, hnumber'⟩ := nextPort_port hw (fun p => ¬ hw.resetAfterWrite p) ch₁
    rw [hsame] at hnext hnumber'
    refine ⟨?_, hnumber'⟩
    rcases hnext with hnext | hnext
    · rw [hnext]
      exact hdev
    · exact Or.inr hnext
  · exact ⟨hdev, hsame⟩

/-- Nothing has been reset yet: the first port whose link is up comes next. -/
theorem mvPMCheckForConnectedDevices_inOrder (hnumber : ch.pmNumberOfPorts ≤ 15)
    (hresets : ch.portResets = []) (hbits : ∀ p, ch.hasPort p → p < ch.pmNumberOfPorts) :
    InOrder (mvPMCheckForConnectedDevices hw ch).2 ∧
      ((mvPMCheckForConnectedDevices hw ch).1 = .inProgress →
        (mvPMCheckForConnectedDevices hw ch).2.devInSRST < ch.pmNumberOfPorts) := by
  have hrange : ∀ p ∈ List.range ch.pmNumberOfPorts, p ≠ 16 := by
    intro p hp
    have hlt := List.mem_range.mp hp
    omega
  obtain ⟨hsub, hdev, -, hgone, hnumber', hresets'⟩ := checkPorts_spec hw
    (List.range ch.pmNumberOfPorts) hrange { ch with devInSRST := pmControlPort + 1 }
  unfold mvPMCheckForConnectedDevices
  generalize checkPorts hw (List.range ch.pmNumberOfPorts)
    { ch with devInSRST := pmControlPort + 1 } = result at hsub hdev hgone hnumber' hresets' ⊢
  obtain ⟨goOn, ch₁⟩ := result
  dsimp only at hsub hdev hgone hnumber' hresets' ⊢
  have hnone : ch₁.portResets = [] := hresets'.trans hresets
  have hinOrder : InOrder ch₁ := by
    constructor
    · rw [hnone]
      exact List.Pairwise.nil
    · rw [hnone]
      intro q hq
      cases hq
  have hfresh : ch₁.Fresh (portsFrom ch₁) := by
    intro p _ _ q hq
    rw [hnone] at hq
    cases hq
  cases goOn with
  | false => exact ⟨hinOrder, fun hfalse => (by cases hfalse)⟩
  | true =>
    rw [if_neg (by simp)]
    refine ⟨nextPort_inOrder hinOrder hfresh, ?_⟩
    rcases hdev with hdev | hdev
    · -- no port has its link up
      have hempty : ch₁.pmDevsToInit = 0#16 := by
        refine BitVec.eq_of_getLsbD_eq fun i _ => ?_
        rw [BitVec.getLsbD_zero, Bool.eq_false_iff]
        intro hbit
        exact hgone rfl hdev i (List.mem_range.mpr (hbits i (hsub i hbit))) hbit
      have hnext : nextPort hw (fun p => ¬ hw.resetAfterWrite p) ch₁ = (portsDone hw, ch₁) := by
        unfold nextPort
        exact if_pos hempty
      rw [hnext]
      unfold portsDone
      intro hprogress
      split_ifs at hprogress
    · intro _
      obtain ⟨hnext, -⟩ := nextPort_port hw (fun p => ¬ hw.resetAfterWrite p) ch₁
      rw [hnumber'] at hnext
      rcases hnext with hnext | hnext
      · rw [hnext]
        exact List.mem_range.mp hdev
      · exact hnext

/-- The disk behind a port is initialised without a change of the ports. -/
theorem initPort_ports (hw : ChannelHardware) (ch : IalChannel) (p : ℕ) :
    (initPort hw ch p).2.pmDevsToInit = ch.pmDevsToInit &&& ~~~portBit p ∧
      (initPort hw ch p).2.devInSRST = ch.devInSRST ∧
      (initPort hw ch p).2.pmNumberOfPorts = ch.pmNumberOfPorts ∧
      (initPort hw ch p).2.portResets = ch.portResets := by
  unfold initPort
  cases hw.linkStatus with
  | none => exact ⟨rfl, rfl, rfl, rfl⟩
  | some status =>
    match status with
    | 0 =>
      dsimp only
      unfold initDisk
      dsimp only
      split_ifs
      · exact ⟨rfl, rfl, rfl, rfl⟩
      · exact ⟨rfl, rfl, rfl, rfl⟩
    | 1 => exact ⟨rfl, rfl, rfl, rfl⟩
    | 2 => exact ⟨rfl, rfl, rfl, rfl⟩

/-- The port that has been reset is not reset again. -/
theorem fresh_of_cleared {devs : BitVec 16} (h : InOrder ch)
    (hdevs : ch.pmDevsToInit = devs &&& ~~~portBit ch.devInSRST) : ch.Fresh (portsFrom ch) := by
  intro p hp hbit q hq
  unfold IalChannel.hasPort at hbit
  rw [hdevs, getLsbD_clear, Bool.and_eq_true, decide_eq_true_iff] at hbit
  have hreached := h.reached q hq
  have hle := (List.mem_range'_1.mp hp).1
  have hne := hbit.2
  omega

/-- The port that is being initialised stays the same or the next one is reset. -/
theorem mvInitPMDevice_port (hw : ChannelHardware) (ch : IalChannel) :
    ((mvInitPMDevice hw ch).2.devInSRST = ch.devInSRST ∨
        (mvInitPMDevice hw ch).2.devInSRST < ch.pmNumberOfPorts) ∧
      (mvInitPMDevice hw ch).2.pmNumberOfPorts = ch.pmNumberOfPorts := by
  unfold mvInitPMDevice
  dsimp only
  split_ifs
  · exact ⟨Or.inl rfl, rfl⟩
  · obtain ⟨-, hport, hnumber, -⟩ := initPort_ports hw ch ch.devInSRST
    generalize initPort hw ch ch.devInSRST = result at hport hnumber ⊢
    obtain ⟨outcome, ch₁⟩ := result
    cases outcome with
    | some outcome => exact ⟨Or.inl hport, hnumber⟩
    | none =>
      have hnext := nextPort_port hw (fun _ => true) ch₁
      rw [hnumber, hport] at hnext
      exact hnext
  · exact nextPort_port hw (fun _ => true) { ch with
      pmDevsToInit := ch.pmDevsToInit &&& ~~~portBit ch.devInSRST }
  · exact ⟨Or.inl rfl, rfl⟩

theorem mvInitPMDevice_inOrder (h : InOrder ch) : InOrder (mvInitPMDevice hw ch).2 := by
  unfold mvInitPMDevice
  dsimp only
  split_ifs
  · exact h
  · obtain ⟨hbits, hport, -, hresets⟩ := initPort_ports hw ch ch.devInSRST
    generalize initPort hw ch ch.devInSRST = result at hbits hport hresets ⊢
    obtain ⟨outcome, ch₁⟩ := result
    have hinOrder : InOrder ch₁ := by
      constructor
      · rw [hresets]
        exact h.increasing
      · rw [hresets, hport]
        exact h.reached
    cases outcome with
    | some outcome => exact hinOrder
    | none =>
      refine nextPort_inOrder hinOrder (@fresh_of_cleared _ ch.pmDevsToInit hinOrder ?_)
      rw [hbits, hport]
  · exact nextPort_inOrder ⟨h.increasing, h.reached⟩
      (fresh_of_cleared ⟨h.increasing, h.reached⟩ rfl)
  · exact h

/-! ### The states of a bring-up -/

/-- What holds of the ports in every state. -/
structure PortsKnown (ch : IalChannel) : Prop where
  reading : ch.pmRegAccessInProgress = true → ch.sataChannel = true
  number : ch.pmNumberOfPorts ≤ 15
  increasing : ch.portResets.Pairwise (· < ·)

/-- What holds of the ports and of the structure of a channel in each state. -/
structure PortsInOrder (ch : IalChannel) : Prop extends PortsKnown ch where
  allocated : ch.channelState ≠ .notConnected → ch.channelState ≠ .connected →
    ch.sataChannel = true
  released : ch.channelState = .notConnected → ch.sataChannel = false
  port : ch.channelState = .pmSrstDevice →
    ch.devInSRST < ch.pmNumberOfPorts ∧ ∀ q ∈ ch.portResets, q ≤ ch.devInSRST
  fresh : ch.channelState = .inSrst ∨ ch.channelState = .pmStaggeredSpinUp → ch.portResets = []
  bits : ch.channelState = .pmStaggeredSpinUp → ∀ p, ch.hasPort p → p < ch.pmNumberOfPorts

/-- The staggered spin-up reports ports of the port multiplier only. -/
def SpinUpBelow (hw : ChannelHardware) : Prop :=
  ∀ number ∈ hw.pmPorts, ∀ ports ∈ hw.spinUp, ∀ p, ports.getLsbD p = true → p < number.val

theorem ports_below_iff {ports : BitVec 16} {number : ℕ} :
    ports.toNat < 2 ^ number ↔ ∀ p, ports.getLsbD p = true → p < number := by
  constructor
  · intro hlt p hp
    by_contra hle
    have hbit : ports.toNat.testBit p = false :=
      Nat.testBit_lt_two_pow (hlt.trans_le (Nat.pow_le_pow_right (by omega) (by omega)))
    rw [BitVec.getLsbD, hbit] at hp
    cases hp
  · intro hall
    refine Nat.lt_pow_two_of_testBit ports.toNat fun p hle => ?_
    rw [Bool.eq_false_iff]
    intro hbit
    have hlt := hall p hbit
    omega

instance (hw : ChannelHardware) : Decidable (SpinUpBelow hw) :=
  decidable_of_iff ((hw.pmPorts.all fun number =>
      hw.spinUp.all fun ports => decide (ports.toNat < 2 ^ number.val)) = true) (by
    simp only [SpinUpBelow, Option.all_eq_true, decide_eq_true_iff, ports_below_iff]
    rfl)

/-- In a state in which no port is being reset, only the structure of the channel matters. -/
theorem PortsKnown.inState (h : PortsKnown ch)
    (hstate : ch.channelState = .connected ∨ ch.channelState = .ready ∨
      ch.channelState = .pmHotPlug)
    (hallocated : ch.channelState ≠ .connected → ch.sataChannel = true) : PortsInOrder ch := by
  refine ⟨h, fun _ => hallocated, ?_, ?_, ?_, ?_⟩
  · intro hnot
    simp [hnot] at hstate
  · intro hnot
    simp [hnot] at hstate
  · rintro (hnot | hnot)
    · simp [hnot] at hstate
    · simp [hnot] at hstate
  · intro hnot
    simp [hnot] at hstate

/-- A channel that is not connected has no structure. -/
theorem PortsKnown.notConnected (h : PortsKnown ch) (hstate : ch.channelState = .notConnected)
    (hreleased : ch.sataChannel = false) : PortsInOrder ch := by
  refine ⟨h, fun hnot => absurd hstate hnot, fun _ => hreleased, ?_, ?_, ?_⟩
  · simp [hstate]
  · simp [hstate]
  · simp [hstate]

/-- A software reset of the channel begins before any port is reset. -/
theorem PortsKnown.inSrst (h : PortsKnown ch) (hstate : ch.channelState = .inSrst)
    (hallocated : ch.sataChannel = true) (hfresh : ch.portResets = []) : PortsInOrder ch := by
  refine ⟨h, fun _ _ => hallocated, ?_, ?_, fun _ => hfresh, ?_⟩
  · simp [hstate]
  · simp [hstate]
  · simp [hstate]

/-- The staggered spin-up begins before any port is reset. -/
theorem PortsKnown.spinUp (h : PortsKnown ch) (hstate : ch.channelState = .pmStaggeredSpinUp)
    (hallocated : ch.sataChannel = true) (hfresh : ch.portResets = [])
    (hbits : ∀ p, ch.hasPort p → p < ch.pmNumberOfPorts) : PortsInOrder ch := by
  refine ⟨h, fun _ _ => hallocated, ?_, ?_, fun _ => hfresh, fun _ => hbits⟩
  · simp [hstate]
  · simp [hstate]

/-- The port that is being reset is the last one that was. -/
theorem PortsKnown.srstDevice (h : PortsKnown ch) (hstate : ch.channelState = .pmSrstDevice)
    (hallocated : ch.sataChannel = true) (hport : ch.devInSRST < ch.pmNumberOfPorts)
    (hreached : ∀ q ∈ ch.portResets, q ≤ ch.devInSRST) : PortsInOrder ch := by
  refine ⟨h, fun _ _ => hallocated, ?_, fun _ => ⟨hport, hreached⟩, ?_, ?_⟩
  · simp [hstate]
  · simp [hstate]
  · simp [hstate]

/-- A channel that is stopped reads no register. -/
theorem mvStopChannel_reading (h : ch.pmRegAccessInProgress = true → ch.sataChannel = true) :
    (mvStopChannel ch).pmRegAccessInProgress = false := by
  have hidle : ¬ ch.sataChannel = true → ch.pmRegAccessInProgress = false := by
    intro hnone
    rw [Bool.eq_false_iff]
    exact fun hreading => hnone (h hreading)
  obtain ⟨threshold, value, hstate⟩ :=
    @mvSetChannelState_of_ne (setDrivesNotReady (mvDrivesInfoFlushAll ch)) .notConnected (by simp)
  unfold mvStopChannel
  dsimp only
  rw [hstate]
  split_ifs with hdrives hsata hsata
  · rfl
  · exact hidle hsata
  · rfl
  · exact hidle hsata

/-- A channel that is started again reads no register. -/
theorem mvRestartChannel_reading (h : ch.pmRegAccessInProgress = true → ch.sataChannel = true) :
    (mvRestartChannel ch).pmRegAccessInProgress = false := by
  unfold mvRestartChannel
  dsimp only
  split_ifs with hsata
  · rfl
  · rw [Bool.eq_false_iff]
    exact fun hreading => hsata (h hreading)

theorem mvStopChannel_portsInOrder (h : PortsKnown ch) : PortsInOrder (mvStopChannel ch) := by
  have hreading := mvStopChannel_reading h.reading
  obtain ⟨threshold, value, reading, hstop⟩ := mvStopChannel_eq ch
  rw [hstop] at hreading ⊢
  refine PortsKnown.notConnected ⟨?_, h.number, h.increasing⟩ rfl rfl
  intro hread
  rw [hreading] at hread
  cases hread

theorem mvRestartChannel_portsInOrder (h : PortsKnown ch) : PortsInOrder (mvRestartChannel ch) := by
  have hreading := mvRestartChannel_reading h.reading
  obtain ⟨reading, hrestart⟩ := mvRestartChannel_eq ch
  rw [hrestart] at hreading ⊢
  refine PortsKnown.inState ⟨?_, h.number, h.increasing⟩ (Or.inl rfl) fun hnot => absurd rfl hnot
  intro hread
  rw [hreading] at hread
  cases hread

theorem finishChannel_portsInOrder (h : PortsKnown ch) (hstate : ch.channelState ≠ .ready)
    (hallocated : ch.sataChannel = true) : PortsInOrder (finishChannel hw ch) := by
  unfold finishChannel
  split_ifs
  · rw [mvSetChannelState_ready hstate]
    exact PortsKnown.inState ⟨fun _ => hallocated, h.number, h.increasing⟩ (Or.inr (Or.inl rfl))
      fun _ => hallocated
  · exact mvStopChannel_portsInOrder h

theorem mvDecrementChannelTimer_ports (ch : IalChannel) :
    (mvDecrementChannelTimer ch).pmNumberOfPorts = ch.pmNumberOfPorts ∧
      (mvDecrementChannelTimer ch).portResets = ch.portResets ∧
      (mvDecrementChannelTimer ch).devInSRST = ch.devInSRST := by
  unfold mvDecrementChannelTimer
  split_ifs
  · exact ⟨rfl, rfl, rfl⟩
  · exact ⟨rfl, rfl, rfl⟩

theorem mvChannelSRSTFinished_ports (hw : ChannelHardware) (ch : IalChannel) :
    (mvChannelSRSTFinished hw ch).2.pmNumberOfPorts = ch.pmNumberOfPorts ∧
      (mvChannelSRSTFinished hw ch).2.portResets = ch.portResets := by
  rcases mvChannelSRSTFinished_cases hw ch with h | h | h | ⟨-, h⟩
  · rw [h]
    exact ⟨rfl, rfl⟩
  · rw [h]
    exact ⟨rfl, rfl⟩
  · rw [h]
    exact ⟨rfl, rfl⟩
  · rw [h]
    unfold initDisk
    dsimp only
    split_ifs
    · exact ⟨rfl, rfl⟩
    · exact ⟨rfl, rfl⟩

/-- The ports of a port multiplier become known. -/
theorem mvPMEstablishSataComm_ports (hspin : SpinUpBelow hw) (hnumber : ch.pmNumberOfPorts ≤ 15) :
    (mvPMEstablishSataComm hw ch).2.pmNumberOfPorts ≤ 15 ∧
      (mvPMEstablishSataComm hw ch).2.portResets = ch.portResets ∧
      ((mvPMEstablishSataComm hw ch).1 = true → ∀ p, (mvPMEstablishSataComm hw ch).2.hasPort p →
        p < (mvPMEstablishSataComm hw ch).2.pmNumberOfPorts) := by
  unfold mvPMEstablishSataComm mvConfigurePMDevice
  cases hports : hw.pmPorts with
  | none => exact ⟨hnumber, rfl, fun hfalse => (by cases hfalse)⟩
  | some number =>
    have hle : (number : ℕ) ≤ 15 := by omega
    dsimp only
    by_cases hcomm : hw.commStatusChange false = true
    · rw [if_neg (not_not.mpr hcomm)]
      cases hw.asyncNotify with
      | none => exact ⟨hle, rfl, fun hfalse => (by cases hfalse)⟩
      | some enabled =>
        dsimp only
        rw [if_neg (by simp)]
        cases hspinUp : hw.spinUp with
        | none => exact ⟨hle, rfl, fun hfalse => (by cases hfalse)⟩
        | some ports =>
          refine ⟨hle, rfl, fun _ p hp => ?_⟩
          exact hspin number hports ports hspinUp p hp
    · rw [if_pos hcomm]
      exact ⟨hle, rfl, fun hfalse => (by cases hfalse)⟩

theorem mvChannelConnectedStateHandler_portsInOrder (h : PortsKnown ch) :
    PortsInOrder (mvChannelConnectedStateHandler hw ch) := by
  unfold mvChannelConnectedStateHandler
  by_cases hinit : ¬ ch.sataChannel = true ∧ ¬ hw.initChannel = true
  · rw [if_pos hinit]
    obtain ⟨threshold, value, hset⟩ :=
      @mvSetChannelState_of_ne (mvDrivesInfoFlushAll { ch with sataChannel := false }) .notConnected
      (by simp)
    rw [hset]
    refine PortsKnown.notConnected ⟨?_, h.number, h.increasing⟩ rfl rfl
    intro hreading
    exact absurd (h.reading hreading) hinit.1
  · rw [if_neg hinit]
    obtain ⟨res, hstart⟩ := mvStartChannelInit_eq hw { ch with sataChannel := true }
    have hknown : PortsKnown { ch with sataChannel := true, portResets := [] } :=
      ⟨fun _ => rfl, h.number, List.Pairwise.nil⟩
    rw [hstart]
    dsimp only
    split_ifs with hres hready
    · exact hready.elim
    · obtain ⟨threshold, value, hset⟩ :=
        @mvSetChannelState_of_ne
          (mvSetChannelTimer { ch with sataChannel := true, portResets := [] } srstTimeout) .inSrst
          (by simp)
      rw [hset]
      exact PortsKnown.inSrst ⟨fun _ => rfl, h.number, List.Pairwise.nil⟩ rfl rfl rfl
    · exact mvStopChannel_portsInOrder hknown

theorem mvChannelInSrstStateHandler_portsInOrder (h : PortsInOrder ch)
    (hstate : ch.channelState = .inSrst) (hspin : SpinUpBelow hw) :
    PortsInOrder (mvChannelInSrstStateHandler hw ch).2 := by
  have hsata : ch.sataChannel = true := h.allocated (by rw [hstate]; simp) (by rw [hstate]; simp)
  have houter := (mvChannelSRSTFinished_outer hw (mvDecrementChannelTimer ch)).trans
    (mvDecrementChannelTimer_keeps ch).outer
  obtain ⟨hnumber, hresets, -⟩ := mvDecrementChannelTimer_ports ch
  obtain ⟨hnumber', hresets'⟩ := mvChannelSRSTFinished_ports hw (mvDecrementChannelTimer ch)
  rw [hnumber] at hnumber'
  rw [hresets, h.fresh (Or.inl hstate)] at hresets'
  unfold mvChannelInSrstStateHandler
  generalize mvChannelSRSTFinished hw (mvDecrementChannelTimer ch) = result
    at houter hnumber' hresets' ⊢
  obtain ⟨outcome, ch₁⟩ := result
  dsimp only at houter hnumber' hresets' ⊢
  have hstate₁ : ch₁.channelState = .inSrst := (congrArg Outer.channelState houter).trans hstate
  have hsata₁ : ch₁.sataChannel = true := (congrArg Outer.sataChannel houter).trans hsata
  have hnumber₁ : ch₁.pmNumberOfPorts ≤ 15 := hnumber' ▸ h.number
  have hknown : PortsKnown ch₁ := by
    refine ⟨fun _ => hsata₁, hnumber₁, ?_⟩
    rw [hresets']
    exact List.Pairwise.nil
  cases outcome with
  | busy =>
    dsimp only
    split_ifs
    · exact mvStopChannel_portsInOrder hknown
    · exact hknown.inSrst hstate₁ hsata₁ hresets'
  | fatalError => exact mvStopChannel_portsInOrder hknown
  | diskReady => exact finishChannel_portsInOrder hknown (by rw [hstate₁]; simp) hsata₁
  | pmFound =>
    obtain ⟨hle, hsame, hbits⟩ := mvPMEstablishSataComm_ports hspin hnumber₁
    have houter' := (mvPMEstablishSataComm_keeps hw ch₁).outer
    rw [hresets'] at hsame
    generalize mvPMEstablishSataComm hw ch₁ = result at hle hsame hbits houter' ⊢
    obtain ⟨established, ch₂⟩ := result
    dsimp only at hle hsame hbits houter' ⊢
    have hsata₂ : ch₂.sataChannel = true := (congrArg Outer.sataChannel houter').trans hsata₁
    have hincreasing : ch₂.portResets.Pairwise (· < ·) := by
      rw [hsame]
      exact List.Pairwise.nil
    cases established with
    | false => exact mvStopChannel_portsInOrder ⟨fun _ => hsata₂, hle, hincreasing⟩
    | true =>
      obtain ⟨threshold, value, hset⟩ := @mvSetChannelState_of_ne ch₂ .pmStaggeredSpinUp (by simp)
      rw [if_neg (by simp)]
      dsimp only
      rw [hset]
      exact PortsKnown.spinUp ⟨fun _ => hsata₂, hle, hincreasing⟩ rfl hsata₂ hsame (hbits rfl)

/-- The loops over the ports do not look for a device that was connected again. -/
theorem nextPort_not_reconnected (hw : ChannelHardware) (giveUp : ℕ → Bool) (ch : IalChannel) :
    (nextPort hw giveUp ch).1 ≠ .reconnected := by
  have hdone : portsDone hw ≠ .reconnected := by
    unfold portsDone
    split_ifs
    · simp
    · simp
  unfold nextPort
  by_cases hnone : ch.pmDevsToInit = 0
  · rw [if_pos hnone]
    exact hdone
  · rw [if_neg hnone]
    dsimp only
    cases (resetNextPort hw giveUp (portsFrom ch) ch).1 with
    | failed => simp
    | started => simp
    | exhausted =>
      dsimp only
      split_ifs
      · exact hdone
      · simp

theorem mvChannelPMStaggeredSpinUpStateHandler_portsInOrder (h : PortsInOrder ch)
    (hstate : ch.channelState = .pmStaggeredSpinUp) :
    PortsInOrder (mvChannelPMStaggeredSpinUpStateHandler hw ch) := by
  have hsata : ch.sataChannel = true := h.allocated (by rw [hstate]; simp) (by rw [hstate]; simp)
  have houter := (mvPMCheckForConnectedDevices_keeps hw ch).outer
  obtain ⟨hinOrder, hport⟩ := @mvPMCheckForConnectedDevices_inOrder hw _ h.number
    (h.fresh (Or.inr hstate)) (h.bits hstate)
  have hnumber := (mvPMCheckForConnectedDevices_port hw h.number).2
  unfold mvChannelPMStaggeredSpinUpStateHandler
  have hnoReconnect : (mvPMCheckForConnectedDevices hw ch).1 ≠ .reconnected := by
    unfold mvPMCheckForConnectedDevices
    dsimp only
    split_ifs
    · exact nextPort_not_reconnected hw _ _
    · simp
  generalize mvPMCheckForConnectedDevices hw ch = result
    at houter hinOrder hport hnumber hnoReconnect ⊢
  obtain ⟨outcome, ch₁⟩ := result
  dsimp only at houter hinOrder hport hnumber hnoReconnect ⊢
  have hstate₁ : ch₁.channelState = .pmStaggeredSpinUp :=
    (congrArg Outer.channelState houter).trans hstate
  have hsata₁ : ch₁.sataChannel = true := (congrArg Outer.sataChannel houter).trans hsata
  have hknown : PortsKnown ch₁ := ⟨fun _ => hsata₁, hnumber ▸ h.number, hinOrder.increasing⟩
  cases outcome with
  | failed pmErrorDetected => exact mvStopChannel_portsInOrder hknown
  | reconnected => exact absurd rfl hnoReconnect
  | channelReady => exact finishChannel_portsInOrder hknown (by rw [hstate₁]; simp) hsata₁
  | inProgress =>
    obtain ⟨threshold, value, hset⟩ :=
      @mvSetChannelState_of_ne (mvSetChannelTimer ch₁ srstTimeout) .pmSrstDevice (by simp)
    dsimp only
    rw [hset]
    have hdev : ch₁.devInSRST < ch₁.pmNumberOfPorts := by
      rw [hnumber]
      exact hport rfl
    exact PortsKnown.srstDevice ⟨fun _ => hsata₁, hknown.number, hknown.increasing⟩ rfl hsata₁
      hdev hinOrder.reached

theorem mvChannelPMSrstDeviceStateHandler_portsInOrder (h : PortsInOrder ch)
    (hstate : ch.channelState = .pmSrstDevice) :
    PortsInOrder (mvChannelPMSrstDeviceStateHandler hw ch) := by
  have hsata : ch.sataChannel = true := h.allocated (by rw [hstate]; simp) (by rw [hstate]; simp)
  have houter := (mvInitPMDevice_outer hw (mvDecrementChannelTimer ch)).trans
    (mvDecrementChannelTimer_keeps ch).outer
  obtain ⟨htimer, hresets, hdev⟩ := mvDecrementChannelTimer_ports ch
  have hbefore : InOrder (mvDecrementChannelTimer ch) := by
    constructor
    · rw [hresets]
      exact h.increasing
    · rw [hresets, hdev]
      exact (h.port hstate).2
  have hinOrder := @mvInitPMDevice_inOrder hw _ hbefore
  obtain ⟨hnext, hnumber⟩ := mvInitPMDevice_port hw (mvDecrementChannelTimer ch)
  rw [htimer] at hnext hnumber
  have hport : (mvInitPMDevice hw (mvDecrementChannelTimer ch)).2.devInSRST <
    ch.pmNumberOfPorts := by
    rcases hnext with hnext | hnext
    · rw [hnext, hdev]
      exact (h.port hstate).1
    · exact hnext
  clear hnext
  unfold mvChannelPMSrstDeviceStateHandler
  generalize mvInitPMDevice hw (mvDecrementChannelTimer ch) = result
    at houter hinOrder hport hnumber ⊢
  obtain ⟨outcome, ch₁⟩ := result
  dsimp only at houter hinOrder hport hnumber ⊢
  have hstate₁ : ch₁.channelState = .pmSrstDevice :=
    (congrArg Outer.channelState houter).trans hstate
  have hsata₁ : ch₁.sataChannel = true := (congrArg Outer.sataChannel houter).trans hsata
  have hknown : PortsKnown ch₁ := ⟨fun _ => hsata₁, hnumber ▸ h.number, hinOrder.increasing⟩
  have hfinish : PortsInOrder (finishChannel hw ch₁) :=
    finishChannel_portsInOrder hknown (by rw [hstate₁]; simp) hsata₁
  have hstays : PortsInOrder ch₁ :=
    hknown.srstDevice hstate₁ hsata₁ (hnumber ▸ hport) hinOrder.reached
  cases outcome with
  | failed pmErrorDetected =>
    dsimp only
    split_ifs
    · exact hfinish
    · exact mvStopChannel_portsInOrder hknown
    · exact hstays
  | reconnected => exact mvRestartChannel_portsInOrder hknown
  | channelReady => exact hfinish
  | inProgress => exact ⟨⟨hstays.reading, hstays.number, hstays.increasing⟩, hstays.allocated,
      hstays.released, hstays.port, hstays.fresh, hstays.bits⟩

/-- One turn of the loop keeps the ports in order. -/
theorem channelHandler_portsInOrder (h : PortsInOrder ch) (hspin : SpinUpBelow hw) :
    PortsInOrder (channelHandler hw ch).2 := by
  unfold channelHandler
  cases hstate : ch.channelState with
  | notConnected =>
    dsimp only
    unfold mvChannelNotConnectedStateHandler
    rw [if_neg (by rw [h.released hstate]; simp)]
    exact h
  | connected => exact mvChannelConnectedStateHandler_portsInOrder h.toPortsKnown
  | inSrst => exact mvChannelInSrstStateHandler_portsInOrder h hstate hspin
  | pmStaggeredSpinUp => exact mvChannelPMStaggeredSpinUpStateHandler_portsInOrder h hstate
  | pmSrstDevice => exact mvChannelPMSrstDeviceStateHandler_portsInOrder h hstate
  | ready =>
    have hsata : ch.sataChannel = true := h.allocated (by rw [hstate]; simp) (by rw [hstate]; simp)
    have hready : ∀ counter reading, PortsInOrder { ch with
        pmRegPollCounter := counter, pmRegAccessInProgress := reading } := fun _ _ =>
      PortsKnown.inState ⟨fun _ => hsata, h.number, h.increasing⟩ (Or.inr (Or.inl hstate))
        fun _ => hsata
    dsimp only
    unfold mvChannelReadyStateHandler
    dsimp only
    split_ifs
    · exact hready _ _
    · exact hready _ _
    · exact h
  | pmHotPlug =>
    exact @mvRestartChannel_portsInOrder (flushDma ch)
      ⟨fun hfalse => (by cases hfalse), h.number, h.increasing⟩

/-- A tick keeps the ports in order. -/
theorem mvChannelStateMachine_portsInOrder {fuel : ℕ} (h : PortsInOrder ch) (hspin : SpinUpBelow hw)
    (hmachine : mvChannelStateMachine hw fuel ch = some ch') : PortsInOrder ch' := by
  refine mvChannelStateMachine_turns (P := PortsInOrder) (Q := PortsInOrder) ?_ h hmachine
  intro ch h
  have hturn := channelHandler_portsInOrder h hspin
  exact ⟨hturn, fun _ => hturn⟩

/-- No channel has a structure before the adapter is ready. -/
structure PortsOfAdapter (s : AdapterState) (ch : IalChannel) : Prop extends PortsInOrder ch where
  unallocated : s = .initializing → ch.sataChannel = false

theorem mvPMCommandCompletionCB_portsInOrder (h : PortsInOrder ch) (value : BitVec 32)
    (hread : ch.pmRegAccessInProgress = true) :
    PortsInOrder (mvPMCommandCompletionCB ch value) := by
  obtain ⟨devs, threshold, time, heq⟩ | heq := mvPMCommandCompletionCB_cases ch value
  · rw [heq]
    exact PortsKnown.inState ⟨fun hfalse => (by cases hfalse), h.number, h.increasing⟩
      (Or.inr (Or.inr rfl)) fun _ => h.reading hread
  · rw [heq]
    exact ⟨⟨fun hfalse => (by cases hfalse), h.number, h.increasing⟩, h.allocated, h.released,
      h.port, h.fresh, h.bits⟩

theorem startChannel_portsInOrder {connected : Bool} (h : PortsInOrder ch)
    (hreleased : ch.sataChannel = false) (hspin : SpinUpBelow hw)
    (hstart : startChannel hw connected ch = some ch') : PortsInOrder ch' := by
  unfold startChannel at hstart
  dsimp only at hstart
  split_ifs at hstart
  · refine mvChannelStateMachine_portsInOrder ?_ hspin hstart
    obtain ⟨threshold, value, hset⟩ :=
      @mvSetChannelState_of_ne (mvFlushSCSICommandQueue ch) .connected (by simp)
    rw [hset]
    exact PortsKnown.inState ⟨h.reading, h.number, h.increasing⟩ (Or.inl rfl)
      fun hnot => absurd rfl hnot
  · obtain rfl := Option.some.inj hstart
    obtain ⟨threshold, value, hset⟩ :=
      @mvSetChannelState_of_ne (mvFlushSCSICommandQueue ch) .notConnected (by simp)
    rw [hset]
    exact PortsKnown.notConnected ⟨h.reading, h.number, h.increasing⟩ rfl hreleased

theorem mvRestartChannel_sataChannel (ch : IalChannel) :
    (mvRestartChannel ch).sataChannel = ch.sataChannel := by
  obtain ⟨reading, hrestart⟩ := mvRestartChannel_eq ch
  rw [hrestart]

/-- Every step keeps the ports in order. -/
theorem channelStep_portsOfAdapter (h : PortsOfAdapter s ch)
    (hstep : ChannelStep (fun _ _ hw => SpinUpBelow hw) s ch s' ch') : PortsOfAdapter s' ch' := by
  have hidle := h.toPortsInOrder.toPortsKnown
  cases hstep with
  | idle hsame =>
    refine ⟨h.toPortsInOrder, fun hinit => h.unallocated ?_⟩
    rcases hsame with hsame | hsame
    · exact hsame.symm.trans hinit
    · rw [hsame] at hinit
      cases hinit
  | queue pScb hwait =>
    exact ⟨⟨⟨h.reading, h.number, h.increasing⟩, h.allocated, h.released, h.port, h.fresh, h.bits⟩,
      h.unallocated⟩
  | restart =>
    refine ⟨mvRestartChannel_portsInOrder hidle, ?_⟩
    rw [mvRestartChannel_sataChannel]
    exact h.unallocated
  | stop =>
    have hstop := mvStopChannel_portsInOrder hidle
    obtain ⟨threshold, value, reading, heq⟩ := mvStopChannel_eq ch
    refine ⟨hstop, fun _ => ?_⟩
    rw [heq]
  | hotPlug =>
    unfold mvPMHotPlugDetected
    split_ifs
    · exact h
    · refine ⟨mvRestartChannel_portsInOrder ⟨fun hfalse => (by cases hfalse), h.number,
        h.increasing⟩, ?_⟩
      rw [mvRestartChannel_sataChannel]
      exact h.unallocated
  | pmRegister value hread =>
    refine ⟨mvPMCommandCompletionCB_portsInOrder h.toPortsInOrder value hread, fun hinit => ?_⟩
    have hnone := h.unallocated hinit
    rw [h.reading hread] at hnone
    cases hnone
  | start hw connected hok hstart =>
    exact ⟨startChannel_portsInOrder h.toPortsInOrder (h.unallocated rfl) hok hstart,
      fun hnot => by cases hnot⟩
  | tick hw hok htick =>
    exact ⟨mvChannelStateMachine_portsInOrder h.toPortsInOrder hok htick, fun hnot => by cases hnot⟩

/-- The loop of `mvChannelStateMachine` ends after two turns. -/
theorem mvChannelStateMachine_isSome {fuel : ℕ} (hfuel : stateMachineTurns ≤ fuel) :
    (mvChannelStateMachine hw fuel ch).isSome = true := by
  match fuel, hfuel with
  | fuel + 2, _ =>
    simp only [mvChannelStateMachine]
    split_ifs with hfirst hsecond
    · rfl
    · rfl
    · have hstate := channelHandler_goesOn (Bool.eq_false_iff.mpr hfirst)
      refine absurd ?_ hsecond
      generalize (channelHandler hw ch).2 = ch₁ at hstate ⊢
      unfold channelHandler
      rw [hstate]

theorem initialChannel_portsOfAdapter : PortsOfAdapter .initializing initialChannel :=
  ⟨PortsKnown.notConnected ⟨fun hfalse => (by cases hfalse), Nat.zero_le 15, List.Pairwise.nil⟩ rfl
    rfl, fun _ => rfl⟩

/-- The states in which the structure of a channel is used. -/
def ChannelState.UsesStructure (state : ChannelState) : Prop :=
  state = .inSrst ∨ state = .pmStaggeredSpinUp ∨ state = .pmSrstDevice ∨ state = .pmHotPlug ∨
    state = .ready

/-- The bring-up of every channel along every run in which the staggered spin-up reports ports of
the port multiplier only: the structure is allocated, the port that is being reset is one of the
port multiplier, the ports are reset in order, and every tick ends. -/
theorem run_portsInOrder {trace : List (IalEvent n × Option ExecuteStatus)} {a : IalAdapter n}
    (hrun : Run ialStep (TickOk fun _ _ hw => SpinUpBelow hw) (initialAdapter n) trace a)
    (c : Fin n) :
    ((a.channels c).channelState.UsesStructure → (a.channels c).sataChannel = true) ∧
      ((a.channels c).channelState = .pmSrstDevice →
        (a.channels c).devInSRST < (a.channels c).pmNumberOfPorts ∧
          (a.channels c).devInSRST ≠ pmControlPort + 1) ∧
      (a.channels c).portResets.Pairwise (· < ·) ∧
      ∀ hw ch fuel, stateMachineTurns ≤ fuel →
        (mvChannelStateMachine hw fuel ch).isSome = true := by
  have h := run_channel (P := PortsOfAdapter) initialChannel_portsOfAdapter
    (fun _ _ _ _ => channelStep_portsOfAdapter) hrun c
  refine ⟨?_, ?_, h.increasing, fun _ _ _ => mvChannelStateMachine_isSome⟩
  · intro huses
    refine h.allocated ?_ ?_
    · intro hnot
      rw [hnot] at huses
      simp [ChannelState.UsesStructure] at huses
    · intro hnot
      rw [hnot] at huses
      simp [ChannelState.UsesStructure] at huses
  · intro hstate
    have hport := (h.port hstate).1
    have hnumber := h.number
    refine ⟨hport, ?_⟩
    unfold pmControlPort
    omega

/-- A port multiplier with four ports, and disks behind the second and the fourth. -/
def pmHardware : ChannelHardware :=
  { diskHardware 1 with
    deviceType := .pm
    pmPorts := some 4
    spinUp := some 0b1010 }

/-- Both ports are reset. -/
def pmEvents : List (IalEvent 1) :=
  List.replicate 3 (.tick (oneChannel true pmHardware))

theorem pmEvents_portsInOrder :
    ∃ trace a, exec ialStep (TickOk fun _ _ hw => SpinUpBelow hw) (initialAdapter 1) pmEvents =
        some (trace, a) ∧ (a.channels 0).channelState = .pmSrstDevice ∧
      (a.channels 0).portResets = [1, 3] ∧ (a.channels 0).sataChannel = true ∧
      (a.channels 0).devInSRST < (a.channels 0).pmNumberOfPorts ∧
      (a.channels 0).portResets.Pairwise (· < ·) := by
  have hend : (exec ialStep (TickOk fun _ _ hw => SpinUpBelow hw) (initialAdapter 1) pmEvents).map
      (fun r => ((r.2.channels 0).channelState, (r.2.channels 0).portResets)) =
        some (.pmSrstDevice, [1, 3]) := by
    decide
  rw [Option.map_eq_some_iff] at hend
  obtain ⟨⟨trace, a⟩, hexec, hend⟩ := hend
  simp only [Prod.mk.injEq] at hend
  obtain ⟨hallocated, hport, hincreasing, -⟩ := run_portsInOrder (Run.of_exec _ hexec) 0
  exact ⟨trace, a, hexec, hend.1, hend.2, hallocated (Or.inr (Or.inr (Or.inl hend.1))),
    (hport hend.1).1, hincreasing⟩

end Mv88fxx81.Sata.Ial
