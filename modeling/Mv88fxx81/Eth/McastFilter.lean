import Mathlib.Data.List.Count
import Mathlib.Data.List.Induction
import Mv88fxx81.Eth.Filter
import Mv88fxx81.Lib.Run

/-!
# The multicast filter

The filter is compared with the list of the multicast addresses that have been
added and not deleted since the mode was last set. Outside promiscuous mode an
entry of a multicast table is to accept exactly when an address of the list
selects it.
-/

namespace Mv88fxx81.Eth

open TransitionSystem EthFilter

/-- An entry of the special or of the other multicast table. -/
inductive McastEntry
  | special (lastByte : BitVec 8)
  | other (crc8 : BitVec 8)
  deriving DecidableEq, Repr

/-- The entry that an address selects. -/
def mcastEntry (addr : MacAddr) : McastEntry :=
  if isSpecial addr then .special addr.a5 else .other (mvEthMcastCrc8Get addr)

/-- The entry accepts frames. -/
def entryAccepts (port : EthFilter) : McastEntry → Bool
  | .special lastByte => accepts port.specMcastTable lastByte.toNat
  | .other crc8 => accepts port.othMcastTable crc8.toNat

/-- The mode that was set last, and the addresses added since then and not deleted. -/
structure McastHistory where
  isPromisc : Bool
  members : List MacAddr
  deriving DecidableEq, Repr

/-- What a call adds to the history. A refused call adds nothing. -/
def mcastStep (cfg : PortConfig) (h : McastHistory) : FilterEvent → McastHistory
  | .rxFilterModeSet isPromisc => ⟨isPromisc, []⟩
  | .macAddrSet _ _ => h
  | .mcastAddrSet addr queue =>
    if queue ≥ rxQNum cfg.multiQueue then h
    else if queue = -1 then { h with members := h.members.erase addr }
    else { h with members := addr :: h.members }

/-- The history of a sequence of calls on a port that has been initialised. -/
def mcastHistory (cfg : PortConfig) (es : List FilterEvent) : McastHistory :=
  es.foldl (mcastStep cfg) ⟨false, []⟩

/-- The port after a sequence of calls. -/
def filterAfter (cfg : PortConfig) (port : EthFilter) (es : List FilterEvent) : EthFilter :=
  es.foldl (fun port event => (filterCall cfg port event).2) port

/-- The number of added and not deleted addresses that select an entry. -/
def McastHistory.pending (h : McastHistory) (entry : McastEntry) : ℕ :=
  h.members.countP fun addr => mcastEntry addr = entry

/-- The multicast tables accept all entries in promiscuous mode, and otherwise those that an added
and not deleted address selects. -/
def McastExact (port : EthFilter) (h : McastHistory) : Prop :=
  ∀ entry, entryAccepts port entry = true ↔
    h.isPromisc = true ∨ ∃ addr ∈ h.members, mcastEntry addr = entry

/-- The calls that the filter is made for. An address of the other table is added while its entry
has been added fewer than 255 times, where promiscuous mode counts once, and deleted when it
has been added since the mode was set, or when there is nothing to delete. An address of the
special table is deleted outside promiscuous mode, and only when it has been added at most
once. -/
def McastClean (cfg : PortConfig) (h : McastHistory) : FilterEvent → Prop
  | .mcastAddrSet addr queue =>
    queue ≥ rxQNum cfg.multiQueue ∨
      (0 ≤ queue ∧
        (isSpecial addr = true ∨ h.pending (mcastEntry addr) + h.isPromisc.toNat < 255)) ∨
      (queue = -1 ∧ isSpecial addr = true ∧ h.isPromisc = false ∧
        h.pending (mcastEntry addr) ≤ 1) ∨
      (queue = -1 ∧ isSpecial addr = false ∧
        (addr ∈ h.members ∨ h.isPromisc = false ∧ h.pending (mcastEntry addr) = 0))
  | _ => True

/-- What a run keeps beside the tables: the mode of the port, and the counts of the other table. -/
structure McastKept (port : EthFilter) (h : McastHistory) : Prop where
  mode : port.promiscuous = h.isPromisc
  count : ∀ crc8, (port.mcastCount crc8).toNat = h.pending (.other crc8) + h.isPromisc.toNat
  accept : ∀ entry, entryAccepts port entry = true ↔ h.isPromisc = true ∨ 0 < h.pending entry

variable {cfg : PortConfig} {port : EthFilter} {addr : MacAddr} {queue : ℤ} {event : FilterEvent}
  {h : McastHistory} {entry : McastEntry}

theorem McastHistory.pending_pos_iff :
    0 < h.pending entry ↔ ∃ addr ∈ h.members, mcastEntry addr = entry := by
  unfold McastHistory.pending
  rw [List.countP_pos_iff]
  simp

theorem McastKept.exact (hkept : McastKept port h) : McastExact port h := by
  intro entry
  rw [hkept.accept, McastHistory.pending_pos_iff]

/-- Adding an address. -/
theorem McastHistory.pending_add :
    McastHistory.pending { h with members := addr :: h.members } entry =
      h.pending entry + if mcastEntry addr = entry then 1 else 0 := by
  unfold McastHistory.pending
  rw [List.countP_cons]
  simp

/-- Deleting an address. -/
theorem McastHistory.pending_delete :
    McastHistory.pending { h with members := h.members.erase addr } entry =
      h.pending entry - if addr ∈ h.members ∧ mcastEntry addr = entry then 1 else 0 := by
  unfold McastHistory.pending
  by_cases hmem : addr ∈ h.members
  · rw [List.countP_erase]
    simp [hmem]
  · rw [List.erase_of_not_mem hmem]
    simp [hmem]

/-- A mode change writes both multicast tables and all counts. -/
theorem mcastKept_mode (isPromisc : Bool) :
    McastKept (port.mvEthRxFilterModeSet cfg isPromisc) ⟨isPromisc, []⟩ := by
  have hdefault : cfg.rxDefQ ≠ -1 := by
    have := cfg.rxDefQ_nonneg
    omega
  have hbyte : ∀ byte : BitVec 8, byte.toNat < 4 * 64 := fun byte => byte.isLt
  constructor
  · exact promiscuous_mode isPromisc
  · intro crc8
    cases isPromisc <;> rfl
  · intro entry
    cases isPromisc with
    | true =>
      have haccept : entryAccepts (port.mvEthRxFilterModeSet cfg true) entry = true := by
        cases entry with
        | special lastByte =>
          change accepts (setTable 64 port.specMcastTable cfg.rxDefQ) lastByte.toNat = true
          rw [accepts_setTable (hbyte lastByte)]
          simpa using hdefault
        | other crc8 =>
          change accepts (setTable 64 port.othMcastTable cfg.rxDefQ) crc8.toNat = true
          rw [accepts_setTable (hbyte crc8)]
          simpa using hdefault
      simp [haccept]
    | false =>
      have hreject : entryAccepts (port.mvEthRxFilterModeSet cfg false) entry = false := by
        cases entry with
        | special lastByte =>
          change accepts (setTable 64 port.specMcastTable (-1)) lastByte.toNat = false
          rw [accepts_setTable (hbyte lastByte)]
          rfl
        | other crc8 =>
          change accepts (setTable 64 port.othMcastTable (-1)) crc8.toNat = false
          rw [accepts_setTable (hbyte crc8)]
          rfl
      simp [hreject, McastHistory.pending]

/-- Setting an address of the special table decides about its own entry only. -/
theorem entryAccepts_special {lastByte : BitVec 8} (hlow : -1 ≤ queue) (hlt : queue < 8) :
    entryAccepts
        { port with specMcastTable := ethSetSpecialMcastAddr port.specMcastTable lastByte queue }
        entry =
      if entry = .special lastByte then decide (queue ≠ -1) else entryAccepts port entry := by
  cases entry with
  | special byte =>
    change accepts (setAddr port.specMcastTable lastByte.toNat queue) byte.toNat = _
    rw [accepts_setAddr hlow hlt]
    simp only [McastEntry.special.injEq, BitVec.toNat_inj]
    rfl
  | other crc8 => simp [entryAccepts]

/-- Setting an entry of the other table decides about this entry only. -/
theorem entryAccepts_other (port : EthFilter) (crc : BitVec 8) (entry : McastEntry)
    (hlow : -1 ≤ queue) (hlt : queue < 8) :
    entryAccepts
        { port with othMcastTable := ethSetOtherMcastAddr port.othMcastTable crc queue } entry =
      if entry = .other crc then decide (queue ≠ -1) else entryAccepts port entry := by
  cases entry with
  | special byte => simp [entryAccepts]
  | other crc8 =>
    change accepts (setAddr port.othMcastTable crc.toNat queue) crc8.toNat = _
    rw [accepts_setAddr hlow hlt]
    simp only [McastEntry.other.injEq, BitVec.toNat_inj]
    rfl

/-- The special table has one address for each entry. -/
theorem eq_of_special {b : MacAddr} (hspecial : isSpecial addr = true)
    (hentry : mcastEntry b = mcastEntry addr) : b = addr := by
  unfold mcastEntry at hentry
  rw [if_pos hspecial] at hentry
  by_cases hb : isSpecial b = true
  · rw [if_pos hb, McastEntry.special.injEq] at hentry
    simp only [isSpecial, Bool.and_eq_true, beq_iff_eq] at hspecial hb
    obtain ⟨⟨⟨⟨h0, h1⟩, h2⟩, h3⟩, h4⟩ := hspecial
    obtain ⟨⟨⟨⟨g0, g1⟩, g2⟩, g3⟩, g4⟩ := hb
    cases addr
    cases b
    simp_all
  · rw [if_neg hb] at hentry
    cases hentry

/-- An address of the special table is added. -/
theorem McastKept.addSpecial (hkept : McastKept port h) (hspecial : isSpecial addr = true)
    (hnonneg : 0 ≤ queue) (hlt : queue < 8) :
    McastKept
      { port with specMcastTable := ethSetSpecialMcastAddr port.specMcastTable addr.a5 queue }
      { h with members := addr :: h.members } := by
  have hentry : mcastEntry addr = .special addr.a5 := if_pos hspecial
  constructor
  · exact hkept.mode
  · intro crc8
    rw [McastHistory.pending_add, hentry]
    simpa using hkept.count crc8
  · intro entry
    rw [entryAccepts_special (by omega) hlt, McastHistory.pending_add, hentry]
    by_cases hself : entry = .special addr.a5
    · have hne : queue ≠ -1 := by omega
      simp [hself, hne]
    · simpa [hself, Ne.symm hself] using hkept.accept entry

/-- An address of the special table that has been added at most once is deleted. -/
theorem McastKept.deleteSpecial (hkept : McastKept port h) (hspecial : isSpecial addr = true)
    (hmode : h.isPromisc = false) (honce : h.pending (mcastEntry addr) ≤ 1) :
    McastKept
      { port with specMcastTable := ethSetSpecialMcastAddr port.specMcastTable addr.a5 (-1) }
      { h with members := h.members.erase addr } := by
  have hentry : mcastEntry addr = .special addr.a5 := if_pos hspecial
  constructor
  · exact hkept.mode
  · intro crc8
    rw [McastHistory.pending_delete, hentry]
    simpa using hkept.count crc8
  · intro entry
    rw [entryAccepts_special (by omega) (by omega), McastHistory.pending_delete, hentry]
    by_cases hself : entry = .special addr.a5
    · have hnone : addr ∉ h.members → h.pending (.special addr.a5) = 0 := by
        intro hmem
        by_contra hsome
        obtain ⟨b, hb, hsame⟩ := McastHistory.pending_pos_iff.mp (Nat.pos_of_ne_zero hsome)
        rw [← hentry] at hsame
        exact hmem (eq_of_special hspecial hsame ▸ hb)
      have hgone : h.pending (.special addr.a5) ≤ if addr ∈ h.members then 1 else 0 := by
        rw [hentry] at honce
        by_cases hmem : addr ∈ h.members
        · rwa [if_pos hmem]
        · rw [if_neg hmem, hnone hmem]
      subst hself
      simpa [hmode] using hgone
    · simpa [hself, Ne.symm hself] using hkept.accept entry

/-- The count of an entry of the other table after an address has been added. -/
theorem toNat_count_succ {crc : BitVec 8} (hkept : McastKept port h)
    (hroom : h.pending (.other crc) + h.isPromisc.toNat < 255) :
    (port.mcastCount crc + 1).toNat = h.pending (.other crc) + h.isPromisc.toNat + 1 := by
  rw [BitVec.toNat_add, hkept.count]
  exact Nat.mod_eq_of_lt (by change _ + 1 < 256; omega)

/-- The counts after one has been overwritten. -/
theorem toNat_update_count {crc value : BitVec 8} (crc8 : BitVec 8) :
    (Function.update port.mcastCount crc value crc8).toNat =
      if McastEntry.other crc = .other crc8 then value.toNat else (port.mcastCount crc8).toNat := by
  by_cases hself : crc8 = crc
  · subst hself
    simp
  · simp [hself, Ne.symm hself]

/-- An address of the other table is added. -/
theorem McastKept.addOther (hkept : McastKept port h) (hother : isSpecial addr = false)
    (hnonneg : 0 ≤ queue) (hlt : queue < rxQNum cfg.multiQueue)
    (hroom : h.pending (mcastEntry addr) + h.isPromisc.toNat < 255) :
    McastKept (port.mvEthMcastAddrSet cfg addr queue).2
      { h with members := addr :: h.members } := by
  have hentry : mcastEntry addr = .other (mvEthMcastCrc8Get addr) := by
    simp [mcastEntry, hother]
  rw [hentry] at hroom
  have hset : ¬ queue ≥ rxQNum cfg.multiQueue := not_le.mpr hlt
  have hne : queue ≠ -1 := by omega
  have hlt8 : queue < 8 := lt_of_lt_of_le hlt (rxQNum_le _)
  have hsucc := toNat_count_succ hkept hroom
  have hcount : ∀ crc8, (Function.update port.mcastCount (mvEthMcastCrc8Get addr)
      (port.mcastCount (mvEthMcastCrc8Get addr) + 1) crc8).toNat =
        McastHistory.pending { h with members := addr :: h.members } (.other crc8) +
          h.isPromisc.toNat := by
    intro crc8
    rw [toNat_update_count, McastHistory.pending_add, hentry]
    by_cases hself : McastEntry.other (mvEthMcastCrc8Get addr) = .other crc8
    · rw [if_pos hself, if_pos hself, hsucc, hself]
      omega
    · rw [if_neg hself, if_neg hself, hkept.count]
      omega
  simp only [mvEthMcastAddrSet, if_neg hset, hother, Bool.false_eq_true, if_false, if_neg hne]
  split_ifs with hmany
  · -- the entry has been counted before, and accepts already
    have hbefore : 0 < h.pending (.other (mvEthMcastCrc8Get addr)) + h.isPromisc.toNat := by
      have hmany' := BitVec.lt_def.mp hmany
      rw [hsucc] at hmany'
      simpa using hmany'
    refine ⟨hkept.mode, hcount, fun entry => ?_⟩
    change entryAccepts port entry = true ↔ _
    rw [hkept.accept, McastHistory.pending_add, hentry]
    by_cases hself : entry = .other (mvEthMcastCrc8Get addr)
    · subst hself
      cases hmode : h.isPromisc with
      | true => simp
      | false =>
        rw [hmode] at hbefore
        simpa using hbefore
    · simp [Ne.symm hself]
  · refine ⟨hkept.mode, hcount, fun entry => ?_⟩
    have haccept := entryAccepts_other port (mvEthMcastCrc8Get addr) entry
      (by omega : -1 ≤ queue) hlt8
    change entryAccepts { port with othMcastTable := _ } entry = true ↔ _
    rw [haccept, McastHistory.pending_add, hentry]
    by_cases hself : entry = .other (mvEthMcastCrc8Get addr)
    · simp [hself, hne]
    · simpa [hself, Ne.symm hself] using hkept.accept entry

/-- An address of the other table is deleted. -/
theorem McastKept.deleteOther (hkept : McastKept port h) (hother : isSpecial addr = false)
    (hmatch : addr ∈ h.members ∨ h.isPromisc = false ∧ h.pending (mcastEntry addr) = 0) :
    McastKept (port.mvEthMcastAddrSet cfg addr (-1)).2
      { h with members := h.members.erase addr } := by
  have hentry : mcastEntry addr = .other (mvEthMcastCrc8Get addr) := by
    simp [mcastEntry, hother]
  have hset : ¬ (-1 : ℤ) ≥ rxQNum cfg.multiQueue := by
    cases cfg.multiQueue <;> decide
  have hcrc := hkept.count (mvEthMcastCrc8Get addr)
  simp only [mvEthMcastAddrSet, if_neg hset, hother, Bool.false_eq_true, if_false, if_true]
  by_cases hzero : port.mcastCount (mvEthMcastCrc8Get addr) = 0
  · -- nothing is counted, so nothing is in the list
    have hnotMem : addr ∉ h.members := by
      intro hmem
      have hpos := McastHistory.pending_pos_iff.mpr ⟨addr, hmem, hentry⟩
      rw [hzero] at hcrc
      have hsum : 0 = h.pending (.other (mvEthMcastCrc8Get addr)) + h.isPromisc.toNat := hcrc
      omega
    rw [if_pos hzero, List.erase_of_not_mem hnotMem]
    exact hkept
  · have hnat : (port.mcastCount (mvEthMcastCrc8Get addr)).toNat ≠ 0 :=
      fun h0 => hzero (BitVec.eq_of_toNat_eq h0)
    have hmem : addr ∈ h.members := by
      rcases hmatch with hmem | ⟨hmode, hnone⟩
      · exact hmem
      · rw [hentry] at hnone
        rw [hcrc, hmode, hnone] at hnat
        exact absurd rfl hnat
    have hpos := McastHistory.pending_pos_iff.mpr ⟨addr, hmem, hentry⟩
    have hpred : (port.mcastCount (mvEthMcastCrc8Get addr) - 1).toNat =
        h.pending (.other (mvEthMcastCrc8Get addr)) - 1 + h.isPromisc.toNat := by
      have hlt := (port.mcastCount (mvEthMcastCrc8Get addr)).isLt
      have hone : (1 : BitVec 8).toNat = 1 := rfl
      rw [BitVec.toNat_sub, hone]
      omega
    have hcount : ∀ crc8, (Function.update port.mcastCount (mvEthMcastCrc8Get addr)
        (port.mcastCount (mvEthMcastCrc8Get addr) - 1) crc8).toNat =
          McastHistory.pending { h with members := h.members.erase addr } (.other crc8) +
            h.isPromisc.toNat := by
      intro crc8
      rw [toNat_update_count, McastHistory.pending_delete, hentry]
      by_cases hself : McastEntry.other (mvEthMcastCrc8Get addr) = .other crc8
      · rw [if_pos hself, if_pos ⟨hmem, hself⟩, hpred, hself]
      · rw [if_neg hself, if_neg fun hboth => hself hboth.2, hkept.count]
        rfl
    rw [if_neg hzero]
    split_ifs with hmore
    · -- more than this address is counted, and the entry goes on accepting
      have hleft : 0 < h.pending (.other (mvEthMcastCrc8Get addr)) - 1 + h.isPromisc.toNat := by
        rw [← hpred]
        exact Nat.pos_of_ne_zero fun h0 => hmore (BitVec.eq_of_toNat_eq h0)
      refine ⟨hkept.mode, hcount, fun entry => ?_⟩
      change entryAccepts port entry = true ↔ _
      rw [hkept.accept, McastHistory.pending_delete, hentry]
      by_cases hself : entry = .other (mvEthMcastCrc8Get addr)
      · subst hself
        cases hmode : h.isPromisc with
        | true => simp
        | false =>
          rw [hmode] at hleft
          simp only [Bool.toNat_false, Nat.add_zero] at hleft
          simp [hmem, hleft, hpos]
      · simp [Ne.symm hself]
    · have hlast : h.pending (.other (mvEthMcastCrc8Get addr)) - 1 + h.isPromisc.toNat = 0 := by
        rw [← hpred, not_not.mp hmore]
        rfl
      have hmode : h.isPromisc = false := by
        cases hmode : h.isPromisc with
        | true => simp [hmode] at hlast
        | false => rfl
      refine ⟨hkept.mode, hcount, fun entry => ?_⟩
      have haccept := entryAccepts_other port (mvEthMcastCrc8Get addr) entry
        (le_refl (-1 : ℤ)) (by decide)
      change entryAccepts { port with othMcastTable := _ } entry = true ↔ _
      rw [haccept, McastHistory.pending_delete, hentry]
      by_cases hself : entry = .other (mvEthMcastCrc8Get addr)
      · subst hself
        simp only [hmem, hmode]
        simp
        omega
      · simpa [hself, Ne.symm hself] using hkept.accept entry

/-- One call that meets its condition. -/
theorem McastKept.call (hkept : McastKept port h) (hclean : McastClean cfg h event) :
    McastKept (filterCall cfg port event).2 (mcastStep cfg h event) := by
  cases event with
  | rxFilterModeSet isPromisc => exact mcastKept_mode isPromisc
  | macAddrSet addr queue =>
    change McastKept (port.mvEthMacAddrSet cfg addr queue).2 h
    by_cases hrefused : queue ≥ rxQNum cfg.multiQueue
    · simp only [mvEthMacAddrSet, if_pos hrefused]
      exact hkept
    · simp only [mvEthMacAddrSet, if_neg hrefused]
      refine ⟨hkept.mode, hkept.count, fun entry => ?_⟩
      cases entry with
      | special lastByte => exact hkept.accept (.special lastByte)
      | other crc8 => exact hkept.accept (.other crc8)
  | mcastAddrSet addr queue =>
    by_cases hrefused : queue ≥ rxQNum cfg.multiQueue
    · simp only [filterCall, mvEthMcastAddrSet, mcastStep, if_pos hrefused]
      exact hkept
    · have hlt : queue < rxQNum cfg.multiQueue := not_le.mp hrefused
      have hlt8 : queue < 8 := lt_of_lt_of_le hlt (rxQNum_le _)
      rcases hclean.resolve_left hrefused with ⟨hnonneg, hroom⟩ |
        ⟨rfl, hspecial, hmode, honce⟩ | ⟨rfl, hother, hmatch⟩
      · have hne : queue ≠ -1 := by omega
        simp only [mcastStep, if_neg hrefused, if_neg hne]
        cases hspecial : isSpecial addr with
        | true =>
          simp only [filterCall, mvEthMcastAddrSet, if_neg hrefused, hspecial, if_true]
          exact hkept.addSpecial hspecial hnonneg hlt8
        | false =>
          refine hkept.addOther hspecial hnonneg hlt (hroom.resolve_left ?_)
          simp [hspecial]
      · simp only [mcastStep, if_neg hrefused, if_true, filterCall, mvEthMcastAddrSet, hspecial]
        exact hkept.deleteSpecial hspecial hmode honce
      · simp only [mcastStep, if_neg hrefused, if_true]
        exact hkept.deleteOther hother hmatch

/-- The multicast filter of a port that has been initialised. -/
theorem mcastKept_defaults (regs : EthFilter) (macAddr : MacAddr) :
    McastKept (mvEthDefaultsSet cfg regs macAddr) ⟨false, []⟩ := by
  have hset : ¬ cfg.rxDefQ ≥ rxQNum cfg.multiQueue := not_le.mpr cfg.rxDefQ_lt
  have hbyte : ∀ byte : BitVec 8, byte.toNat < 4 * 64 := fun byte => byte.isLt
  refine ⟨?_, ?_, ?_⟩
  · unfold mvEthDefaultsSet
    dsimp only
    rw [promiscuous_macAddrSet]
    simp [promiscuous]
  · intro crc8
    simp [mvEthDefaultsSet, mvEthMacAddrSet, if_neg hset, McastHistory.pending]
  · intro entry
    have hreject : entryAccepts (mvEthDefaultsSet cfg regs macAddr) entry = false := by
      simp only [mvEthDefaultsSet, mvEthMacAddrSet, if_neg hset]
      cases entry with
      | special lastByte => exact accepts_setTable (hbyte lastByte)
      | other crc8 => exact accepts_setTable (hbyte crc8)
    simp [hreject, McastHistory.pending]

/-- The multicast filter. After every sequence of calls that each meet their condition, on a port
that has been initialised, an entry of the multicast tables accepts exactly when the port is in
promiscuous mode or an address that selects it has been added and not deleted since the mode
was set. -/
theorem filterRun_mcast {es : List FilterEvent} (regs : EthFilter) (macAddr : MacAddr)
    (hclean : Throughout (fun past event => McastClean cfg (mcastHistory cfg past) event) es) :
    (filterAfter cfg (mvEthDefaultsSet cfg regs macAddr) es).promiscuous =
        (mcastHistory cfg es).isPromisc ∧
      McastExact (filterAfter cfg (mvEthDefaultsSet cfg regs macAddr) es)
        (mcastHistory cfg es) := by
  have hkept : McastKept (filterAfter cfg (mvEthDefaultsSet cfg regs macAddr) es)
      (mcastHistory cfg es) := by
    induction es using List.reverseRecOn with
    | nil => exact mcastKept_defaults regs macAddr
    | append_singleton es event ih =>
      obtain ⟨hclean, hlast⟩ := throughout_concat.mp hclean
      have hafter : filterAfter cfg (mvEthDefaultsSet cfg regs macAddr) (es ++ [event]) =
          (filterCall cfg (filterAfter cfg (mvEthDefaultsSet cfg regs macAddr) es) event).2 := by
        simp [filterAfter]
      have hhistory : mcastHistory cfg (es ++ [event]) =
          mcastStep cfg (mcastHistory cfg es) event := by
        simp [mcastHistory]
      rw [hafter, hhistory]
      exact (ih hclean).call hlast
  exact ⟨hkept.mode, hkept.exact⟩

/-- Two addresses of the other table are added and one of them is deleted. -/
theorem filterRun_mcast_three_calls :
    entryAccepts (filterAfter oneQueue (mvEthDefaultsSet oneQueue zeroRegs
        ⟨0x00, 0x50, 0x43, 0, 0, 1⟩)
      [.mcastAddrSet ⟨0x33, 0x33, 0, 0, 0, 1⟩ 0, .mcastAddrSet ⟨0x33, 0x33, 0, 0, 0, 2⟩ 0,
        .mcastAddrSet ⟨0x33, 0x33, 0, 0, 0, 1⟩ (-1)])
      (mcastEntry ⟨0x33, 0x33, 0, 0, 0, 2⟩) = true := by
  have hclean : Throughout
      (fun past event => McastClean oneQueue (mcastHistory oneQueue past) event)
      [.mcastAddrSet ⟨0x33, 0x33, 0, 0, 0, 1⟩ 0, .mcastAddrSet ⟨0x33, 0x33, 0, 0, 0, 2⟩ 0,
        .mcastAddrSet ⟨0x33, 0x33, 0, 0, 0, 1⟩ (-1)] := by
    refine throughout_concat.mpr ⟨throughout_concat.mpr ⟨throughout_concat.mpr
      ⟨throughout_nil, ?_⟩, ?_⟩, ?_⟩
    · exact Or.inr (Or.inl ⟨by decide, Or.inr (by decide)⟩)
    · exact Or.inr (Or.inl ⟨by decide, Or.inr (by decide)⟩)
    · exact Or.inr (Or.inr (Or.inr ⟨rfl, by decide, Or.inl (by decide)⟩))
  have hexact := (filterRun_mcast zeroRegs ⟨0x00, 0x50, 0x43, 0, 0, 1⟩ hclean).2
  exact (hexact _).mpr (Or.inr ⟨⟨0x33, 0x33, 0, 0, 0, 2⟩, by decide, rfl⟩)

/-- The number of times that an address has been added, less the times it has been deleted. -/
def unmatched (cfg : PortConfig) (addr : MacAddr) (es : List FilterEvent) : ℤ :=
  (es.map fun
    | .mcastAddrSet b queue =>
      if b ≠ addr ∨ queue ≥ rxQNum cfg.multiQueue then 0 else if queue = -1 then -1 else 1
    | _ => (0 : ℤ)).sum

/-- Each delete matches an earlier add. -/
def DeletesMatched (cfg : PortConfig) (es : List FilterEvent) : Prop :=
  Throughout (fun past event => ∀ addr, event = .mcastAddrSet addr (-1) →
    0 < unmatched cfg addr past) es

/-- Two calls that delete nothing and a delete of what they have added. -/
theorem deletesMatched_last {cfg : PortConfig} {e₁ e₂ : FilterEvent} {addr : MacAddr}
    (h₁ : ∀ b, e₁ ≠ .mcastAddrSet b (-1)) (h₂ : ∀ b, e₂ ≠ .mcastAddrSet b (-1))
    (hlast : 0 < unmatched cfg addr [e₁, e₂]) :
    DeletesMatched cfg [e₁, e₂, .mcastAddrSet addr (-1)] := by
  refine throughout_concat.mpr ⟨throughout_concat.mpr ⟨throughout_concat.mpr
    ⟨throughout_nil, ?_⟩, ?_⟩, ?_⟩
  · exact fun b hb => absurd hb (h₁ b)
  · exact fun b hb => absurd hb (h₂ b)
  · intro b hb
    rw [← (FilterEvent.mcastAddrSet.inj hb).1]
    exact hlast

/-- The multicast filter rejects what it is to accept, with each delete matching an earlier add: a
special address that has been added twice and deleted once; in promiscuous mode, a special
address that has been added and deleted; and an address that has been added before promiscuous
mode was set and deleted after it. -/
theorem filterRun_mcast_rejects :
    (DeletesMatched oneQueue [.mcastAddrSet ⟨0x01, 0x00, 0x5E, 0, 0, 1⟩ 0,
        .mcastAddrSet ⟨0x01, 0x00, 0x5E, 0, 0, 1⟩ 0,
        .mcastAddrSet ⟨0x01, 0x00, 0x5E, 0, 0, 1⟩ (-1)] ∧
      ¬ McastExact (filterAfter oneQueue
          (mvEthDefaultsSet oneQueue zeroRegs ⟨0x00, 0x50, 0x43, 0, 0, 1⟩)
          [.mcastAddrSet ⟨0x01, 0x00, 0x5E, 0, 0, 1⟩ 0,
            .mcastAddrSet ⟨0x01, 0x00, 0x5E, 0, 0, 1⟩ 0,
            .mcastAddrSet ⟨0x01, 0x00, 0x5E, 0, 0, 1⟩ (-1)])
        (mcastHistory oneQueue [.mcastAddrSet ⟨0x01, 0x00, 0x5E, 0, 0, 1⟩ 0,
          .mcastAddrSet ⟨0x01, 0x00, 0x5E, 0, 0, 1⟩ 0,
          .mcastAddrSet ⟨0x01, 0x00, 0x5E, 0, 0, 1⟩ (-1)])) ∧
    (DeletesMatched oneQueue [.rxFilterModeSet true, .mcastAddrSet ⟨0x01, 0x00, 0x5E, 0, 0, 1⟩ 0,
        .mcastAddrSet ⟨0x01, 0x00, 0x5E, 0, 0, 1⟩ (-1)] ∧
      ¬ McastExact (filterAfter oneQueue
          (mvEthDefaultsSet oneQueue zeroRegs ⟨0x00, 0x50, 0x43, 0, 0, 1⟩)
          [.rxFilterModeSet true, .mcastAddrSet ⟨0x01, 0x00, 0x5E, 0, 0, 1⟩ 0,
            .mcastAddrSet ⟨0x01, 0x00, 0x5E, 0, 0, 1⟩ (-1)])
        (mcastHistory oneQueue [.rxFilterModeSet true,
          .mcastAddrSet ⟨0x01, 0x00, 0x5E, 0, 0, 1⟩ 0,
          .mcastAddrSet ⟨0x01, 0x00, 0x5E, 0, 0, 1⟩ (-1)])) ∧
    (DeletesMatched oneQueue [.mcastAddrSet ⟨0x33, 0x33, 0, 0, 0, 1⟩ 0, .rxFilterModeSet true,
        .mcastAddrSet ⟨0x33, 0x33, 0, 0, 0, 1⟩ (-1)] ∧
      ¬ McastExact (filterAfter oneQueue
          (mvEthDefaultsSet oneQueue zeroRegs ⟨0x00, 0x50, 0x43, 0, 0, 1⟩)
          [.mcastAddrSet ⟨0x33, 0x33, 0, 0, 0, 1⟩ 0, .rxFilterModeSet true,
            .mcastAddrSet ⟨0x33, 0x33, 0, 0, 0, 1⟩ (-1)])
        (mcastHistory oneQueue [.mcastAddrSet ⟨0x33, 0x33, 0, 0, 0, 1⟩ 0, .rxFilterModeSet true,
          .mcastAddrSet ⟨0x33, 0x33, 0, 0, 0, 1⟩ (-1)])) := by
  refine ⟨⟨?_, fun hexact => ?_⟩, ⟨?_, fun hexact => ?_⟩, ?_, fun hexact => ?_⟩
  · exact deletesMatched_last (fun _ => nofun) (fun _ => nofun) (by decide)
  · have hentry := (hexact (.special 1)).mpr (Or.inr ⟨⟨0x01, 0x00, 0x5E, 0, 0, 1⟩, by decide, rfl⟩)
    revert hentry
    decide
  · exact deletesMatched_last (fun _ => nofun) (fun _ => nofun) (by decide)
  · have hentry := (hexact (.special 1)).mpr (Or.inl rfl)
    revert hentry
    decide
  · exact deletesMatched_last (fun _ => nofun) (fun _ => nofun) (by decide)
  · have hentry := (hexact (mcastEntry ⟨0x33, 0x33, 0, 0, 0, 1⟩)).mpr (Or.inl rfl)
    revert hentry
    decide

end Mv88fxx81.Eth
