import Mv88fxx81.Eth.TxPolicy

/-!
# The transmit policy as a finite map

The entries in use are slots that stand for a finite map. The searches read the slots only, so what
stands in an entry that is not in use never matters. An allocation that fails takes the header of
the entry that it was for away; where that entry is not in use or has no header, the call has
changed nothing that a later call can see.
-/

namespace Mv88fxx81.Eth

open SlotTable

variable {s t : EthTxPolicy} {m : PolicyMap} {da : BitVec 48} {arg : TxPolicyArg} {alloc : Bool}
  {idx n : ℕ}

/-- What an entry in use holds. -/
def TxPolicyMacda.view (entry : TxPolicyMacda) : Option (BitVec 48 × TxPolicyEntry) :=
  if entry.policy.txQ = MV_INVALID then none else some (entry.macDa, entry.policy)

/-- An entry in use. -/
theorem TxPolicyMacda.view_eq_some {entry : TxPolicyMacda} {policy : TxPolicyEntry} :
    entry.view = some (da, policy) ↔
      entry.policy.txQ ≠ MV_INVALID ∧ entry.macDa = da ∧ entry.policy = policy := by
  unfold view
  by_cases hused : entry.policy.txQ = MV_INVALID
  · rw [if_pos hused]
    constructor
    · nofun
    · rintro ⟨hne, -, -⟩
      exact absurd hused hne
  · rw [if_neg hused, Option.some_inj, Prod.mk.injEq]
    constructor
    · rintro ⟨hda, hpolicy⟩
      exact ⟨hused, hda, hpolicy⟩
    · rintro ⟨-, hda, hpolicy⟩
      exact ⟨hda, hpolicy⟩

/-- An entry that is not in use. -/
theorem TxPolicyMacda.view_eq_none {entry : TxPolicyMacda} :
    entry.view = none ↔ entry.policy.txQ = MV_INVALID := by
  unfold view
  by_cases hused : entry.policy.txQ = MV_INVALID
  · rw [if_pos hused]
    exact ⟨fun _ => hused, fun _ => rfl⟩
  · rw [if_neg hused]
    exact ⟨nofun, fun h => absurd h hused⟩

/-- A header that a caller gives is stored as it is meant. -/
theorem assign_ok {entry : TxPolicyEntry} (hok : (entry.assign arg alloc).1 = true) :
    (entry.assign arg alloc).2 = arg.meant := by
  unfold TxPolicyEntry.assign TxPolicyArg.meant at *
  cases hheader : arg.pHeader with
  | none => rfl
  | some header =>
    rw [hheader] at hok
    dsimp only at hok ⊢
    cases alloc with
    | false => cases hok
    | true =>
      rw [if_pos rfl, arg.headerSize_eq header hheader, Int.toNat_natCast, List.take_length]

/-- Storing a header fails exactly when its memory cannot be allocated. -/
theorem assign_fst (entry : TxPolicyEntry) :
    (entry.assign arg alloc).1 = true ↔ arg.pHeader = none ∨ alloc = true := by
  unfold TxPolicyEntry.assign
  cases hheader : arg.pHeader with
  | none => exact ⟨fun _ => Or.inl rfl, fun _ => rfl⟩
  | some header =>
    cases alloc with
    | false =>
      refine ⟨nofun, ?_⟩
      rintro (h | h) <;> cases h
    | true => exact ⟨fun _ => Or.inr rfl, fun _ => rfl⟩

/-- When storing a header fails, the entry has lost its own. -/
theorem assign_fail {entry : TxPolicyEntry} (hfail : (entry.assign arg alloc).1 ≠ true) :
    (entry.assign arg alloc).2 = { entry with pHeader := none } := by
  unfold TxPolicyEntry.assign at *
  cases hheader : arg.pHeader with
  | none =>
    rw [hheader] at hfail
    exact absurd rfl hfail
  | some header =>
    rw [hheader] at hfail
    cases alloc with
    | false => rfl
    | true => exact absurd rfl hfail

namespace EthTxPolicy

/-- The entries in use. -/
def slots (s : EthTxPolicy) (idx : ℕ) : Option (BitVec 48 × TxPolicyEntry) := (s.txPolDa idx).view

/-- An entry in use has the address exactly when its slot has. -/
theorem hasDa_iff : s.hasDa da idx ↔ ∃ policy, s.slots idx = some (da, policy) := by
  unfold hasDa slots
  rw [decide_eq_true_iff]
  constructor
  · rintro ⟨hused, hda⟩
    exact ⟨_, TxPolicyMacda.view_eq_some.mpr ⟨hused, hda, rfl⟩⟩
  · rintro ⟨policy, hslot⟩
    obtain ⟨hused, hda, -⟩ := TxPolicyMacda.view_eq_some.mp hslot
    exact ⟨hused, hda⟩

/-- Two policies with the same entries in use. -/
structure Similar (s t : EthTxPolicy) : Prop where
  slots : s.slots = t.slots
  maxDa : s.txPolMaxDa = t.txPolMaxDa
  txPolDef : s.txPolDef = t.txPolDef

/-- The entries in use decide whether an entry has an address. -/
theorem hasDa_congr (hslots : s.slots = t.slots) (da : BitVec 48) (idx : ℕ) :
    s.hasDa da idx = t.hasDa da idx := by
  rw [Bool.eq_iff_iff, hasDa_iff, hasDa_iff, hslots]

/-- The entries in use decide which ones are free. -/
theorem free_congr (hslots : s.slots = t.slots) (idx : ℕ) :
    (s.txPolDa idx).policy.txQ = MV_INVALID ↔ (t.txPolDa idx).policy.txQ = MV_INVALID := by
  have hslot : (s.txPolDa idx).view = (t.txPolDa idx).view := congrFun hslots idx
  rw [← TxPolicyMacda.view_eq_none, ← TxPolicyMacda.view_eq_none, hslot]

/-- The search of `mvEthTxPolicyAdd` reads the entries in use only. -/
theorem addSearch_congr (hslots : s.slots = t.slots) (da : BitVec 48) (n idx : ℕ)
    (firstEmptyIdx : Option ℕ) :
    s.addSearch da n idx firstEmptyIdx = t.addSearch da n idx firstEmptyIdx := by
  induction n generalizing idx firstEmptyIdx with
  | zero => rfl
  | succ n ih =>
    unfold addSearch
    rw [hasDa_congr hslots, ih, ih]
    simp only [free_congr hslots idx]

/-- The search for an address reads the entries in use only. -/
theorem findDa_congr (hslots : s.slots = t.slots) (da : BitVec 48) (n idx : ℕ) :
    s.findDa da n idx = t.findDa da n idx := by
  induction n generalizing idx with
  | zero => rfl
  | succ n ih =>
    unfold findDa
    rw [hasDa_congr hslots, ih]

/-- The end of the table depends on the entries in use only. -/
theorem decreaseTable_congr (hslots : s.slots = t.slots) (maxDa : ℕ) :
    s.decreaseTable maxDa = t.decreaseTable maxDa := by
  induction maxDa with
  | zero => rfl
  | succ maxDa ih =>
    unfold decreaseTable
    rw [ih]
    simp only [free_congr hslots maxDa]

/-- What the search for an address finds. -/
theorem findDa_eq_some {j : ℕ} (hfind : s.findDa da n idx = some j) :
    j < idx + n ∧ ∃ policy, s.slots j = some (da, policy) := by
  induction n generalizing idx with
  | zero => cases hfind
  | succ n ih =>
    unfold findDa at hfind
    by_cases hhas : s.hasDa da idx
    · rw [if_pos hhas] at hfind
      obtain rfl := Option.some.inj hfind
      exact ⟨by omega, hasDa_iff.mp hhas⟩
    · rw [if_neg hhas] at hfind
      obtain ⟨hj, hslot⟩ := ih hfind
      exact ⟨by omega, hslot⟩

/-- When the search for an address finds nothing, no entry in its range has it. -/
theorem findDa_eq_none (hfind : s.findDa da n idx = none) {j : ℕ} (hle : idx ≤ j)
    (hlt : j < idx + n) (policy : TxPolicyEntry) : s.slots j ≠ some (da, policy) := by
  induction n generalizing idx with
  | zero => omega
  | succ n ih =>
    unfold findDa at hfind
    by_cases hhas : s.hasDa da idx
    · rw [if_pos hhas] at hfind
      cases hfind
    · rw [if_neg hhas] at hfind
      by_cases hj : j = idx
      · intro hslot
        rw [hj] at hslot
        exact hhas (hasDa_iff.mpr ⟨policy, hslot⟩)
      · exact ih hfind (by omega) (by omega)

/-- What the search of `mvEthTxPolicyAdd` finds: an entry with the address; or, when none in its
range has it, one that is free. -/
theorem addSearch_eq_some {firstEmptyIdx : Option ℕ} {j : ℕ}
    (hsearch : s.addSearch da n idx firstEmptyIdx = some j) :
    (j < idx + n ∧ ∃ policy, s.slots j = some (da, policy)) ∨
      (∀ i, idx ≤ i → i < idx + n → ∀ policy, s.slots i ≠ some (da, policy)) ∧
        (firstEmptyIdx = some j ∨ j < idx + n ∧ s.slots j = none) := by
  induction n generalizing idx firstEmptyIdx with
  | zero =>
    right
    refine ⟨fun i hle hlt => ?_, Or.inl hsearch⟩
    omega
  | succ n ih =>
    unfold addSearch at hsearch
    by_cases hhas : s.hasDa da idx
    · rw [if_pos hhas] at hsearch
      obtain rfl := Option.some.inj hsearch
      exact Or.inl ⟨by omega, hasDa_iff.mp hhas⟩
    · rw [if_neg hhas] at hsearch
      -- the entry at hand does not have the address
      have hstep : ∀ {first : Option ℕ}, s.addSearch da n (idx + 1) first = some j →
          (j < idx + (n + 1) ∧ ∃ policy, s.slots j = some (da, policy)) ∨
            (∀ i, idx ≤ i → i < idx + (n + 1) → ∀ policy, s.slots i ≠ some (da, policy)) ∧
              (first = some j ∨ j < idx + (n + 1) ∧ s.slots j = none) := by
        intro first hsearch
        rcases ih hsearch with ⟨hj, hslot⟩ | ⟨hother, hfree⟩
        · exact Or.inl ⟨by omega, hslot⟩
        · right
          refine ⟨fun i hle hlt policy hslot => ?_, ?_⟩
          · by_cases hi : i = idx
            · rw [hi] at hslot
              exact hhas (hasDa_iff.mpr ⟨policy, hslot⟩)
            · exact hother i (by omega) (by omega) policy hslot
          · rcases hfree with hfirst | ⟨hj, hslot⟩
            · exact Or.inl hfirst
            · exact Or.inr ⟨by omega, hslot⟩
      by_cases hempty : firstEmptyIdx = none ∧ (s.txPolDa idx).policy.txQ = MV_INVALID
      · rw [if_pos hempty] at hsearch
        rcases hstep hsearch with hfound | ⟨hother, hfree⟩
        · exact Or.inl hfound
        · refine Or.inr ⟨hother, Or.inr ?_⟩
          rcases hfree with hfirst | hfree
          · obtain rfl := Option.some.inj hfirst
            exact ⟨by omega, TxPolicyMacda.view_eq_none.mpr hempty.2⟩
          · exact hfree
      · rw [if_neg hempty] at hsearch
        exact hstep hsearch

/-- When the search of `mvEthTxPolicyAdd` finds nothing, every entry in its range is in use, and
none has the address. -/
theorem addSearch_eq_none {firstEmptyIdx : Option ℕ}
    (hsearch : s.addSearch da n idx firstEmptyIdx = none) :
    firstEmptyIdx = none ∧ ∀ i, idx ≤ i → i < idx + n →
      s.slots i ≠ none ∧ ∀ policy, s.slots i ≠ some (da, policy) := by
  induction n generalizing idx firstEmptyIdx with
  | zero =>
    refine ⟨hsearch, fun i hle hlt => ?_⟩
    omega
  | succ n ih =>
    unfold addSearch at hsearch
    by_cases hhas : s.hasDa da idx
    · rw [if_pos hhas] at hsearch
      cases hsearch
    · rw [if_neg hhas] at hsearch
      by_cases hempty : firstEmptyIdx = none ∧ (s.txPolDa idx).policy.txQ = MV_INVALID
      · rw [if_pos hempty] at hsearch
        cases (ih hsearch).1
      · rw [if_neg hempty] at hsearch
        obtain ⟨hfirst, hothers⟩ := ih hsearch
        refine ⟨hfirst, fun i hle hlt => ?_⟩
        by_cases hi : i = idx
        · rw [hi]
          constructor
          · intro hslot
            exact hempty ⟨hfirst, TxPolicyMacda.view_eq_none.mp hslot⟩
          · intro policy hslot
            exact hhas (hasDa_iff.mpr ⟨policy, hslot⟩)
        · exact hothers i (by omega) (by omega)

/-- The entries in use when one is written. -/
theorem slots_update (s : EthTxPolicy) (idx maxDa : ℕ) (entry : TxPolicyMacda) :
    slots { s with txPolDa := Function.update s.txPolDa idx entry, txPolMaxDa := maxDa } =
      Function.update s.slots idx entry.view := by
  funext i
  unfold slots
  dsimp only
  by_cases hi : i = idx
  · rw [hi, Function.update_self, Function.update_self]
  · rw [Function.update_of_ne hi, Function.update_of_ne hi]

/-- An entry that has been deleted is not in use. -/
theorem view_deleted (entry : TxPolicyMacda) :
    ({ entry with policy := deleted entry.policy } : TxPolicyMacda).view = none := by
  rw [TxPolicyMacda.view_eq_none]
  unfold deleted
  dsimp only
  split <;> rfl

/-- Storing an entry over another one depends on what that one holds in use. -/
theorem view_assign_congr {x y : TxPolicyMacda} (hview : x.view = y.view) (da : BitVec 48)
    (arg : TxPolicyArg) (alloc : Bool) :
    (x.policy.assign arg alloc).1 = (y.policy.assign arg alloc).1 ∧
      (⟨da, (x.policy.assign arg alloc).2⟩ : TxPolicyMacda).view =
        (⟨da, (y.policy.assign arg alloc).2⟩ : TxPolicyMacda).view := by
  have hfst : (x.policy.assign arg alloc).1 = (y.policy.assign arg alloc).1 := by
    rw [Bool.eq_iff_iff, assign_fst, assign_fst]
  refine ⟨hfst, ?_⟩
  by_cases hok : (x.policy.assign arg alloc).1 = true
  · rw [assign_ok hok, assign_ok (hfst ▸ hok)]
  · rw [assign_fail hok, assign_fail (hfst ▸ hok)]
    cases hx : x.view with
    | none =>
      have hfree : ∀ z : TxPolicyMacda, z.view = none →
          (⟨da, { z.policy with pHeader := none }⟩ : TxPolicyMacda).view = none := by
        intro z hz
        rw [TxPolicyMacda.view_eq_none] at hz ⊢
        exact hz
      rw [hfree x hx, hfree y (hview ▸ hx)]
    | some slot =>
      have hxpolicy := (TxPolicyMacda.view_eq_some.mp hx).2.2
      have hypolicy := (TxPolicyMacda.view_eq_some.mp (hview ▸ hx)).2.2
      rw [hxpolicy, hypolicy]

/-- A call answers the same for policies with the same entries in use, and leaves the same entries
in use. -/
theorem Similar.call (hsimilar : Similar s t) (call : TxPolicyCall) :
    (txPolicyCall s call).1 = (txPolicyCall t call).1 ∧
      Similar (txPolicyCall s call).2 (txPolicyCall t call).2 := by
  cases call with
  | add da arg alloc htxQ =>
    unfold txPolicyCall mvEthTxPolicyAdd
    dsimp only
    rw [addSearch_congr hsimilar.slots]
    cases hsearch : t.addSearch da MV_ETH_TX_POLICY_MAX_MACDA 0 none with
    | none => exact ⟨rfl, hsimilar⟩
    | some idx =>
      obtain ⟨hfst, hview⟩ := view_assign_congr (congrFun hsimilar.slots idx) da arg alloc
      dsimp only
      rw [hfst, hsimilar.maxDa]
      by_cases hok : ((t.txPolDa idx).policy.assign arg alloc).1 = true
      · rw [if_pos hok, if_pos hok]
        refine ⟨rfl, ?_, rfl, hsimilar.txPolDef⟩
        rw [slots_update, slots_update, hsimilar.slots, hview]
      · rw [if_neg hok, if_neg hok]
        refine ⟨rfl, ?_, rfl, hsimilar.txPolDef⟩
        rw [slots_update, slots_update, hsimilar.slots, hview]
  | del da =>
    unfold txPolicyCall mvEthTxPolicyDel
    dsimp only
    rw [hsimilar.maxDa, findDa_congr hsimilar.slots]
    cases hfind : t.findDa da t.txPolMaxDa 0 with
    | none => exact ⟨rfl, hsimilar⟩
    | some idx =>
      dsimp only
      have hslots : ∀ maxDa maxDa', EthTxPolicy.slots { s with
            txPolDa := Function.update s.txPolDa idx
              { s.txPolDa idx with policy := deleted (s.txPolDa idx).policy }
            txPolMaxDa := maxDa } =
          EthTxPolicy.slots { t with
            txPolDa := Function.update t.txPolDa idx
              { t.txPolDa idx with policy := deleted (t.txPolDa idx).policy }
            txPolMaxDa := maxDa' } := by
        intro maxDa maxDa'
        rw [slots_update, slots_update, hsimilar.slots, view_deleted, view_deleted]
      exact ⟨rfl, hslots _ _, decreaseTable_congr (hslots _ _) _, hsimilar.txPolDef⟩
  | setDef arg alloc =>
    unfold txPolicyCall mvEthTxPolicyDef
    dsimp only
    rw [hsimilar.txPolDef]
    exact ⟨rfl, hsimilar.slots, hsimilar.maxDa, rfl⟩

/-- A lookup answers the same for policies with the same entries in use. -/
theorem Similar.get (hsimilar : Similar s t) (da : BitVec 48) :
    s.mvEthDATxPolicyGet da = t.mvEthDATxPolicyGet da := by
  unfold mvEthDATxPolicyGet
  rw [hsimilar.maxDa, findDa_congr hsimilar.slots]
  cases hfind : t.findDa da t.txPolMaxDa 0 with
  | none => exact hsimilar.txPolDef
  | some idx =>
    obtain ⟨-, policy, hslot⟩ := findDa_eq_some hfind
    have hslot' : s.slots idx = some (da, policy) := by rw [hsimilar.slots, hslot]
    dsimp only
    rw [(TxPolicyMacda.view_eq_some.mp hslot).2.2, (TxPolicyMacda.view_eq_some.mp hslot').2.2]

/-- Policies with the same entries in use have them behind any calls. -/
theorem Similar.calls (hsimilar : Similar s t) (calls : List TxPolicyCall) :
    Similar (txPolicyCalls s calls) (txPolicyCalls t calls) := by
  induction calls generalizing s t with
  | nil => exact hsimilar
  | cons call calls ih => exact ih (hsimilar.call call).2

/-- The policy stands for a map: its entries in use do, none is in use from the end of the table
on, and the default is that of the map, once one has been set. -/
structure Refines (s : EthTxPolicy) (m : PolicyMap) : Prop where
  represents : Represents s.slots MV_ETH_TX_POLICY_MAX_MACDA m.entries
  above : ∀ i, s.txPolMaxDa ≤ i → i < MV_ETH_TX_POLICY_MAX_MACDA → s.slots i = none
  maxDa_le : s.txPolMaxDa ≤ MV_ETH_TX_POLICY_MAX_MACDA
  default_eq : ∀ entry, m.default = some entry → s.txPolDef = entry
  unset : m.default = none → s.txPolDef.pHeader = none

/-- A policy with the same entries in use stands for the same map. -/
theorem Refines.similar (hrefines : Refines s m) (hsimilar : Similar t s) : Refines t m := by
  obtain ⟨hslots, hmaxDa, hdef⟩ := hsimilar
  refine ⟨?_, ?_, ?_, ?_, ?_⟩
  · rw [hslots]
    exact hrefines.represents
  · rw [hslots, hmaxDa]
    exact hrefines.above
  · rw [hmaxDa]
    exact hrefines.maxDa_le
  · rw [hdef]
    exact hrefines.default_eq
  · rw [hdef]
    exact hrefines.unset

/-- A lookup answers the entry of the map, or the default. -/
theorem Refines.get (hrefines : Refines s m) (da : BitVec 48) :
    s.mvEthDATxPolicyGet da = (m.entries da).getD s.txPolDef := by
  unfold mvEthDATxPolicyGet
  cases hfind : s.findDa da s.txPolMaxDa 0 with
  | none =>
    have habsent : m.entries da = none := by
      apply hrefines.represents.eq_none
      intro i hi policy
      by_cases hlt : i < s.txPolMaxDa
      · exact findDa_eq_none hfind (Nat.zero_le i) (by omega) policy
      · rw [hrefines.above i (by omega) hi]
        nofun
    rw [habsent, Option.getD_none]
  | some idx =>
    obtain ⟨hlt, policy, hslot⟩ := findDa_eq_some hfind
    have hle := hrefines.maxDa_le
    rw [hrefines.represents.of_slot (by omega) hslot, Option.getD_some]
    exact (TxPolicyMacda.view_eq_some.mp hslot).2.2

/-- Every lookup is right in a policy that stands for the map. -/
theorem Refines.lookups (hrefines : Refines s m) : LookupsRight m s := by
  intro da entry hlookup
  rw [hrefines.get]
  unfold PolicyMap.lookup at hlookup
  cases hda : m.entries da with
  | none =>
    rw [hda, Option.none_or] at hlookup
    exact hrefines.default_eq entry hlookup
  | some entry' =>
    rw [hda, Option.some_or] at hlookup
    exact Option.some.inj hlookup

/-- An entry is written for an address. -/
theorem Refines.write (hrefines : Refines s m) {entry : TxPolicyMacda} {policy : TxPolicyEntry}
    {maxDa : ℕ} (hidx : idx < MV_ETH_TX_POLICY_MAX_MACDA)
    (hslot : (s.slots idx = none ∧ m.entries da = none) ∨ ∃ old, s.slots idx = some (da, old))
    (hview : entry.view = some (da, policy)) (hlt : idx < maxDa) (hle : s.txPolMaxDa ≤ maxDa)
    (hmax : maxDa ≤ MV_ETH_TX_POLICY_MAX_MACDA) :
    Refines { s with txPolDa := Function.update s.txPolDa idx entry, txPolMaxDa := maxDa }
      { m with entries := Function.update m.entries da (some policy) } := by
  refine ⟨?_, ?_, hmax, hrefines.default_eq, hrefines.unset⟩
  · rw [slots_update, hview]
    exact hrefines.represents.insert hidx hslot
  · intro i hi hi'
    rw [slots_update, Function.update_of_ne (by dsimp only at hi; omega)]
    exact hrefines.above i (le_trans hle hi) hi'

/-- What the search of `mvEthTxPolicyAdd` finds in a policy that stands for a map. -/
theorem Refines.addSearch (hrefines : Refines s m)
    (hsearch : s.addSearch da MV_ETH_TX_POLICY_MAX_MACDA 0 none = some idx) :
    idx < MV_ETH_TX_POLICY_MAX_MACDA ∧
      ((s.slots idx = none ∧ m.entries da = none) ∨
        ∃ policy, s.slots idx = some (da, policy) ∧ m.entries da = some policy) := by
  rcases addSearch_eq_some hsearch with ⟨hidx, policy, hslot⟩ | ⟨hother, hfree⟩
  · rw [Nat.zero_add] at hidx
    exact ⟨hidx, Or.inr ⟨policy, hslot, hrefines.represents.of_slot hidx hslot⟩⟩
  · rcases hfree with hnone | ⟨hidx, hslot⟩
    · cases hnone
    · rw [Nat.zero_add] at hidx
      refine ⟨hidx, Or.inl ⟨hslot, ?_⟩⟩
      apply hrefines.represents.eq_none
      intro i hi policy
      exact hother i (Nat.zero_le i) (by omega) policy

/-- The entries behind the new end of the table are free. -/
theorem decreaseTable_spec (s : EthTxPolicy) (maxDa : ℕ) :
    s.decreaseTable maxDa ≤ maxDa ∧
      ∀ i, s.decreaseTable maxDa ≤ i → i < maxDa → s.slots i = none := by
  induction maxDa with
  | zero => exact ⟨Nat.le_refl _, fun i _ hi => absurd hi (Nat.not_lt_zero i)⟩
  | succ maxDa ih =>
    unfold decreaseTable
    by_cases hfree : (s.txPolDa maxDa).policy.txQ = MV_INVALID
    · rw [if_pos hfree]
      refine ⟨by omega, fun i hle hlt => ?_⟩
      by_cases hi : i = maxDa
      · rw [hi]
        exact TxPolicyMacda.view_eq_none.mpr hfree
      · exact ih.2 i hle (by omega)
    · rw [if_neg hfree]
      refine ⟨Nat.le_refl _, fun i hle hlt => ?_⟩
      omega

/-- Adding an address that is stored keeps to the map. -/
theorem Refines.add_ok (hrefines : Refines s m) (htxQ : 0 ≤ arg.txQ)
    (hsearch : s.addSearch da MV_ETH_TX_POLICY_MAX_MACDA 0 none = some idx)
    (hok : ((s.txPolDa idx).policy.assign arg alloc).1 = true) :
    Refines (s.mvEthTxPolicyAdd da arg alloc).2
      { m with entries := Function.update m.entries da (some arg.meant) } := by
  obtain ⟨hidx, hslot⟩ := hrefines.addSearch hsearch
  have hview : (⟨da, arg.meant⟩ : TxPolicyMacda).view = some (da, arg.meant) := by
    have hmeant : arg.meant.txQ = arg.txQ := by
      unfold TxPolicyArg.meant
      split <;> rfl
    rw [TxPolicyMacda.view_eq_some]
    refine ⟨?_, rfl, rfl⟩
    dsimp only
    rw [hmeant]
    unfold MV_INVALID
    omega
  have hle := hrefines.maxDa_le
  unfold mvEthTxPolicyAdd
  rw [hsearch]
  dsimp only
  rw [if_pos hok, assign_ok hok]
  refine hrefines.write hidx ?_ hview ?_ ?_ ?_
  · rcases hslot with hslot | ⟨policy, hslot, -⟩
    · exact Or.inl hslot
    · exact Or.inr ⟨policy, hslot⟩
  · split <;> omega
  · split <;> omega
  · split <;> omega

/-- A failing allocation for an address that is absent, or has no header, leaves the entries in
use. -/
theorem Refines.add_fail_similar (hrefines : Refines s m)
    (hsearch : s.addSearch da MV_ETH_TX_POLICY_MAX_MACDA 0 none = some idx)
    (hfail : ((s.txPolDa idx).policy.assign arg alloc).1 ≠ true)
    (hsound : ∀ policy, m.entries da = some policy → policy.pHeader = none) :
    Similar (s.mvEthTxPolicyAdd da arg alloc).2 s := by
  obtain ⟨-, hslot⟩ := hrefines.addSearch hsearch
  unfold mvEthTxPolicyAdd
  rw [hsearch]
  dsimp only
  rw [if_neg hfail, assign_fail hfail]
  refine ⟨?_, rfl, rfl⟩
  rw [slots_update]
  apply Function.update_eq_self_iff.mpr
  rcases hslot with ⟨hslot, -⟩ | ⟨policy, hslot, hda⟩
  · have hfree := TxPolicyMacda.view_eq_none.mp hslot
    rw [hslot, TxPolicyMacda.view_eq_none]
    exact hfree
  · obtain ⟨hused, -, hpolicy⟩ := TxPolicyMacda.view_eq_some.mp hslot
    rw [hslot, TxPolicyMacda.view_eq_some]
    refine ⟨hused, rfl, ?_⟩
    dsimp only
    rw [hpolicy, ← hsound policy hda]

/-- A failing allocation for an address with a header takes that header away. -/
theorem Refines.add_fail_get (hrefines : Refines s m) {policy : TxPolicyEntry}
    (hsearch : s.addSearch da MV_ETH_TX_POLICY_MAX_MACDA 0 none = some idx)
    (hfail : ((s.txPolDa idx).policy.assign arg alloc).1 ≠ true)
    (hda : m.entries da = some policy) :
    (s.mvEthTxPolicyAdd da arg alloc).2.mvEthDATxPolicyGet da =
      { policy with pHeader := none } := by
  obtain ⟨hidx, hslot⟩ := hrefines.addSearch hsearch
  rcases hslot with ⟨-, hnone⟩ | ⟨policy', hslot, hda'⟩
  · rw [hda] at hnone
    cases hnone
  · obtain rfl : policy' = policy := Option.some.inj (hda'.symm.trans hda)
    obtain ⟨hused, -, hpolicy⟩ := TxPolicyMacda.view_eq_some.mp hslot
    have hview : (⟨da, { (s.txPolDa idx).policy with pHeader := none }⟩ : TxPolicyMacda).view =
        some (da, { policy' with pHeader := none }) := by
      rw [TxPolicyMacda.view_eq_some]
      refine ⟨hused, rfl, ?_⟩
      dsimp only
      rw [hpolicy]
    have hlt : idx < s.txPolMaxDa := by
      by_contra hnot
      rw [hrefines.above idx (by omega) hidx] at hslot
      cases hslot
    have hwrite := hrefines.write hidx (Or.inr ⟨_, hslot⟩) hview hlt (Nat.le_refl _)
      hrefines.maxDa_le
    unfold mvEthTxPolicyAdd
    rw [hsearch]
    dsimp only
    rw [if_neg hfail, assign_fail hfail]
    refine (hwrite.get da).trans ?_
    dsimp only
    rw [Function.update_self, Option.getD_some]

/-- Deleting an address keeps to the map. -/
theorem Refines.del (hrefines : Refines s m) (hfind : s.findDa da s.txPolMaxDa 0 = some idx) :
    Refines (s.mvEthTxPolicyDel da).2 { m with entries := Function.update m.entries da none } := by
  obtain ⟨hlt, policy, hslot⟩ := findDa_eq_some hfind
  have hle := hrefines.maxDa_le
  rw [Nat.zero_add] at hlt
  unfold mvEthTxPolicyDel
  rw [hfind]
  dsimp only
  generalize hmaxDa : (if idx + 1 = s.txPolMaxDa then s.txPolMaxDa - 1 else s.txPolMaxDa) = maxDa
  have hmaxDa_le : maxDa ≤ s.txPolMaxDa := by
    rw [← hmaxDa]
    split <;> omega
  have hslots : ∀ maxDa, EthTxPolicy.slots { s with
      txPolDa := Function.update s.txPolDa idx
        { s.txPolDa idx with policy := deleted (s.txPolDa idx).policy }
      txPolMaxDa := maxDa } = Function.update s.slots idx none := by
    intro maxDa
    rw [slots_update, view_deleted]
  obtain ⟨hdecrease_le, hdecrease⟩ := decreaseTable_spec { s with
      txPolDa := Function.update s.txPolDa idx
        { s.txPolDa idx with policy := deleted (s.txPolDa idx).policy } } maxDa
  refine ⟨?_, ?_, ?_, hrefines.default_eq, hrefines.unset⟩
  · rw [hslots]
    exact hrefines.represents.erase (by omega) hslot
  · intro i hi hi'
    by_cases hbelow : i < maxDa
    · rw [hslots, ← hslots s.txPolMaxDa]
      exact hdecrease i hi hbelow
    · rw [hslots]
      by_cases hsame : i = idx
      · rw [hsame, Function.update_self]
      · rw [Function.update_of_ne hsame]
        apply hrefines.above i _ hi'
        by_cases hlast : idx + 1 = s.txPolMaxDa
        · rw [if_pos hlast] at hmaxDa
          omega
        · rw [if_neg hlast] at hmaxDa
          omega
  · exact le_trans hdecrease_le (le_trans hmaxDa_le hle)

/-- There are more addresses than entries. -/
theorem macEntries_lt_card : MV_ETH_TX_POLICY_MAX_MACDA < Nat.card (BitVec 48) := by
  have hcard : Nat.card (BitVec 48) = 2 ^ 48 := by
    have hfin : BitVec 48 ≃ Fin (2 ^ 48) :=
      ⟨BitVec.toFin, BitVec.ofFin, fun _ => rfl, fun _ => rfl⟩
    rw [Nat.card_congr hfin, Nat.card_fin]
  rw [hcard]
  decide

/-- An address with an entry in use is one that the map has. -/
theorem Refines.hasDa (hrefines : Refines s m) (hidx : idx < MV_ETH_TX_POLICY_MAX_MACDA)
    (hhas : s.hasDa da idx) : m.entries da = some (s.txPolDa idx).policy := by
  obtain ⟨policy, hslot⟩ := hasDa_iff.mp hhas
  rw [hrefines.represents.of_slot hidx hslot, (TxPolicyMacda.view_eq_some.mp hslot).2.2]

/-- The entry that is about to be overwritten has no header. -/
theorem Refines.no_header (hrefines : Refines s m) {policy : TxPolicyEntry}
    (hsound : ∀ idx < MV_ETH_TX_POLICY_MAX_MACDA, s.hasDa da idx →
      (s.txPolDa idx).policy.pHeader = none) (hda : m.entries da = some policy) :
    policy.pHeader = none := by
  obtain ⟨i, hi, hslot⟩ := (hrefines.represents.lookup da policy).mp hda
  rw [← (TxPolicyMacda.view_eq_some.mp hslot).2.2]
  exact hsound i hi (hasDa_iff.mpr ⟨policy, hslot⟩)

/-- What a call answers is right. -/
theorem Refines.status (hrefines : Refines s m) (call : TxPolicyCall) :
    StatusRight m call (txPolicyCall s call).1 := by
  cases call with
  | add da arg alloc htxQ =>
    unfold StatusRight txPolicyCall mvEthTxPolicyAdd
    dsimp only
    cases hsearch : s.addSearch da MV_ETH_TX_POLICY_MAX_MACDA 0 none with
    | none =>
      obtain ⟨-, hall⟩ := addSearch_eq_none hsearch
      refine ⟨fun _ => ⟨?_, ?_⟩, fun _ => rfl⟩
      · apply hrefines.represents.eq_none
        intro i hi
        exact (hall i (Nat.zero_le i) (by omega)).2
      · rw [hrefines.represents.full_iff]
        intro i hi
        exact (hall i (Nat.zero_le i) (by omega)).1
    | some idx =>
      dsimp only
      constructor
      · intro hfull
        by_cases hok : ((s.txPolDa idx).policy.assign arg alloc).1 = true
        · rw [if_pos hok] at hfull
          cases hfull
        · rw [if_neg hok] at hfull
          cases hfull
      · rintro ⟨hnone, hfull⟩
        obtain ⟨hidx, hslot⟩ := hrefines.addSearch hsearch
        rcases hslot with ⟨hslot, -⟩ | ⟨policy, -, hda⟩
        · exact absurd hslot (hrefines.represents.full_iff.mp hfull idx hidx)
        · rw [hnone] at hda
          cases hda
  | del da =>
    unfold StatusRight txPolicyCall mvEthTxPolicyDel
    dsimp only
    cases hfind : s.findDa da s.txPolMaxDa 0 with
    | none =>
      refine ⟨nofun, fun hpresent => ?_⟩
      obtain ⟨policy, hda⟩ := Option.ne_none_iff_exists'.mp hpresent
      obtain ⟨i, hi, hslot⟩ := (hrefines.represents.lookup da policy).mp hda
      by_cases hlt : i < s.txPolMaxDa
      · exact absurd hslot (findDa_eq_none hfind (Nat.zero_le i) (by omega) policy)
      · rw [hrefines.above i (by omega) hi] at hslot
        cases hslot
    | some idx =>
      obtain ⟨hlt, policy, hslot⟩ := findDa_eq_some hfind
      have hle := hrefines.maxDa_le
      refine ⟨fun _ => ?_, fun _ => rfl⟩
      rw [hrefines.represents.of_slot (by omega) hslot]
      nofun
  | setDef arg alloc => trivial

/-- Setting the default that is stored keeps to the map. -/
theorem Refines.setDef_ok (hrefines : Refines s m)
    (hok : (s.txPolDef.assign arg alloc).1 = true) :
    Refines (s.mvEthTxPolicyDef arg alloc).2 { m with default := some arg.meant } := by
  refine ⟨hrefines.represents, hrefines.above, hrefines.maxDa_le, ?_, nofun⟩
  intro entry hentry
  exact (assign_ok hok).trans (Option.some.inj hentry)

/-- A call that is sound leaves the map that it is recorded in. -/
theorem Refines.call (hrefines : Refines s m) {call : TxPolicyCall} (hsound : CallSound s call) :
    Refines (txPolicyCall s call).2 (m.record call (txPolicyCall s call).1) ∧
      ((txPolicyCall s call).1 ≠ .ok → Similar (txPolicyCall s call).2 s) := by
  cases call with
  | add da arg alloc htxQ =>
    unfold txPolicyCall
    dsimp only
    cases hsearch : s.addSearch da MV_ETH_TX_POLICY_MAX_MACDA 0 none with
    | none =>
      have hfull : s.mvEthTxPolicyAdd da arg alloc = (.full, s) := by
        unfold mvEthTxPolicyAdd
        rw [hsearch]
      rw [hfull]
      exact ⟨hrefines, fun _ => ⟨rfl, rfl, rfl⟩⟩
    | some idx =>
      by_cases hok : ((s.txPolDa idx).policy.assign arg alloc).1 = true
      · have hstatus : (s.mvEthTxPolicyAdd da arg alloc).1 = .ok := by
          unfold mvEthTxPolicyAdd
          rw [hsearch]
          dsimp only
          rw [if_pos hok]
        rw [hstatus]
        exact ⟨hrefines.add_ok htxQ hsearch hok, fun hne => absurd rfl hne⟩
      · have hstatus : (s.mvEthTxPolicyAdd da arg alloc).1 = .fail := by
          unfold mvEthTxPolicyAdd
          rw [hsearch]
          dsimp only
          rw [if_neg hok]
        have hheader : ∀ policy, m.entries da = some policy → policy.pHeader = none := by
          rw [assign_fst, not_or] at hok
          intro policy hda
          rcases hsound with halloc | hnone | hsound
          · exact absurd halloc hok.2
          · exact absurd hnone hok.1
          · exact hrefines.no_header hsound hda
        have hsimilar := hrefines.add_fail_similar hsearch hok hheader
        rw [hstatus]
        exact ⟨hrefines.similar hsimilar, fun _ => hsimilar⟩
  | del da =>
    unfold txPolicyCall
    dsimp only
    cases hfind : s.findDa da s.txPolMaxDa 0 with
    | none =>
      have hnoSuch : s.mvEthTxPolicyDel da = (.noSuch, s) := by
        unfold mvEthTxPolicyDel
        rw [hfind]
      rw [hnoSuch]
      exact ⟨hrefines, fun _ => ⟨rfl, rfl, rfl⟩⟩
    | some idx =>
      have hstatus : (s.mvEthTxPolicyDel da).1 = .ok := by
        unfold mvEthTxPolicyDel
        rw [hfind]
      rw [hstatus]
      exact ⟨hrefines.del hfind, fun hne => absurd rfl hne⟩
  | setDef arg alloc =>
    unfold txPolicyCall
    dsimp only
    by_cases hok : (s.txPolDef.assign arg alloc).1 = true
    · have hstatus : (s.mvEthTxPolicyDef arg alloc).1 = .ok := by
        unfold mvEthTxPolicyDef
        exact if_pos hok
      rw [hstatus]
      exact ⟨hrefines.setDef_ok hok, fun hne => absurd rfl hne⟩
    · have hstatus : (s.mvEthTxPolicyDef arg alloc).1 = .fail := by
        unfold mvEthTxPolicyDef
        exact if_neg hok
      have hheader : s.txPolDef.pHeader = none := by
        rw [assign_fst, not_or] at hok
        rcases hsound with halloc | hnone | hheader
        · exact absurd halloc hok.2
        · exact absurd hnone hok.1
        · exact hheader
      have hsimilar : Similar (s.mvEthTxPolicyDef arg alloc).2 s := by
        refine ⟨rfl, rfl, ?_⟩
        unfold mvEthTxPolicyDef
        dsimp only
        rw [assign_fail hok, ← hheader]
      rw [hstatus]
      exact ⟨hrefines.similar hsimilar, fun _ => hsimilar⟩

/-- A call that is not sound makes a lookup wrong. -/
theorem Refines.not_lookups (hrefines : Refines s m) {call : TxPolicyCall}
    (hunsound : ¬ CallSound s call) :
    ¬ LookupsRight (m.record call (txPolicyCall s call).1) (txPolicyCall s call).2 := by
  intro hlookups
  cases call with
  | add da arg alloc htxQ =>
    unfold CallSound at hunsound
    push Not at hunsound
    obtain ⟨halloc, hheader, idx', hidx', hhas, hlost⟩ := hunsound
    have hda := hrefines.hasDa hidx' hhas
    unfold txPolicyCall at hlookups
    dsimp only at hlookups
    cases hsearch : s.addSearch da MV_ETH_TX_POLICY_MAX_MACDA 0 none with
    | none =>
      exact (addSearch_eq_none hsearch).2 idx' (Nat.zero_le _) (by omega) |>.2 _
        (hasDa_iff.mp hhas).choose_spec
    | some idx =>
      have hfail : ((s.txPolDa idx).policy.assign arg alloc).1 ≠ true := by
        rw [Ne, assign_fst, not_or]
        exact ⟨hheader, halloc⟩
      have hstatus : (s.mvEthTxPolicyAdd da arg alloc).1 = .fail := by
        unfold mvEthTxPolicyAdd
        rw [hsearch]
        dsimp only
        rw [if_neg hfail]
      rw [hstatus] at hlookups
      have hget := hlookups da (s.txPolDa idx').policy (by
        unfold PolicyMap.lookup PolicyMap.record
        rw [hda, Option.some_or])
      rw [hrefines.add_fail_get hsearch hfail hda] at hget
      exact hlost (congrArg TxPolicyEntry.pHeader hget).symm
  | del da => exact hunsound trivial
  | setDef arg alloc =>
    unfold CallSound at hunsound
    push Not at hunsound
    obtain ⟨halloc, hheader, hlost⟩ := hunsound
    have hfail : (s.txPolDef.assign arg alloc).1 ≠ true := by
      rw [Ne, assign_fst, not_or]
      exact ⟨hheader, halloc⟩
    have hstatus : (s.mvEthTxPolicyDef arg alloc).1 = .fail := by
      unfold mvEthTxPolicyDef
      exact if_neg hfail
    unfold txPolicyCall at hlookups
    dsimp only at hlookups
    rw [hstatus] at hlookups
    -- a default with a header has been set, and some address is absent
    have hset : m.default = some s.txPolDef := by
      cases hdefault : m.default with
      | none => exact absurd (hrefines.unset hdefault) hlost
      | some entry => rw [hrefines.default_eq entry hdefault]
    obtain ⟨da, hda⟩ := hrefines.represents.exists_absent macEntries_lt_card
    have hget := hlookups da s.txPolDef (by
      unfold PolicyMap.lookup PolicyMap.record
      rw [hda, Option.none_or, hset])
    have hcleared : Refines (s.mvEthTxPolicyDef arg alloc).2 { m with default := none } := by
      refine ⟨hrefines.represents, hrefines.above, hrefines.maxDa_le, nofun, fun _ => ?_⟩
      unfold mvEthTxPolicyDef
      dsimp only
      rw [assign_fail hfail]
    have hnone := hcleared.unset rfl
    rw [hcleared.get, hda, Option.getD_none] at hget
    rw [hget] at hnone
    exact hlost hnone

end EthTxPolicy

open EthTxPolicy

/-- A policy is the empty map when it has been initialised. -/
theorem mvEthTxPolicyInit_refines (defPolicy : TxPolicyArg) (alloc : Bool) :
    Refines (mvEthTxPolicyInit defPolicy alloc) (initPolicyMap defPolicy alloc) := by
  refine ⟨represents_free fun i _ => ?_, fun i _ _ => ?_, Nat.zero_le _, ?_, ?_⟩
  · exact TxPolicyMacda.view_eq_none.mpr rfl
  · exact TxPolicyMacda.view_eq_none.mpr rfl
  · intro entry hentry
    unfold initPolicyMap at hentry
    dsimp only at hentry
    by_cases hok : defPolicy.pHeader = none ∨ alloc = true
    · rw [if_pos hok] at hentry
      rw [← Option.some.inj hentry]
      exact assign_ok ((assign_fst _).mpr hok)
    · rw [if_neg hok] at hentry
      cases hentry
  · intro hunset
    unfold initPolicyMap at hunset
    dsimp only at hunset
    by_cases hok : defPolicy.pHeader = none ∨ alloc = true
    · rw [if_pos hok] at hunset
      cases hunset
    · refine congrArg TxPolicyEntry.pHeader (assign_fail ?_)
      rw [Ne, assign_fst]
      exact hok

/-- The lookups are right at the start of a run that is. -/
theorem RunRight.lookups {calls : List TxPolicyCall} (hright : RunRight m s calls) :
    LookupsRight m s := by
  cases calls with
  | nil => exact hright
  | cons call calls => exact hright.1

/-- Some calls on a policy that stands for a map are right exactly when they are sound. -/
theorem EthTxPolicy.Refines.run_iff (hrefines : Refines s m) (calls : List TxPolicyCall) :
    RunRight m s calls ↔ RunSound s calls := by
  induction calls generalizing s m with
  | nil => exact ⟨fun _ => trivial, fun _ => hrefines.lookups⟩
  | cons call calls ih =>
    constructor
    · rintro ⟨-, -, -, hrest⟩
      have hsound : CallSound s call := by
        by_contra hunsound
        exact hrefines.not_lookups hunsound hrest.lookups
      exact ⟨hsound, (ih (hrefines.call hsound).1).mp hrest⟩
    · rintro ⟨hsound, hrest⟩
      obtain ⟨hrefines', hsimilar⟩ := hrefines.call hsound
      refine ⟨hrefines.lookups, hrefines.status call, ?_, (ih hrefines').mpr hrest⟩
      intro hfails calls da
      exact ((hsimilar hfails).calls calls).get da

/-- Exactly when a policy is a finite map along a run of calls from its initialisation: no
allocation fails for an address whose entry has a header, nor for the default when it has one. -/
theorem txPolicy_runRight_iff (defPolicy : TxPolicyArg) (alloc : Bool)
    (calls : List TxPolicyCall) :
    RunRight (initPolicyMap defPolicy alloc) (mvEthTxPolicyInit defPolicy alloc) calls ↔
      RunSound (mvEthTxPolicyInit defPolicy alloc) calls :=
  (mvEthTxPolicyInit_refines defPolicy alloc).run_iff calls

/-- A policy for a queue without a header. -/
def plainPolicy : TxPolicyArg := ⟨⟨none, 0, 0⟩, nofun⟩

/-- A policy for a queue with a header of two bytes. -/
def headerPolicy : TxPolicyArg :=
  ⟨⟨some [0, 1], 2, 1⟩, fun _ hheader => by rw [← Option.some.inj hheader]; rfl⟩

/-- An address is added with a header, and added again when memory cannot be allocated. -/
def addedTwice : List TxPolicyCall :=
  [.add 1 headerPolicy true (by decide), .add 1 headerPolicy false (by decide)]

/-- The second call fails, and takes the header of the first one away. -/
theorem addedTwice_not_right :
    ((mvEthTxPolicyInit plainPolicy true).mvEthTxPolicyAdd 1 headerPolicy true).1 = .ok ∧
      (mvEthTxPolicyAdd
        (mvEthTxPolicyAdd (mvEthTxPolicyInit plainPolicy true) 1 headerPolicy true).2
        1 headerPolicy false).1 = .fail ∧
      (txPolicyCalls (mvEthTxPolicyInit plainPolicy true) addedTwice).mvEthDATxPolicyGet 1 =
        ⟨none, 2, 1⟩ ∧
      ¬ RunRight (initPolicyMap plainPolicy true) (mvEthTxPolicyInit plainPolicy true)
        addedTwice := by
  refine ⟨by decide, by decide, by decide, ?_⟩
  rintro ⟨-, -, -, -, -, hharmless, -⟩
  have h := hharmless (by decide) [] 1
  revert h
  decide

end Mv88fxx81.Eth
