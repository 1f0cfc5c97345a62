import Mathlib.Data.BitVec
import Mathlib.Data.Int.Notation
import Mv88fxx81.Lib.SlotTable

/-!
# The transmit policy

`mvEthPolicy.c` keeps for some destination addresses the transmit queue and the header of their
packets, and a default for the others. An entry is free when its queue is `MV_INVALID`, and no
entry from `txPolMaxDa` on is in use. A header is copied into memory that is allocated for it.
-/

namespace Mv88fxx81.Eth

open SlotTable

/-- `MV_ETH_TX_POLICY_MAX_MACDA`. -/
def MV_ETH_TX_POLICY_MAX_MACDA : ℕ := 16

/-- `MV_INVALID`. -/
def MV_INVALID : ℤ := -1

/-- What the functions answer. -/
inductive TxPolicyStatus
  | ok
  | fail
  | full
  | noSuch
  deriving DecidableEq, Repr

/-- `MV_ETH_TX_POLICY_ENTRY`, with the bytes that `pHeader` points to, unless it is `NULL`. -/
structure TxPolicyEntry where
  pHeader : Option (List (BitVec 8))
  headerSize : ℤ
  txQ : ℤ
  deriving DecidableEq, Repr

/-- An entry that a caller gives. Where it has a header, its size is that of the header. -/
structure TxPolicyArg extends TxPolicyEntry where
  headerSize_eq : ∀ header, pHeader = some header → headerSize = header.length

/-- `MV_ETH_TX_POLICY_MACDA`. -/
structure TxPolicyMacda where
  macDa : BitVec 48
  policy : TxPolicyEntry
  deriving DecidableEq, Repr

/-- `ETH_TX_POLICY`. -/
structure EthTxPolicy where
  txPolDef : TxPolicyEntry
  txPolMaxDa : ℕ
  txPolDa : ℕ → TxPolicyMacda

/-- The copy of a given entry into one of the table, and whether it succeeds. When the memory for
the header cannot be allocated, `pHeader` is `NULL`, and the rest stays. -/
def TxPolicyEntry.assign (entry : TxPolicyEntry) (arg : TxPolicyArg) (alloc : Bool) :
    Bool × TxPolicyEntry :=
  match arg.pHeader with
  | some header =>
    if alloc then
      (true,
        { pHeader := some (header.take arg.headerSize.toNat)
          headerSize := arg.headerSize
          txQ := arg.txQ })
    else (false, { entry with pHeader := none })
  | none => (true, { pHeader := none, headerSize := 0, txQ := arg.txQ })

namespace EthTxPolicy

variable (s : EthTxPolicy)

/-- `mvEthTxPolicyDef`. -/
def mvEthTxPolicyDef (arg : TxPolicyArg) (alloc : Bool) : TxPolicyStatus × EthTxPolicy :=
  let entry := s.txPolDef.assign arg alloc
  (if entry.1 then .ok else .fail, { s with txPolDef := entry.2 })

/-- An entry in use has the address. -/
def hasDa (da : BitVec 48) (idx : ℕ) : Bool :=
  (s.txPolDa idx).policy.txQ ≠ MV_INVALID ∧ (s.txPolDa idx).macDa = da

/-- The loop of `mvEthTxPolicyAdd`, with the number of turns left. -/
def addSearch (da : BitVec 48) : ℕ → ℕ → Option ℕ → Option ℕ
  | 0, _, firstEmptyIdx => firstEmptyIdx
  | n + 1, idx, firstEmptyIdx =>
    if s.hasDa da idx then some idx
    else if firstEmptyIdx = none ∧ (s.txPolDa idx).policy.txQ = MV_INVALID then
      addSearch da n (idx + 1) (some idx)
    else addSearch da n (idx + 1) firstEmptyIdx

/-- `mvEthTxPolicyAdd`. -/
def mvEthTxPolicyAdd (da : BitVec 48) (arg : TxPolicyArg) (alloc : Bool) :
    TxPolicyStatus × EthTxPolicy :=
  match s.addSearch da MV_ETH_TX_POLICY_MAX_MACDA 0 none with
  | none => (.full, s)
  | some idx =>
    let entry := (s.txPolDa idx).policy.assign arg alloc
    let s := { s with txPolDa := Function.update s.txPolDa idx ⟨da, entry.2⟩ }
    if entry.1 then
      (.ok, { s with txPolMaxDa := if idx ≥ s.txPolMaxDa then idx + 1 else s.txPolMaxDa })
    else (.fail, s)

/-- The loop of `mvEthTxPolicyDel` and that of `mvEthDATxPolicyGet`, with the number of turns
left. -/
def findDa (da : BitVec 48) : ℕ → ℕ → Option ℕ
  | 0, _ => none
  | n + 1, idx => if s.hasDa da idx then some idx else findDa da n (idx + 1)

/-- The loop of `mvEthTxPolicyDel` that decreases the table. -/
def decreaseTable : ℕ → ℕ
  | 0 => 0
  | maxDa + 1 =>
    if (s.txPolDa maxDa).policy.txQ = MV_INVALID then decreaseTable maxDa else maxDa + 1

/-- An entry that is no longer in use. -/
def deleted (entry : TxPolicyEntry) : TxPolicyEntry :=
  let entry := { entry with txQ := MV_INVALID }
  if entry.pHeader ≠ none then { entry with pHeader := none, headerSize := 0 } else entry

/-- `mvEthTxPolicyDel`. -/
def mvEthTxPolicyDel (da : BitVec 48) : TxPolicyStatus × EthTxPolicy :=
  match s.findDa da s.txPolMaxDa 0 with
  | none => (.noSuch, s)
  | some idx =>
    let entry := s.txPolDa idx
    let s :=
      { s with
        txPolDa := Function.update s.txPolDa idx { entry with policy := deleted entry.policy } }
    let maxDa := if idx + 1 = s.txPolMaxDa then s.txPolMaxDa - 1 else s.txPolMaxDa
    (.ok, { s with txPolMaxDa := s.decreaseTable maxDa })

/-- `mvEthDATxPolicyGet`. It returns the queue of the entry, too. -/
def mvEthDATxPolicyGet (da : BitVec 48) : TxPolicyEntry :=
  match s.findDa da s.txPolMaxDa 0 with
  | some idx => (s.txPolDa idx).policy
  | none => s.txPolDef

end EthTxPolicy

/-- `mvEthTxPolicyInit`. The default is set with `mvEthTxPolicyDef`, whatever it answers. -/
def mvEthTxPolicyInit (defPolicy : TxPolicyArg) (alloc : Bool) : EthTxPolicy :=
  let zeroes : EthTxPolicy := ⟨⟨none, 0, 0⟩, 0, fun _ => ⟨0, ⟨none, 0, 0⟩⟩⟩
  let s := (zeroes.mvEthTxPolicyDef defPolicy alloc).2
  { s with
    txPolMaxDa := 0
    txPolDa := fun idx =>
      { s.txPolDa idx with policy := { (s.txPolDa idx).policy with txQ := MV_INVALID } } }

/-- The calls that change a policy; `alloc` says whether memory can be allocated in it. -/
inductive TxPolicyCall
  | add (da : BitVec 48) (arg : TxPolicyArg) (alloc : Bool) (htxQ : 0 ≤ arg.txQ)
  | del (da : BitVec 48)
  | setDef (arg : TxPolicyArg) (alloc : Bool)

/-- One call. -/
def txPolicyCall (s : EthTxPolicy) : TxPolicyCall → TxPolicyStatus × EthTxPolicy
  | .add da arg alloc _ => s.mvEthTxPolicyAdd da arg alloc
  | .del da => s.mvEthTxPolicyDel da
  | .setDef arg alloc => s.mvEthTxPolicyDef arg alloc

/-- The policy behind some calls. -/
def txPolicyCalls (s : EthTxPolicy) : List TxPolicyCall → EthTxPolicy
  | [] => s
  | call :: calls => txPolicyCalls (txPolicyCall s call).2 calls

/-- The entry that a caller means: without a header, its size is zero. -/
def TxPolicyArg.meant (arg : TxPolicyArg) : TxPolicyEntry :=
  match arg.pHeader with
  | some header => ⟨some header, header.length, arg.txQ⟩
  | none => ⟨none, 0, arg.txQ⟩

/-- What a policy is for: a finite map, and a default once one has been set. -/
structure PolicyMap where
  entries : BitVec 48 → Option TxPolicyEntry
  default : Option TxPolicyEntry

namespace PolicyMap

variable (m : PolicyMap)

/-- The entry for an address. -/
def lookup (da : BitVec 48) : Option TxPolicyEntry := (m.entries da).or m.default

/-- A call that has succeeded changes the map, and one that has failed does not. -/
def record : TxPolicyCall → TxPolicyStatus → PolicyMap
  | .add da arg _ _, .ok => { m with entries := Function.update m.entries da (some arg.meant) }
  | .del da, .ok => { m with entries := Function.update m.entries da none }
  | .setDef arg _, .ok => { m with default := some arg.meant }
  | _, _ => m

end PolicyMap

/-- The map behind `mvEthTxPolicyInit`. -/
def initPolicyMap (defPolicy : TxPolicyArg) (alloc : Bool) : PolicyMap where
  entries _ := none
  default := if defPolicy.pHeader = none ∨ alloc then some defPolicy.meant else none

/-- Every lookup answers the entry of the map. -/
def LookupsRight (m : PolicyMap) (s : EthTxPolicy) : Prop :=
  ∀ da entry, m.lookup da = some entry → s.mvEthDATxPolicyGet da = entry

/-- What a call answers: `mvEthTxPolicyAdd` refuses an address exactly when it is absent and as many
others are present as there are entries, and `mvEthTxPolicyDel` succeeds exactly when it is
present. -/
def StatusRight (m : PolicyMap) : TxPolicyCall → TxPolicyStatus → Prop
  | .add da _ _ _, status =>
    status = .full ↔ m.entries da = none ∧ (keys m.entries).ncard = MV_ETH_TX_POLICY_MAX_MACDA
  | .del da, status => status = .ok ↔ m.entries da ≠ none
  | .setDef _ _, _ => True

/-- A call that does not succeed leaves every later lookup as it would have been without it. -/
def FailureHarmless (s : EthTxPolicy) (call : TxPolicyCall) : Prop :=
  (txPolicyCall s call).1 ≠ .ok →
    ∀ calls da, (txPolicyCalls (txPolicyCall s call).2 calls).mvEthDATxPolicyGet da =
      (txPolicyCalls s calls).mvEthDATxPolicyGet da

/-- The policy is the map before and behind each of some calls. -/
def RunRight (m : PolicyMap) (s : EthTxPolicy) : List TxPolicyCall → Prop
  | [] => LookupsRight m s
  | call :: calls =>
    LookupsRight m s ∧ StatusRight m call (txPolicyCall s call).1 ∧ FailureHarmless s call ∧
      RunRight (m.record call (txPolicyCall s call).1) (txPolicyCall s call).2 calls

/-- The memory for a header can be allocated, or none is asked for, or the entry that is about to be
overwritten, if there is one, has no header. -/
def CallSound (s : EthTxPolicy) : TxPolicyCall → Prop
  | .add da arg alloc _ =>
    alloc ∨ arg.pHeader = none ∨
      ∀ idx < MV_ETH_TX_POLICY_MAX_MACDA, s.hasDa da idx → (s.txPolDa idx).policy.pHeader = none
  | .del _ => True
  | .setDef arg alloc => alloc ∨ arg.pHeader = none ∨ s.txPolDef.pHeader = none

/-- Each of some calls is sound in the state that it is made in. -/
def RunSound (s : EthTxPolicy) : List TxPolicyCall → Prop
  | [] => True
  | call :: calls => CallSound s call ∧ RunSound (txPolicyCall s call).2 calls

end Mv88fxx81.Eth
