import Mathlib.Data.List.Basic
import Mathlib.Data.List.Nodup
import Mv88fxx81.Lib.Run
import Mv88fxx81.Sata.Sal

/-!
# The callback of a command block

A block that was given to `mvSataExecuteScsiCommand` has had its callback called,
has an ATA command in the core driver, or is on the post-interrupt list, and just
one of these. Three places break this: REASSIGN BLOCKS returns the wrong value, a
part of a split VERIFY that the core driver refuses is not completed, and a MODE
SELECT that sets only the look-ahead returns that it is queued where it is refused.
-/

namespace Mv88fxx81.Sata

open TransitionSystem

/-- The number of ATA commands that a block still has to send after the present one. -/
def Scb.remaining (scb : Scb) : ℕ :=
  if scb.opcode.any ScsiOpcode.isSplit then scb.splitCount.toNat - scb.sequenceNumber.toNat else 0

/-- The value returned says whether the callback has been called. -/
def Reply.Honest (reply : Reply) : Prop :=
  (reply.status = .completed ↔ reply.completions.length = 1) ∧
    (reply.status = .queued ↔ reply.completions.length = 0)

/-- A reply is as it should be: the callback has been called once, or an ATA command is in
the core driver, with a bounded number to follow. -/
inductive Handled (reply : Reply) : Prop
  | completed (hstatus : reply.status = .completed) (hcalled : reply.completions.length = 1)
      (hqueued : reply.queued = none)
  | queued {info : QueueCommandInfo} (hstatus : reply.status = .queued)
      (hcalled : reply.completions = []) (hqueued : reply.queued = some info)
      (hremaining : reply.scb.remaining + 1 ≤ 256)

/-- A reply that is as it should be accounts for its block once. -/
theorem Handled.once {reply : Reply} (h : Handled reply) :
    reply.completions.length + reply.queued.toList.length = 1 ∧ reply.Honest := by
  cases h with
  | completed hstatus hcalled hqueued => simp [Reply.Honest, hstatus, hcalled, hqueued]
  | queued hstatus hcalled hqueued => simp [Reply.Honest, hstatus, hcalled, hqueued]

section Handlers

variable {drive : DriveData} {scb : Scb} {result : QueueCommandResult}

/-- Completing a block is as it should be. -/
theorem finish_handled : Handled (finish drive scb) := .completed rfl rfl rfl

/-- Giving a command to the core driver is as it should be. -/
theorem queueOrFinish_handled {info : QueueCommandInfo} (h : scb.remaining + 1 ≤ 256) :
    Handled (queueOrFinish drive scb info result) := by
  unfold queueOrFinish
  by_cases hok : result = .ok
  · rw [if_pos hok]
    exact .queued rfl rfl rfl h
  · rw [if_neg hok]
    exact finish_handled

/-- An operation that needs only one ATA command has none to follow. -/
theorem remaining_of_not_split {op : ScsiOpcode} (hop : scb.opcode = some op)
    (hsplit : op.isSplit = false) : scb.remaining + 1 ≤ 256 := by
  simp [Scb.remaining, hop, hsplit]

/-- The commands to follow are counted by the numbers of the block. -/
theorem Scb.remaining_le (scb : Scb) :
    scb.remaining ≤ scb.splitCount.toNat - scb.sequenceNumber.toNat := by
  unfold Scb.remaining
  split
  · exact Nat.le_refl _
  · exact Nat.zero_le _

/-- `mvScsiAtaSendDataCommand` is as it should be. -/
theorem mvScsiAtaSendDataCommand_handled {op : ScsiOpcode} (hop : scb.opcode = some op)
    (hsplit : op.isSplit = false) : Handled (mvScsiAtaSendDataCommand drive scb result) := by
  unfold mvScsiAtaSendDataCommand
  dsimp only
  generalize (if dataCount scb = 0 then (256 : UInt16) else dataCount scb) = sectors
  split
  · split <;> exact finish_handled
  · split
    · exact finish_handled
    · split
      · exact finish_handled
      · exact queueOrFinish_handled (remaining_of_not_split hop hsplit)

/-- A VERIFY goes to a drive with 28 bit addresses and is sent in parts. -/
def sendsSplitVerify (drive : DriveData) (scb : Scb) : Prop :=
  ¬ (verifyCount scb = 0 ∧ scb.opcode = some .verify10) ∧ verifyOutOfRange drive scb = false ∧
    drive.identifyInfo.lba48Supported = false

instance (drive : DriveData) (scb : Scb) : Decidable (sendsSplitVerify drive scb) :=
  inferInstanceAs (Decidable (_ ∧ _))

/-- A VERIFY has at most 256 parts. -/
theorem verifyCommands_le (sectors : UInt16) : (verifyCommands sectors).toNat ≤ 256 := by
  unfold verifyCommands
  split
  · decide
  · have hlt := sectors.toNat_lt
    have hle : ((sectors.toUInt32 + 0xff) &&& 0x1ff00).toNat ≤ sectors.toNat + 0xff := by
      rw [UInt32.toNat_and, UInt32.toNat_add, UInt16.toNat_toUInt32]
      exact Nat.le_trans Nat.and_le_left (Nat.mod_le _ _)
    have hshift : (((sectors.toUInt32 + 0xff) &&& 0x1ff00) >>> 8).toNat =
        ((sectors.toUInt32 + 0xff) &&& 0x1ff00).toNat / 256 := by
      rw [UInt32.toNat_shiftRight, Nat.shiftRight_eq_div_pow]
      rfl
    rw [UInt32.toNat_toUInt16, hshift]
    omega

/-- The first part of a split VERIFY, where it is accepted. -/
theorem mvScsiAtaSendVerifyCommand_handled
    (hok : sendsSplitVerify drive scb → result = .ok) :
    Handled (mvScsiAtaSendVerifyCommand drive scb result) := by
  unfold mvScsiAtaSendVerifyCommand
  dsimp only
  split
  · split <;> exact finish_handled
  rename_i hcount
  split
  · exact finish_handled
  rename_i hrange
  split
  · refine queueOrFinish_handled (Nat.le_trans (Nat.add_le_add_right (Scb.remaining_le _) 1) ?_)
    show (1 : UInt16).toNat - scb.sequenceNumber.toNat + 1 ≤ 256
    have hone : (1 : UInt16).toNat = 1 := rfl
    omega
  rename_i hlba
  have hresult := hok ⟨hcount, Bool.not_eq_true _ ▸ hrange, Bool.not_eq_true _ ▸ hlba⟩
  rw [mvScsiAtaSendSplittedVerifyCommand, if_pos hresult]
  refine .queued rfl rfl rfl (Nat.le_trans (Nat.add_le_add_right (Scb.remaining_le _) 1) ?_)
  show (verifyCommands (verifyCount scb)).toNat - (1 : UInt16).toNat + 1 ≤ 256
  have hle := verifyCommands_le (verifyCount scb)
  have hone : (1 : UInt16).toNat = 1 := rfl
  omega

/-- The first part of a split VERIFY, where it is refused. -/
theorem mvScsiAtaSendVerifyCommand_refused (hsplit : sendsSplitVerify drive scb)
    (hresult : result ≠ .ok) :
    (mvScsiAtaSendVerifyCommand drive scb result).completions = [] ∧
      (mvScsiAtaSendVerifyCommand drive scb result).queued = none := by
  obtain ⟨hcount, hrange, hlba⟩ := hsplit
  unfold mvScsiAtaSendVerifyCommand
  dsimp only
  rw [if_neg hcount, if_neg (by rw [hrange]; simp), if_neg (by rw [hlba]; simp),
    mvScsiAtaSendSplittedVerifyCommand, if_neg hresult]
  exact ⟨rfl, rfl⟩

/-- A MODE SELECT page asks for nothing that the drive can do but the look-ahead. -/
def pageSetsLookAheadOnly (drive : DriveData) (page : ℕ → UInt8) : Prop :=
  cachingPageInvalid page = false ∧ drive.identifyInfo.readAheadSupported = true ∧
    enablesWriteCache page = false ∧ drive.identifyInfo.writeCacheSupported = false

/-- A MODE SELECT sets the look-ahead and nothing else. -/
def setsLookAheadOnly (drive : DriveData) (scb : Scb) : Prop :=
  ∃ offset, modeParameterList scb = .ok (some offset) ∧
    pageSetsLookAheadOnly drive fun i => scb.pDataBuffer.getD (offset + i) 0

/-- Acting on an accepted page. -/
theorem mvParseModeCachingPage_handled {page : ℕ → UInt8} {reply : Reply}
    (hok : pageSetsLookAheadOnly drive page → result = .ok)
    (h : mvParseModeCachingPage drive scb page result = .ok reply) : Handled reply := by
  have hsplit : ∀ scb' : Scb,
      scb'.splitCount = (if drive.identifyInfo.readAheadSupported then 2 else 1) →
      scb'.sequenceNumber = 1 → scb'.remaining + 1 ≤ 256 := by
    intro scb' hcount hnumber
    have hle := scb'.remaining_le
    have htwo : scb'.splitCount.toNat ≤ 2 := by
      rw [hcount]
      split <;> decide
    omega
  unfold mvParseModeCachingPage at h
  dsimp only at h
  split at h
  · cases h
  rename_i hvalid
  split at h
  · cases h
  split at h
  · split at h
    · cases h
    · cases h
      exact queueOrFinish_handled (hsplit _ rfl rfl)
  rename_i hdisable
  split at h
  · cases h
    exact queueOrFinish_handled (hsplit _ rfl rfl)
  rename_i hcache
  by_cases hahead : drive.identifyInfo.readAheadSupported = true
  · rw [if_pos hahead, if_pos (show (2 : UInt16) - 1 = 1 from rfl)] at h
    cases h
    have hresult := hok ⟨Bool.not_eq_true _ ▸ hvalid, hahead, Bool.not_eq_true _ ▸ hdisable,
      Bool.not_eq_true _ ▸ hcache⟩
    rw [mvScsiAtaSendReadLookAhead, if_pos hresult]
    refine .queued rfl rfl rfl (Nat.le_trans (Nat.add_le_add_right (Scb.remaining_le _) 1) ?_)
    show (1 : UInt16).toNat - (2 : UInt16).toNat + 1 ≤ 256
    decide
  · rw [if_neg hahead, if_neg (show ¬ (1 : UInt16) - 1 = 1 by decide)] at h
    cases h
    exact finish_handled

/-- The look-ahead alone, where it is refused. -/
theorem mvParseModeCachingPage_refused (scb : Scb) {page : ℕ → UInt8}
    (hpage : pageSetsLookAheadOnly drive page) (hresult : result ≠ .ok) :
    ∃ reply, mvParseModeCachingPage drive scb page result = .ok reply ∧
      reply.completions.length = 1 ∧ reply.status = .queued ∧ reply.queued = none := by
  obtain ⟨hvalid, hahead, hdisable, hcache⟩ := hpage
  unfold mvParseModeCachingPage
  dsimp only
  rw [if_neg (by rw [hvalid]; simp), if_neg (by rw [hahead]; simp),
    if_neg (by rw [hdisable]; simp), if_neg (by rw [hcache]; simp),
    if_pos (by rw [if_pos hahead]; rfl), mvScsiAtaSendReadLookAhead, if_neg hresult]
  exact ⟨_, rfl, rfl, rfl, rfl⟩

/-- `mvScsiAtaModeSelect` is as it should be, but for a refused look-ahead. -/
theorem mvScsiAtaModeSelect_handled (hok : setsLookAheadOnly drive scb → result = .ok) :
    Handled (mvScsiAtaModeSelect drive scb result) := by
  unfold mvScsiAtaModeSelect
  split
  · exact finish_handled
  rename_i reply hreply
  unfold modeSelect at hreply
  split at hreply
  · cases hreply
  · cases hreply
    exact finish_handled
  · rename_i offset hlist
    exact mvParseModeCachingPage_handled (fun hpage => hok ⟨offset, hlist, hpage⟩) hreply

/-- A refused look-ahead of `mvScsiAtaModeSelect`. -/
theorem mvScsiAtaModeSelect_refused (hahead : setsLookAheadOnly drive scb)
    (hresult : result ≠ .ok) :
    (mvScsiAtaModeSelect drive scb result).completions.length = 1 ∧
      (mvScsiAtaModeSelect drive scb result).status = .queued ∧
      (mvScsiAtaModeSelect drive scb result).queued = none := by
  obtain ⟨offset, hlist, hpage⟩ := hahead
  obtain ⟨reply, hreply, hcalled⟩ := mvParseModeCachingPage_refused scb hpage hresult
  unfold mvScsiAtaModeSelect modeSelect
  rw [hlist]
  dsimp only
  rw [hreply]
  exact hcalled

/-- What has to hold for a handler to be as it should be. -/
def HandlerClean (drive : DriveData) (scb : Scb) (result : QueueCommandResult) : ScsiOpcode → Prop
  | .reassignBlocks => False
  | .verify6 | .verify10 => sendsSplitVerify drive scb → result = .ok
  | .modeSelect6 => setsLookAheadOnly drive scb → result = .ok
  | _ => True

/-- The handlers are as they should be under their conditions. -/
theorem dispatch_handled {op : ScsiOpcode} (hop : scb.opcode = some op)
    (hclean : HandlerClean drive scb result op) : Handled (dispatch drive scb result op) := by
  cases op with
  | reassignBlocks => exact hclean.elim
  | verify6 | verify10 => exact mvScsiAtaSendVerifyCommand_handled hclean
  | modeSelect6 => exact mvScsiAtaModeSelect_handled hclean
  | read6 | read10 | write6 | write10 => exact mvScsiAtaSendDataCommand_handled hop rfl
  | testUnitReady => exact finish_handled
  | modeSense6 => exact queueOrFinish_handled (remaining_of_not_split hop rfl)
  | inquiry =>
    show Handled (mvScsiAtaGetInquiryData drive scb)
    unfold mvScsiAtaGetInquiryData
    split
    · split
      · exact .completed rfl rfl rfl
      · exact finish_handled
    · exact finish_handled
  | requestSense6 =>
    show Handled (mvScsiAtaGetRequestSenseData drive scb)
    unfold mvScsiAtaGetRequestSenseData
    split
    · exact .completed rfl rfl rfl
    · exact finish_handled
  | readCapacity10 =>
    show Handled (mvScsiAtaGetReadCapacityData drive scb)
    unfold mvScsiAtaGetReadCapacityData
    split <;> exact finish_handled
  | seek10 =>
    show Handled (mvScsiAtaSeek drive scb)
    unfold mvScsiAtaSeek
    split <;> exact finish_handled
  | synchronizeCache10 =>
    show Handled (mvScsiAtaSendSyncCacheCommand drive scb result)
    unfold mvScsiAtaSendSyncCacheCommand
    dsimp only
    split
    · exact finish_handled
    · split
      · exact finish_handled
      · exact queueOrFinish_handled (remaining_of_not_split hop rfl)

/-- A handler whose condition fails does not account for its block, and leaves no ATA command with
the core driver. -/
theorem dispatch_unclean {op : ScsiOpcode} (hclean : ¬ HandlerClean drive scb result op) :
    ¬ ((dispatch drive scb result op).completions.length +
          (dispatch drive scb result op).queued.toList.length = 1 ∧
        (dispatch drive scb result op).Honest) ∧
      (dispatch drive scb result op).completions.length ≤ 1 ∧
      (dispatch drive scb result op).queued = none := by
  cases op with
  | reassignBlocks =>
    refine ⟨fun ⟨_, _, hqueued⟩ => ?_, Nat.le_refl 1, rfl⟩
    have hzero : (1 : ℕ) = 0 := hqueued.mp rfl
    omega
  | verify6 | verify10 =>
    obtain ⟨hsplit, hresult⟩ := Classical.not_imp.1 hclean
    obtain ⟨hcalled, hnone⟩ := mvScsiAtaSendVerifyCommand_refused hsplit hresult
    dsimp only [dispatch]
    rw [hcalled, hnone]
    exact ⟨fun ⟨honce, _⟩ => absurd honce (by decide), Nat.zero_le 1, rfl⟩
  | modeSelect6 =>
    obtain ⟨hahead, hresult⟩ := Classical.not_imp.1 hclean
    obtain ⟨hcalled, hstatus, hnone⟩ := mvScsiAtaModeSelect_refused hahead hresult
    refine ⟨fun ⟨_, _, hqueued⟩ => ?_, Nat.le_of_eq hcalled, hnone⟩
    have hzero := hqueued.mp hstatus
    change (mvScsiAtaModeSelect drive scb result).completions.length = 0 at hzero
    omega
  | _ => exact absurd trivial hclean

end Handlers

section Execute

variable {ext : SalAdapterExtension} {scb : Scb} {result : QueueCommandResult}

/-- What has to hold for a call of `mvSataExecuteScsiCommand` to be as it should be: the
handler that it calls, if any, has what it needs. -/
def ExecuteClean (ext : SalAdapterExtension) (scb : Scb) (result : QueueCommandResult) : Prop :=
  let drive := ext.ataDriveData scb.bus scb.target
  findsDrive ext scb = true → attentionFirst drive scb = false → invalidCdb scb = false →
    ∀ op, scb.opcode = some op → HandlerClean drive scb result op

/-- A call under its condition is as it should be. -/
theorem mvSataExecuteScsiCommand_handled (hclean : ExecuteClean ext scb result) :
    Handled (mvSataExecuteScsiCommand ext scb result) := by
  unfold mvSataExecuteScsiCommand executeOnDrive
  dsimp only
  split
  swap
  · exact finish_handled
  rename_i hfinds
  split
  · exact .completed rfl rfl rfl
  rename_i hattention
  split
  · exact finish_handled
  rename_i hcdb
  split
  · exact finish_handled
  rename_i op hop
  have hhandled := dispatch_handled (show scb.clear.opcode = some op from hop)
    (hclean hfinds (Bool.not_eq_true _ ▸ hattention) (Bool.not_eq_true _ ▸ hcdb) op hop)
  cases hhandled with
  | completed hstatus hcalled hqueued => exact .completed hstatus hcalled hqueued
  | queued hstatus hcalled hqueued hremaining => exact .queued hstatus hcalled hqueued hremaining

/-- A call whose condition fails does not account for its block, which is not with the core
driver. -/
theorem mvSataExecuteScsiCommand_unclean (hclean : ¬ ExecuteClean ext scb result) :
    ¬ ((mvSataExecuteScsiCommand ext scb result).completions.length +
          (mvSataExecuteScsiCommand ext scb result).queued.toList.length = 1 ∧
        (mvSataExecuteScsiCommand ext scb result).Honest) ∧
      (mvSataExecuteScsiCommand ext scb result).completions.length ≤ 1 ∧
      (mvSataExecuteScsiCommand ext scb result).queued = none := by
  simp only [ExecuteClean, not_forall] at hclean
  obtain ⟨hfinds, hattention, hcdb, op, hop, hunclean⟩ := hclean
  have hattention' : ¬ attentionFirst (ext.ataDriveData scb.bus scb.target) scb.clear = true := by
    rw [Bool.not_eq_true]
    exact hattention
  have hcdb' : ¬ invalidCdb scb.clear = true := by
    rw [Bool.not_eq_true]
    exact hcdb
  have hop' : scb.clear.opcode = some op := hop
  unfold mvSataExecuteScsiCommand executeOnDrive
  dsimp only
  rw [if_pos hfinds, if_neg hattention', if_neg hcdb', hop']
  exact dispatch_unclean hunclean

/-- A call calls the callback at most once, and not where it leaves a command with the core
driver. -/
theorem mvSataExecuteScsiCommand_atMostOnce (ext : SalAdapterExtension) (scb : Scb)
    (result : QueueCommandResult) :
    (mvSataExecuteScsiCommand ext scb result).completions.length +
      (mvSataExecuteScsiCommand ext scb result).queued.toList.length ≤ 1 := by
  by_cases hclean : ExecuteClean ext scb result
  · exact Nat.le_of_eq (mvSataExecuteScsiCommand_handled hclean).once.1
  · obtain ⟨-, hcalled, hnone⟩ := mvSataExecuteScsiCommand_unclean hclean
    rw [hnone]
    exact hcalled

end Execute

section Run

/-- The step is the completion of an ATA command of the block. -/
def SalEvent.completes (id : ℕ) : SalEvent → Bool
  | .completion other _ => other == id
  | _ => false

/-- The number of ATA commands of a block that have been completed. -/
def received (id : ℕ) (trace : List (SalEvent × SalAnswer)) : ℕ :=
  trace.countP fun step => step.1.completes id

/-- Every block has had its callback called, has an ATA command in the core driver, or is on
the post-interrupt list, and just one of these. -/
def Sal.Once (sal : Sal) : Prop :=
  ∀ id block, sal.blocks[id]? = some block →
    block.completions.length + block.outstanding.length + sal.ext.pHead.count id = 1

/-- The answer to a call of `mvSataExecuteScsiCommand` is honest. -/
def SalAnswer.Honest : SalAnswer → Prop
  | .executed reply => reply.Honest
  | .done => True

/-- What has to hold for a call to be as it should be. -/
def SalClean (sal : Sal) : SalEvent → Prop
  | .execute scb result => ExecuteClean sal.ext scb result
  | .postIntService results =>
    ∀ id ∈ sal.ext.pHead, ∀ block, sal.blocks[id]? = some block →
      block.scb.opcode = some .verify6 ∨ block.scb.opcode = some .verify10 → results id = .ok
  | _ => True

/-- The blocks are accounted for, and the number of their ATA commands is bounded. -/
structure Accounted (trace : List (SalEvent × SalAnswer)) (sal : Sal) : Prop where
  waiting : ∀ id ∈ sal.ext.pHead, ∃ block, sal.blocks[id]? = some block ∧ block.scb.continues = true
  once : sal.Once
  rounds : ∀ id block, sal.blocks[id]? = some block →
    received id trace + (block.outstanding.length * (block.scb.remaining + 1) +
      sal.ext.pHead.count id * block.scb.remaining) ≤ 256
  fresh : ∀ id, sal.blocks.length ≤ id → received id trace = 0

variable {trace : List (SalEvent × SalAnswer)} {sal sal' : Sal}

/-- Calls other than completions are not counted. -/
theorem received_append {id : ℕ} {event : SalEvent} {answer : SalAnswer} :
    received id (trace ++ [(event, answer)]) =
      received id trace + if event.completes id then 1 else 0 := by
  rw [received, List.countP_append, List.countP_singleton]
  rfl

/-- A call that leaves the blocks and the list alone. -/
theorem Accounted.frame {event : SalEvent} {answer : SalAnswer} (h : Accounted trace sal)
    (hblocks : sal'.blocks = sal.blocks) (hhead : sal'.ext.pHead = sal.ext.pHead)
    (hevent : ∀ id, event.completes id = false) :
    Accounted (trace ++ [(event, answer)]) sal' := by
  have hreceived : ∀ id, received id (trace ++ [(event, answer)]) = received id trace := by
    intro id
    rw [received_append, hevent id]
    rfl
  refine ⟨?_, ?_, ?_, ?_⟩
  · rw [hblocks, hhead]
    exact h.waiting
  · intro id block hblock
    rw [hblocks] at hblock
    rw [hhead]
    exact h.once id block hblock
  · intro id block hblock
    rw [hblocks] at hblock
    rw [hhead, hreceived]
    exact h.rounds id block hblock
  · intro id hid
    rw [hblocks] at hid
    rw [hreceived]
    exact h.fresh id hid

/-- The list holds only numbers of blocks. -/
theorem Accounted.count_eq_zero (h : Accounted trace sal) {id : ℕ} (hid : sal.blocks.length ≤ id) :
    sal.ext.pHead.count id = 0 := by
  rw [List.count_eq_zero]
  intro hmem
  obtain ⟨block, hblock, -⟩ := h.waiting id hmem
  obtain ⟨hlt, -⟩ := List.getElem?_eq_some_iff.mp hblock
  omega

/-- A block on the list has had no callback and has no ATA command in the core driver. -/
theorem Accounted.of_waiting (h : Accounted trace sal) {id : ℕ} {block : Block}
    (hmem : id ∈ sal.ext.pHead) (hblock : sal.blocks[id]? = some block) :
    block.completions = [] ∧ block.outstanding = [] ∧ sal.ext.pHead.count id = 1 := by
  have honce := h.once id block hblock
  have hcount := List.count_pos_iff.mpr hmem
  refine ⟨List.length_eq_zero_iff.mp ?_, List.length_eq_zero_iff.mp ?_, ?_⟩ <;> omega

/-- The list holds every block at most once. -/
theorem Accounted.nodup (h : Accounted trace sal) : sal.ext.pHead.Nodup := by
  rw [List.nodup_iff_count_le_one]
  intro id
  by_cases hmem : id ∈ sal.ext.pHead
  · obtain ⟨block, hblock, -⟩ := h.waiting id hmem
    exact Nat.le_of_eq (h.of_waiting hmem hblock).2.2
  · rw [List.count_eq_zero.mpr hmem]
    exact Nat.zero_le 1

/-- The blocks after a call of `mvSataExecuteScsiCommand`. -/
theorem executed_blocks {scb : Scb} {reply : Reply} {id : ℕ} {block : Block}
    (hblock : (sal.executed scb reply).blocks[id]? = some block) :
    sal.blocks[id]? = some block ∨
      id = sal.blocks.length ∧ block = ⟨reply.scb, reply.completions, reply.queued.toList⟩ := by
  have happend : (sal.blocks ++ [⟨reply.scb, reply.completions, reply.queued.toList⟩])[id]? =
      some block := hblock
  by_cases hid : id < sal.blocks.length
  · rw [List.getElem?_append_left hid] at happend
    exact Or.inl happend
  · rw [List.getElem?_append_right (by omega), List.getElem?_singleton] at happend
    split at happend
    · exact Or.inr ⟨by omega, (Option.some.inj happend).symm⟩
    · cases happend

/-- A call of `mvSataExecuteScsiCommand` that is as it should be accounts for its block. -/
theorem executed_accounted {scb : Scb} {result : QueueCommandResult} {answer : SalAnswer}
    {reply : Reply} (h : Accounted trace sal) (hhandled : Handled reply) :
    Accounted (trace ++ [(.execute scb result, answer)]) (sal.executed scb reply) := by
  have hreceived : ∀ id, received id (trace ++ [(.execute scb result, answer)]) =
      received id trace := fun id => received_append
  refine ⟨?_, ?_, ?_, ?_⟩
  · intro id hid
    obtain ⟨block, hblock, hcontinues⟩ := h.waiting id hid
    obtain ⟨hlt, -⟩ := List.getElem?_eq_some_iff.mp hblock
    exact ⟨block, (List.getElem?_append_left hlt).trans hblock, hcontinues⟩
  · intro id block hblock
    rcases executed_blocks hblock with hold | ⟨rfl, rfl⟩
    · exact h.once id block hold
    · have hzero : (sal.executed scb reply).ext.pHead.count sal.blocks.length = 0 :=
        h.count_eq_zero (Nat.le_refl _)
      rw [hzero]
      exact hhandled.once.1
  · intro id block hblock
    rw [hreceived]
    rcases executed_blocks hblock with hold | ⟨rfl, rfl⟩
    · exact h.rounds id block hold
    · have hzero : (sal.executed scb reply).ext.pHead.count sal.blocks.length = 0 :=
        h.count_eq_zero (Nat.le_refl _)
      rw [hzero, h.fresh _ (Nat.le_refl _)]
      cases hhandled with
      | completed hstatus hcalled hqueued => simp [hqueued]
      | queued hstatus hcalled hqueued hremaining => simpa [hqueued] using hremaining
  · intro id hid
    rw [hreceived]
    refine h.fresh id ?_
    have hlength : (sal.executed scb reply).blocks.length = sal.blocks.length + 1 :=
      List.length_append
    omega

/-- The blocks after one was replaced. -/
theorem set_blocks {blocks : List Block} {id other : ℕ} {block new : Block}
    (hblock : (blocks.set id new)[other]? = some block) :
    other ≠ id ∧ blocks[other]? = some block ∨ other = id ∧ block = new := by
  rw [List.getElem?_set] at hblock
  by_cases heq : id = other
  · rw [if_pos heq] at hblock
    split at hblock
    · exact Or.inr ⟨heq.symm, (Option.some.inj hblock).symm⟩
    · cases hblock
  · rw [if_neg heq] at hblock
    exact Or.inl ⟨Ne.symm heq, hblock⟩

/-- The completion of an ATA command accounts for its block. -/
theorem completed_accounted {id : ℕ} {block : Block} {type : CompletionType} {answer : SalAnswer}
    (h : Accounted trace sal) (hblock : sal.blocks[id]? = some block)
    (houtstanding : block.outstanding ≠ []) :
    Accounted (trace ++ [(.completion id type, answer)]) (sal.completed id block type) := by
  have honce := h.once id block hblock
  have hpos := List.length_pos_iff.mpr houtstanding
  have hone : block.outstanding.length = 1 := by omega
  have hrounds := h.rounds id block hblock
  rw [hone] at hrounds
  have htail : block.outstanding.tail = [] := List.length_eq_zero_iff.mp (by simp [hone])
  obtain ⟨hlt, -⟩ := List.getElem?_eq_some_iff.mp hblock
  have hself : received id (trace ++ [(.completion id type, answer)]) = received id trace + 1 := by
    rw [received_append, SalEvent.completes, beq_self_eq_true, if_pos rfl]
  have hother : ∀ other, other ≠ id →
      received other (trace ++ [(.completion id type, answer)]) = received other trace := by
    intro other hne
    rw [received_append, SalEvent.completes, beq_eq_false_iff_ne.mpr (Ne.symm hne)]
    rfl
  have hfresh : ∀ other, sal.blocks.length ≤ other →
      received other (trace ++ [(.completion id type, answer)]) = 0 := by
    intro other hle
    rw [hother other (by omega)]
    exact h.fresh other hle
  have hwaiting : ∀ other ∈ sal.ext.pHead, ∀ new : Block, ∃ block',
      (sal.blocks.set id new)[other]? = some block' ∧ block'.scb.continues = true := by
    intro other hmem new
    obtain ⟨block', hblock', hcontinues⟩ := h.waiting other hmem
    refine ⟨block', ?_, hcontinues⟩
    rw [List.getElem?_set_ne ?_]
    · exact hblock'
    · rintro rfl
      have hpos := List.count_pos_iff.mpr hmem
      omega
  unfold Sal.completed
  cases hcall : salCommandCompletionCB block.scb type with
  | none =>
    have hcontinues : block.scb.continues = true := by
      cases type with
      | normal =>
        by_contra hnot
        rw [salCommandCompletionCB, if_neg hnot] at hcall
        split at hcall <;> cases hcall
      | abort => cases hcall
      | error flags registers =>
        simp only [salCommandCompletionCB] at hcall
        split at hcall <;> cases hcall
    refine ⟨?_, ?_, ?_, ?_⟩
    · intro other hmem
      rcases List.mem_cons.mp hmem with rfl | hmem
      · exact ⟨_, List.getElem?_set_self hlt, hcontinues⟩
      · exact hwaiting other hmem _
    · intro other block' hblock'
      dsimp only at hblock' ⊢
      rcases set_blocks hblock' with ⟨hne, hold⟩ | ⟨rfl, rfl⟩
      · rw [List.count_cons_of_ne (Ne.symm hne)]
        exact h.once other block' hold
      · rw [List.count_cons_self, htail]
        simp only [List.length_nil]
        omega
    · intro other block' hblock'
      dsimp only at hblock' ⊢
      rcases set_blocks hblock' with ⟨hne, hold⟩ | ⟨rfl, rfl⟩
      · rw [List.count_cons_of_ne (Ne.symm hne), hother other hne]
        exact h.rounds other block' hold
      · have hzero : sal.ext.pHead.count other = 0 := by omega
        rw [List.count_cons_self, htail, hself, hzero]
        simp only [List.length_nil]
        omega
    · intro other hle
      exact hfresh other (by simpa using hle)
  | some scb =>
    refine ⟨fun other hmem => hwaiting other hmem _, ?_, ?_, ?_⟩
    · intro other block' hblock'
      dsimp only at hblock' ⊢
      rcases set_blocks hblock' with ⟨hne, hold⟩ | ⟨rfl, rfl⟩
      · exact h.once other block' hold
      · simp only [htail, List.length_append, List.length_singleton, List.length_nil]
        omega
    · intro other block' hblock'
      dsimp only at hblock' ⊢
      rcases set_blocks hblock' with ⟨hne, hold⟩ | ⟨rfl, rfl⟩
      · rw [hother other hne]
        exact h.rounds other block' hold
      · have hzero : sal.ext.pHead.count other = 0 := by omega
        rw [hself, htail, hzero]
        simp only [List.length_nil]
        omega
    · intro other hle
      exact hfresh other (by simpa using hle)

/-- The blocks after the loop over the post-interrupt list. -/
theorem serviceLoop_blocks {results : ℕ → QueueCommandResult} {ids : List ℕ} {blocks : List Block}
    (hnodup : ids.Nodup) (id : ℕ) :
    (serviceLoop results ids blocks)[id]? =
      if id ∈ ids then blocks[id]?.map fun block => block.service (results id)
      else blocks[id]? := by
  induction ids generalizing blocks with
  | nil => simp [serviceLoop]
  | cons first rest ih =>
    obtain ⟨hfirst, hrest⟩ := List.nodup_cons.mp hnodup
    rw [serviceLoop, ih hrest]
    by_cases heq : id = first
    · subst heq
      rw [if_neg hfirst, if_pos List.mem_cons_self, List.getElem?_modify_eq]
      rfl
    · rw [List.getElem?_modify_ne _ _ (Ne.symm heq)]
      simp only [List.mem_cons, heq, false_or]

/-- Sending the next command of a block that has one to send. -/
theorem remaining_next {scb scb' : Scb} (hcontinues : scb.continues = true)
    (hop : scb'.opcode = scb.opcode) (hcount : scb'.splitCount = scb.splitCount)
    (hnumber : scb'.sequenceNumber = scb.sequenceNumber + 1) :
    scb'.remaining + 1 = scb.remaining := by
  rw [Scb.continues, Bool.and_eq_true, decide_eq_true_iff, UInt16.lt_iff_toNat_lt] at hcontinues
  have hlt := scb.splitCount.toNat_lt
  have hnext : (scb.sequenceNumber + 1).toNat = scb.sequenceNumber.toNat + 1 := by
    rw [UInt16.toNat_add]
    exact Nat.mod_eq_of_lt (by have hone : (1 : UInt16).toNat = 1 := rfl; omega)
  rw [Scb.remaining, Scb.remaining, hop, if_pos hcontinues.1, if_pos hcontinues.1, hcount, hnumber,
    hnext]
  omega

/-- One round of `mvSataScsiPostIntService` accounts for its block, but for a refused part of
a VERIFY. -/
theorem service_spec (result : QueueCommandResult) {block : Block}
    (hcontinues : block.scb.continues = true) (hcompletions : block.completions = [])
    (houtstanding : block.outstanding = []) :
    ((block.service result).completions.length + (block.service result).outstanding.length = 1 ↔
      (block.scb.opcode = some .verify6 ∨ block.scb.opcode = some .verify10 → result = .ok)) ∧
    (block.service result).outstanding.length * ((block.service result).scb.remaining + 1) ≤
      block.scb.remaining := by
  have hsplit : block.scb.opcode = some .verify6 ∨ block.scb.opcode = some .verify10 ∨
      block.scb.opcode = some .modeSelect6 := by
    have hany := (Bool.and_eq_true _ _ ▸ hcontinues).1
    cases hop : block.scb.opcode with
    | none => rw [hop] at hany; cases hany
    | some op => rw [hop] at hany; cases op <;> first | exact absurd hany (by decide) | simp
  by_cases hmode : block.scb.opcode = some .modeSelect6
  · have hservice : block.service result =
        block.followUp (mvScsiAtaSendReadLookAhead block.scb result) := by
      rw [Block.service, hmode]
    rw [hservice, hmode, Block.followUp, hcompletions, houtstanding]
    by_cases hok : result = .ok
    · rw [mvScsiAtaSendReadLookAhead, if_pos hok]
      refine ⟨by simp, ?_⟩
      simp only [List.nil_append, Option.toList_some, List.length_singleton, Nat.one_mul]
      exact Nat.le_of_eq (remaining_next hcontinues rfl rfl rfl)
    · rw [mvScsiAtaSendReadLookAhead, if_neg hok]
      exact ⟨by simp, by simp⟩
  · have hverify : block.scb.opcode = some .verify6 ∨ block.scb.opcode = some .verify10 := by
      rcases hsplit with h | h | h
      · exact Or.inl h
      · exact Or.inr h
      · exact absurd h hmode
    have hservice : block.service result =
        block.followUp (mvScsiAtaSendSplittedVerifyCommand block.scb result) := by
      rcases hverify with h | h <;> rw [Block.service, h]
    rw [hservice, Block.followUp, hcompletions, houtstanding]
    by_cases hok : result = .ok
    · rw [mvScsiAtaSendSplittedVerifyCommand, if_pos hok]
      refine ⟨by simp [hok], ?_⟩
      simp only [List.nil_append, Option.toList_some, List.length_singleton, Nat.one_mul]
      exact Nat.le_of_eq (remaining_next hcontinues rfl rfl rfl)
    · rw [mvScsiAtaSendSplittedVerifyCommand, if_neg hok]
      exact ⟨by simp [hok, hverify], by simp⟩

/-- `mvSataScsiPostIntService` keeps the accounts just if no part of a VERIFY is refused. -/
theorem postIntService_once {results : ℕ → QueueCommandResult} (h : Accounted trace sal) :
    (mvSataScsiPostIntService results sal).Once ↔ SalClean sal (.postIntService results) := by
  constructor
  · intro honce id hmem block hblock
    obtain ⟨block', hblock', hcontinues⟩ := h.waiting id hmem
    obtain rfl := Option.some.inj (hblock.symm.trans hblock')
    obtain ⟨hcompletions, houtstanding, -⟩ := h.of_waiting hmem hblock
    have hnew : (mvSataScsiPostIntService results sal).blocks[id]? =
        some (block.service (results id)) := by
      rw [mvSataScsiPostIntService, serviceLoop_blocks h.nodup, if_pos hmem, hblock]
      rfl
    exact (service_spec _ hcontinues hcompletions houtstanding).1.mp (honce id _ hnew)
  · intro hclean id block hblock
    rw [mvSataScsiPostIntService, serviceLoop_blocks h.nodup] at hblock
    show block.completions.length + block.outstanding.length + 0 = 1
    by_cases hmem : id ∈ sal.ext.pHead
    · obtain ⟨old, hold, hcontinues⟩ := h.waiting id hmem
      obtain ⟨hcompletions, houtstanding, -⟩ := h.of_waiting hmem hold
      rw [if_pos hmem, hold] at hblock
      obtain rfl := Option.some.inj hblock
      exact (service_spec _ hcontinues hcompletions houtstanding).1.mpr (hclean id hmem old hold)
    · rw [if_neg hmem] at hblock
      have honce := h.once id block hblock
      rwa [List.count_eq_zero.mpr hmem] at honce

/-- The rest of the accounts after `mvSataScsiPostIntService`. -/
theorem postIntService_accounted {results : ℕ → QueueCommandResult} {answer : SalAnswer}
    (h : Accounted trace sal) (hclean : SalClean sal (.postIntService results)) :
    Accounted (trace ++ [(.postIntService results, answer)])
      (mvSataScsiPostIntService results sal) := by
  have hreceived : ∀ id, received id (trace ++ [(.postIntService results, answer)]) =
      received id trace := fun id => received_append
  refine ⟨fun id hmem => absurd hmem List.not_mem_nil, (postIntService_once h).mpr hclean, ?_, ?_⟩
  · intro id block hblock
    rw [hreceived]
    rw [mvSataScsiPostIntService, serviceLoop_blocks h.nodup] at hblock
    show received id trace + (block.outstanding.length * (block.scb.remaining + 1) +
      0 * block.scb.remaining) ≤ 256
    by_cases hmem : id ∈ sal.ext.pHead
    · obtain ⟨old, hold, hcontinues⟩ := h.waiting id hmem
      obtain ⟨hcompletions, houtstanding, hcount⟩ := h.of_waiting hmem hold
      have hrounds := h.rounds id old hold
      have hbound := (service_spec (results id) hcontinues hcompletions houtstanding).2
      rw [if_pos hmem, hold] at hblock
      obtain rfl := Option.some.inj hblock
      rw [hcount, houtstanding] at hrounds
      simp only [List.length_nil] at hrounds
      dsimp only
      omega
    · rw [if_neg hmem] at hblock
      have hrounds := h.rounds id block hblock
      rwa [List.count_eq_zero.mpr hmem] at hrounds
  · intro id hle
    rw [hreceived]
    refine h.fresh id ?_
    by_contra hlt
    have hold : sal.blocks[id]? = some sal.blocks[id] := List.getElem?_eq_getElem (by omega)
    have hnew : ∃ block, (mvSataScsiPostIntService results sal).blocks[id]? = some block := by
      rw [mvSataScsiPostIntService, serviceLoop_blocks h.nodup, hold]
      split <;> exact ⟨_, rfl⟩
    obtain ⟨block, hblock⟩ := hnew
    obtain ⟨hlt', -⟩ := List.getElem?_eq_some_iff.mp hblock
    omega

/-- A call from an accounted state keeps the accounts, and answers honestly, just if it meets
its condition. -/
theorem salStep_accounted {event : SalEvent} {answer : SalAnswer} (h : Accounted trace sal)
    (hstep : salStep sal event = some (answer, sal')) :
    (SalClean sal event → Accounted (trace ++ [(event, answer)]) sal') ∧
      (sal'.Once ∧ answer.Honest ↔ SalClean sal event) := by
  cases event with
  | execute scb result =>
    cases hstep
    constructor
    · intro hclean
      exact executed_accounted h (mvSataExecuteScsiCommand_handled hclean)
    · constructor
      · rintro ⟨honce, hhonest⟩
        by_contra hclean
        refine (mvSataExecuteScsiCommand_unclean hclean).1 ⟨?_, hhonest⟩
        have hnew := honce sal.blocks.length
          ⟨(mvSataExecuteScsiCommand sal.ext scb result).scb,
            (mvSataExecuteScsiCommand sal.ext scb result).completions,
            (mvSataExecuteScsiCommand sal.ext scb result).queued.toList⟩ (by simp [Sal.executed])
        have hzero := h.count_eq_zero (Nat.le_refl _)
        change _ + _ + sal.ext.pHead.count _ = 1 at hnew
        rwa [hzero] at hnew
      · intro hclean
        have hhandled := mvSataExecuteScsiCommand_handled hclean
        have hnext : Accounted (trace ++ [(.execute scb result, .done)])
            (sal.executed scb (mvSataExecuteScsiCommand sal.ext scb result)) :=
          executed_accounted h hhandled
        exact ⟨hnext.once, hhandled.once.2⟩
  | completion id type =>
    simp only [salStep] at hstep
    split at hstep
    · cases hstep
    · rename_i block hblock
      split at hstep
      · cases hstep
      · rename_i houtstanding
        cases hstep
        have hnext : Accounted (trace ++ [(.completion id type, .done)])
            (sal.completed id block type) := completed_accounted h hblock houtstanding
        exact ⟨fun _ => hnext, fun _ => trivial, fun _ => ⟨hnext.once, trivial⟩⟩
  | postIntService results =>
    cases hstep
    constructor
    · exact postIntService_accounted h
    · constructor
      · exact fun hgood => (postIntService_once h).mp hgood.1
      · exact fun hclean => ⟨(postIntService_once h).mpr hclean, trivial⟩
  | setDriveReady channelIndex pmPort isReady =>
    cases hstep
    have hhead : (mvSataScsiSetDriveReady sal.ext channelIndex pmPort isReady).pHead =
        sal.ext.pHead := by
      unfold mvSataScsiSetDriveReady
      split <;> rfl
    have hnext : Accounted (trace ++ [(.setDriveReady channelIndex pmPort isReady, .done)])
        { sal with ext := mvSataScsiSetDriveReady sal.ext channelIndex pmPort isReady } :=
      h.frame rfl hhead fun _ => rfl
    exact ⟨fun _ => hnext, fun _ => trivial, fun _ => ⟨hnext.once, trivial⟩⟩
  | notifyUA channelIndex pmPort =>
    cases hstep
    have hnext : Accounted (trace ++ [(.notifyUA channelIndex pmPort, .done)])
        { sal with ext := mvSataScsiNotifyUA sal.ext channelIndex pmPort } :=
      h.frame rfl rfl fun _ => rfl
    exact ⟨fun _ => hnext, fun _ => trivial, fun _ => ⟨hnext.once, trivial⟩⟩
  | identify channelIndex pmPort info =>
    cases hstep
    have hnext : Accounted (trace ++ [(.identify channelIndex pmPort info, .done)])
        { sal with
          ext := sal.ext.setDrive channelIndex pmPort
            { sal.ext.ataDriveData channelIndex pmPort with identifyInfo := info } } :=
      h.frame rfl rfl fun _ => rfl
    exact ⟨fun _ => hnext, fun _ => trivial, fun _ => ⟨hnext.once, trivial⟩⟩

/-- The callback of every block. In every run whose calls meet their conditions, a block has
had its callback called once, or it has one ATA command in the core driver or one place
on the post-interrupt list and has not, and it has had at most 256 ATA commands
completed; the values returned are honest. The conditions are exact: the first call
that does not meet its own breaks one of the two. -/
theorem salRun_completes_once {memory : SalAdapterExtension} {numberOfChannels : UInt8}
    {resetOnly : Bool} {trace : List (SalEvent × SalAnswer)} {sal : Sal}
    (hrun : Run salStep SalClean (salInit memory numberOfChannels resetOnly) trace sal) :
    (∀ id block, sal.blocks[id]? = some block →
      block.completions.length + block.outstanding.length + sal.ext.pHead.count id = 1 ∧
        received id trace ≤ 256) ∧
    (∀ event answer, (event, answer) ∈ trace → answer.Honest) ∧
    ∀ event answer sal', salStep sal event = some (answer, sal') →
      (sal'.Once ∧ answer.Honest ↔ SalClean sal event) := by
  have hstart : Accounted [] (salInit memory numberOfChannels resetOnly) := by
    have hhead : (salInit memory numberOfChannels resetOnly).ext.pHead = [] := by
      cases resetOnly <;> rfl
    refine ⟨?_, fun id block hblock => ?_, fun id block hblock => ?_, fun id _ => rfl⟩
    · rw [hhead]
      exact fun id hmem => absurd hmem List.not_mem_nil
    · cases hblock
    · cases hblock
  have hall : Accounted trace sal ∧ ∀ event answer, (event, answer) ∈ trace → answer.Honest := by
    refine Run.invariant (I := fun trace sal => Accounted trace sal ∧
      ∀ event answer, (event, answer) ∈ trace → answer.Honest) ?_ ?_ hrun
    · exact ⟨hstart, fun event answer hmem => absurd hmem List.not_mem_nil⟩
    · rintro trace sal event answer sal' ⟨haccounted, hhonest⟩ hclean hstep
      obtain ⟨hnext, hiff⟩ := salStep_accounted haccounted hstep
      refine ⟨hnext hclean, fun event' answer' hmem => ?_⟩
      rcases List.mem_append.mp hmem with hmem | hmem
      · exact hhonest event' answer' hmem
      · obtain ⟨rfl, rfl⟩ := Prod.mk.inj (List.mem_singleton.mp hmem)
        exact (hiff.mpr hclean).2
  obtain ⟨haccounted, hhonest⟩ := hall
  refine ⟨fun id block hblock => ⟨haccounted.once id block hblock, ?_⟩, hhonest, ?_⟩
  · have hrounds := haccounted.rounds id block hblock
    omega
  · intro event answer sal' hstep
    exact (salStep_accounted haccounted hstep).2

/-- A VERIFY of 300 sectors from sector 16 of the first drive. -/
def verifyScb : Scb := hostBlock [0x2F, 0, 0, 0, 0, 16, 0, 1, 44, 0] 0

/-- Memory for drives with 28 bit addresses and no event pending. -/
def smallDriveMemory : SalAdapterExtension :=
  { numberOfChannels := 0
    pHead := []
    uaMask := 0
    ataDriveData := fun _ _ => { smallDrive with driveReady := false } }

/-- The VERIFY is sent in two parts, and its callback is called when the second one has been
completed. -/
theorem salRun_completes_once_verify :
    ∃ trace sal block, Run salStep SalClean (salInit smallDriveMemory 1 true) trace sal ∧
      sal.blocks[0]? = some block ∧ block.completions.length = 1 ∧
      block.completions.length + block.outstanding.length + sal.ext.pHead.count 0 = 1 := by
  obtain ⟨trace, sal, block, hrun, hblock, hcalled⟩ : ∃ trace sal block,
      Run salStep SalClean (salInit smallDriveMemory 1 true) trace sal ∧
        sal.blocks[0]? = some block ∧ block.completions.length = 1 := by
    have hexecute : ∀ sal : Sal, SalClean sal (.execute verifyScb .ok) := by
      intro sal _ _ _ op hop
      obtain rfl := Option.some.inj hop
      exact fun _ => rfl
    have hservice : ∀ sal : Sal, SalClean sal (.postIntService fun _ => .ok) :=
      fun sal _ _ _ _ _ => rfl
    have hready : ∀ sal : Sal, SalClean sal (.setDriveReady 0 0 true) := fun sal => trivial
    have hcompletion : ∀ sal : Sal, SalClean sal (.completion 0 .normal) := fun sal => trivial
    exact ⟨_, _, _, Run.next (Run.next (Run.next (Run.next (Run.next .start (hready _) rfl)
      (hexecute _) rfl) (hcompletion _) rfl) (hservice _) rfl) (hcompletion _) rfl, rfl, rfl⟩
  exact ⟨trace, sal, block, hrun, hblock, hcalled,
    ((salRun_completes_once hrun).1 0 block hblock).1⟩

/-- The core driver refuses the first part of the VERIFY: the value returned says that the
command is queued, the callback has not been called, and nothing is left to call it. -/
theorem salRun_verify_hangs :
    ∃ trace sal block reply, Run salStep (fun _ _ => True)
      (salInit smallDriveMemory 1 true) trace sal ∧
      (.execute verifyScb .full, .executed reply) ∈ trace ∧ reply.status = .queued ∧
      sal.blocks[0]? = some block ∧ block.completions = [] ∧ block.outstanding = [] ∧
      sal.ext.pHead = [] := by
  refine ⟨_, _, _, _, Run.of_exec [.setDriveReady 0 0 true, .execute verifyScb .full] rfl,
    List.mem_cons_of_mem _ List.mem_cons_self, rfl, rfl, rfl, rfl, rfl⟩

end Run

end Mv88fxx81.Sata
