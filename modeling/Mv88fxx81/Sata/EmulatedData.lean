import Mv88fxx81.Sata.AtaRange
import Mv88fxx81.Sata.Inquiry
import Mv88fxx81.Sata.Sal

/-!
# The buffers of emulated commands

The commands that the layer answers on its own write their data to the data buffer of the block,
and errors write sense data to its sense buffer. Both buffers may have any length. The handlers
with the data of their answers are in the namespace `Full`. All of them but two keep to the lengths:
READ CAPACITY always writes eight bytes, and the sense data of a failed ATA command always has the
length thirteen.
-/

namespace Mv88fxx81.Sata

/-- What the data of an answer is made from, next to the data of the drive: the strings and a word
of the identify data, the local arrays of the call, and the mode of the channel. -/
structure DriveContents where
  strings : IdentifyStrings
  locals : InquiryLocals
  identifyWord85 : UInt16
  nativeQueuing : Bool

section Pages

/-- `mvModeSenseCachingPage`. -/
def mvModeSenseCachingPage (contents : DriveContents) (drive : DriveData) (pageControl : UInt8) :
    List UInt8 :=
  let info := drive.identifyInfo
  let fixed : UInt8 → UInt8 := fun value => if pageControl ≠ 1 then value else 0
  let writeCache :=
    if pageControl = 0 then info.writeCacheSupported && contents.identifyWord85 &&& 0x20 != 0
    else info.writeCacheSupported
  let lookAheadDisabled :=
    if pageControl = 2 then !info.readAheadSupported
    else if pageControl = 0 then
      !(info.readAheadSupported && contents.identifyWord85 &&& 0x40 != 0)
    else info.readAheadSupported
  [0x08, 0x12, if writeCache then 0x04 else 0, 0, fixed 0xff, fixed 0xff, 0, 0, 0, fixed 0x10, 0,
    fixed 0x10, if lookAheadDisabled then 0x20 else 0, fixed 0x01, fixed 0xff, fixed 0xff, 0, 0, 0,
    0]

/-- `mvModeSenseControlPage`. -/
def mvModeSenseControlPage (pageControl : UInt8) : List UInt8 :=
  [0x0a, 0x0a, 0, if pageControl ≠ 1 then 0x10 else 0, 0, 0, 0, 0, 0, 0, 0, 0]

/-- The mode pages that a page code asks for. -/
def modePageData (contents : DriveContents) (drive : DriveData) (pageCode pageControl : UInt8) :
    Option (List UInt8) :=
  if pageCode = 0x3f then
    some (mvModeSenseCachingPage contents drive pageControl ++ mvModeSenseControlPage pageControl)
  else if pageCode = 0x08 then some (mvModeSenseCachingPage contents drive pageControl)
  else if pageCode = 0x0a then some (mvModeSenseControlPage pageControl)
  else none

end Pages

namespace Full

/-- `mvScsiAtaGetInquiryData`. -/
def mvScsiAtaGetInquiryData (contents : DriveContents) (drive : DriveData) (scb : Scb) : Reply :=
  if inquiryInvalid scb then
    if drive.uaConditionPending then reportUnitAttention drive scb
    else finish drive (rejected scb .badScsiCommand .illegalRequest .invalidCdb)
  else
    let buff := inquiryBuffer contents.strings contents.locals scb.lun
    let inquiryLen : UInt32 := if scb.lun ≠ 0 then 5 else 42
    let length := if scb.dataBufferLength > inquiryLen then inquiryLen else scb.dataBufferLength
    finish drive
      (succeeded { scb with pDataBuffer := copyBytes scb.pDataBuffer buff length.toNat } length)

/-- `mvScsiAtaGetModeSenseDataPhase2`. A page code that is not known is an error only after the
header has been copied. -/
def mvScsiAtaGetModeSenseDataPhase2 (contents : DriveContents) (drive : DriveData) (scb : Scb) :
    Scb :=
  let pageCode := scb.cmd 2 &&& 0x3f
  let pageControl := (scb.cmd 2 &&& 0xc0) >>> 6
  let header : List UInt8 := [0, if contents.nativeQueuing then 0x10 else 0, 0]
  let scb := scb.clearData
  if pageControl = 3 then
    rejected scb .badScsiCommand .illegalRequest .savingParametersNotSupported
  else
    match modePageData contents drive pageCode pageControl with
    | none =>
      rejected { scb with
        pDataBuffer := copyBytes scb.pDataBuffer (3 :: header)
          (if scb.dataBufferLength < 4 then scb.dataBufferLength.toNat else 4) }
        .badScsiCommand .illegalRequest .invalidCdb
    | some pages =>
      let offset := 4 + pages.length
      let length := if scb.dataBufferLength.toNat < offset then scb.dataBufferLength
        else UInt32.ofNat offset
      { scb with
        pDataBuffer := copyBytes scb.pDataBuffer
          (UInt8.ofNat (offset - 1) :: header ++ pages) length.toNat
        dataTransfered := length
        scsiCommandCompletion := .success
        scsiStatus := .good }

/-- The last switch of `mvSataExecuteScsiCommand`. -/
def dispatch (contents : DriveContents) (drive : DriveData) (scb : Scb)
    (result : QueueCommandResult) : ScsiOpcode → Reply
  | .inquiry => mvScsiAtaGetInquiryData contents drive scb
  | op => Sata.dispatch drive scb result op

/-- The part of `mvSataExecuteScsiCommand` for a block that has found its drive. -/
def executeOnDrive (contents : DriveContents) (drive : DriveData) (scb : Scb)
    (result : QueueCommandResult) : Reply :=
  if attentionFirst drive scb then reportUnitAttention drive scb
  else if invalidCdb scb then
    finish drive (rejected scb .badScsiCommand .illegalRequest .invalidCdb)
  else
    match scb.opcode with
    | none => finish drive (rejected scb .badScsiCommand .illegalRequest .illegalCommand)
    | some op => { dispatch contents drive scb result op with executed := some op }

/-- `mvSataExecuteScsiCommand`. -/
def mvSataExecuteScsiCommand (contents : DriveContents) (ext : SalAdapterExtension) (scb : Scb)
    (result : QueueCommandResult) : Reply :=
  let drive := ext.ataDriveData scb.bus scb.target
  if findsDrive ext scb then executeOnDrive contents drive scb.clear result
  else
    finish drive
      { scb.clear with
        scsiCommandCompletion :=
          if scb.bus < ext.numberOfChannels then .noDevice else .invalidBus }

/-- `SALCommandCompletionCB`. -/
def salCommandCompletionCB (contents : DriveContents) (drive : DriveData) (scb : Scb) :
    CompletionType → Option Scb
  | .normal =>
    if scb.continues then none
    else if scb.opcode = some .modeSense6 then
      some (mvScsiAtaGetModeSenseDataPhase2 contents drive scb)
    else some { scb with scsiStatus := .good, scsiCommandCompletion := .success }
  | type => Sata.salCommandCompletionCB scb type

end Full

/-- The lists of a block are its two buffers. A store behind the end of a buffer makes its list
longer. -/
def Scb.HasBuffers (scb : Scb) : Prop :=
  scb.pDataBuffer.length = scb.dataBufferLength.toNat ∧
    scb.pSenseBuffer.length = scb.senseBufferLength.toNat

instance (scb : Scb) : Decidable scb.HasBuffers := inferInstanceAs (Decidable (_ ∧ _))

/-- A block as its callback is given it keeps to the buffers of the block that the host has handed
over: nothing is stored behind them, and the lengths reported are no greater than theirs. -/
structure WithinBuffers (original scb : Scb) : Prop where
  data_inside : scb.pDataBuffer.length = original.dataBufferLength.toNat
  sense_inside : scb.pSenseBuffer.length = original.senseBufferLength.toNat
  transfered_le : scb.dataTransfered ≤ original.dataBufferLength
  sense_le : scb.senseDataLength ≤ original.senseBufferLength

/-- A block that the layer works on: it keeps to its buffers, and still has its lengths and its
CDB. -/
structure Kept (original scb : Scb) : Prop extends WithinBuffers original scb where
  cdb_eq : scb.scsiCdb = original.scsiCdb
  dataBufferLength_eq : scb.dataBufferLength = original.dataBufferLength
  senseBufferLength_eq : scb.senseBufferLength = original.senseBufferLength

/-- A READ or WRITE. -/
def Scb.transfersData (scb : Scb) : Bool := scb.opcode.any fun op => op.dataForm.isSome

/-- A block with an ATA command in the core driver. -/
structure Sent (original scb : Scb) : Prop extends Kept original scb where
  udma_iff : scb.commandType = .udma ↔ original.transfersData = true

/-- What a call does to a block: its callbacks are given blocks that keep to the buffers, and so is
the block that is left with an ATA command. -/
structure CallKeeps (original : Scb) (completions : List Scb) (queued : Option QueueCommandInfo)
    (scb : Scb) : Prop where
  completions_kept : ∀ answer ∈ completions, Kept original answer
  sent : queued ≠ none → Sent original scb

/-- A reply keeps to the buffers. -/
def Reply.Keeps (original : Scb) (reply : Reply) : Prop :=
  CallKeeps original reply.completions reply.queued reply.scb

section Blocks

variable {original scb : Scb} {drive : DriveData} {result : QueueCommandResult}

theorem copyBytes_length (buffer bytes : List UInt8) (length : ℕ) :
    (copyBytes buffer bytes length).length = max buffer.length (min length bytes.length) := by
  simp only [copyBytes, List.length_append, List.length_drop, List.length_take]
  omega

/-- A copy that is no longer than the buffer. -/
theorem copyBytes_inside {buffer bytes : List UInt8} {length : ℕ} (hle : length ≤ buffer.length) :
    (copyBytes buffer bytes length).length = buffer.length := by
  rw [copyBytes_length]
  omega

/-- The call starts with the block as the host has handed it over. -/
theorem Scb.HasBuffers.clear_kept (hbuffers : scb.HasBuffers) : Kept scb scb.clear :=
  ⟨⟨hbuffers.1, hbuffers.2, UInt32.zero_le, UInt32.zero_le⟩, rfl, rfl, rfl⟩

theorem Kept.clearData (h : Kept original scb) : Kept original scb.clearData := by
  refine ⟨⟨?_, h.sense_inside, h.transfered_le, h.sense_le⟩, h.cdb_eq, h.dataBufferLength_eq,
    h.senseBufferLength_eq⟩
  have hlength := h.data_inside
  have heq := h.dataBufferLength_eq
  simp only [Scb.clearData, List.length_append, List.length_replicate, List.length_drop, hlength,
    heq]
  omega

/-- Data is copied to the data buffer, not more than it has room for. -/
theorem Kept.copy (h : Kept original scb) {bytes : List UInt8} {length : ℕ}
    (hle : length ≤ original.dataBufferLength.toNat) :
    Kept original { scb with pDataBuffer := copyBytes scb.pDataBuffer bytes length } := by
  refine ⟨⟨?_, h.sense_inside, h.transfered_le, h.sense_le⟩, h.cdb_eq, h.dataBufferLength_eq,
    h.senseBufferLength_eq⟩
  rw [← h.data_inside] at hle ⊢
  exact copyBytes_inside hle

theorem Kept.succeeded (h : Kept original scb) {length : UInt32}
    (hle : length ≤ original.dataBufferLength) : Kept original (succeeded scb length) :=
  ⟨⟨h.data_inside, h.sense_inside, hle, UInt32.zero_le⟩, h.cdb_eq, h.dataBufferLength_eq,
    h.senseBufferLength_eq⟩

/-- `setSenseData` copies as much of the sense data as there is room for. -/
theorem Kept.setSenseData (h : Kept original scb) (key : SenseKey) (asc : AdditionalSense)
    (ascq : UInt8) : Kept original (setSenseData scb key asc ascq) := by
  have heq := h.senseBufferLength_eq
  have hsense := h.sense_inside
  unfold Sata.setSenseData
  by_cases hzero : scb.senseBufferLength = 0
  · rw [if_pos hzero]
    exact ⟨⟨h.data_inside, hsense, h.transfered_le, UInt32.zero_le⟩, h.cdb_eq,
      h.dataBufferLength_eq, heq⟩
  · rw [if_neg hzero]
    dsimp only
    have hle : (if scb.senseBufferLength < 18 then scb.senseBufferLength else 18) ≤
        original.senseBufferLength := by
      rw [← heq]
      by_cases hlt : scb.senseBufferLength < 18
      · rw [if_pos hlt]
        exact UInt32.le_refl _
      · rw [if_neg hlt]
        exact UInt32.not_lt.1 hlt
    refine ⟨⟨h.data_inside, ?_, h.transfered_le, hle⟩, h.cdb_eq, h.dataBufferLength_eq, heq⟩
    rw [← hsense]
    refine copyBytes_inside ?_
    rw [hsense]
    exact UInt32.le_iff_toNat_le.1 hle

theorem Kept.rejected (h : Kept original scb) (completion : ScsiCompletion) (key : SenseKey)
    (asc : AdditionalSense) : Kept original (rejected scb completion key asc) := by
  have hsense := h.setSenseData key asc 0
  exact ⟨⟨hsense.data_inside, hsense.sense_inside, UInt32.zero_le, hsense.sense_le⟩, hsense.cdb_eq,
    hsense.dataBufferLength_eq, hsense.senseBufferLength_eq⟩

theorem Kept.checkQueueCommandResult (h : Kept original scb) (result : QueueCommandResult) :
    Kept original (checkQueueCommandResult scb result) := by
  cases result <;> exact ⟨⟨h.data_inside, h.sense_inside, UInt32.zero_le, UInt32.zero_le⟩,
    h.cdb_eq, h.dataBufferLength_eq, h.senseBufferLength_eq⟩

/-- The operation of a block is that of its CDB. -/
theorem Kept.opcode_eq (h : Kept original scb) : scb.opcode = original.opcode := by
  rw [Scb.opcode, Scb.cmd, h.cdb_eq]
  rfl

theorem finish_keeps (h : Kept original scb) : (finish drive scb).Keeps original :=
  ⟨fun _ hmem => List.mem_singleton.1 hmem ▸ h, fun hqueued => absurd rfl hqueued⟩

theorem lbaOutOfRange_keeps (h : Kept original scb) : (lbaOutOfRange drive scb).Keeps original :=
  finish_keeps (h.rejected _ _ _)

theorem queueOrFinish_keeps (h : Sent original scb) {info : QueueCommandInfo} :
    (queueOrFinish drive scb info result).Keeps original := by
  unfold queueOrFinish
  by_cases hok : result = .ok
  · rw [if_pos hok]
    exact ⟨fun _ hmem => absurd hmem List.not_mem_nil, fun _ => h⟩
  · rw [if_neg hok]
    exact finish_keeps (h.toKept.checkQueueCommandResult result)

end Blocks

section Handlers

variable {original scb : Scb} {contents : DriveContents} {drive : DriveData}
  {result : QueueCommandResult}

/-- Other fields of a block do not matter. -/
theorem Kept.frame {scb' : Scb} (h : Kept original scb)
    (hfields : (scb'.scsiCdb, scb'.pDataBuffer, scb'.dataBufferLength, scb'.pSenseBuffer,
        scb'.senseBufferLength, scb'.dataTransfered, scb'.senseDataLength) =
      (scb.scsiCdb, scb.pDataBuffer, scb.dataBufferLength, scb.pSenseBuffer,
        scb.senseBufferLength, scb.dataTransfered, scb.senseDataLength)) : Kept original scb' := by
  simp only [Prod.mk.injEq] at hfields
  obtain ⟨hcdb, hdata, hdataLength, hsense, hsenseLength, htransfered, hlength⟩ := hfields
  exact ⟨⟨hdata ▸ h.data_inside, hsense ▸ h.sense_inside, htransfered ▸ h.transfered_le,
    hlength ▸ h.sense_le⟩, hcdb ▸ h.cdb_eq, hdataLength ▸ h.dataBufferLength_eq,
    hsenseLength ▸ h.senseBufferLength_eq⟩

/-- A block that has transferred nothing. -/
theorem Kept.nothing {scb' : Scb} (h : Kept original scb)
    (hfields : (scb'.scsiCdb, scb'.pDataBuffer, scb'.dataBufferLength, scb'.pSenseBuffer,
        scb'.senseBufferLength, scb'.dataTransfered) =
      (scb.scsiCdb, scb.pDataBuffer, scb.dataBufferLength, scb.pSenseBuffer,
        scb.senseBufferLength, 0))
    (hle : scb'.senseDataLength ≤ original.senseBufferLength) : Kept original scb' := by
  simp only [Prod.mk.injEq] at hfields
  obtain ⟨hcdb, hdata, hdataLength, hsense, hsenseLength, htransfered⟩ := hfields
  exact ⟨⟨hdata ▸ h.data_inside, hsense ▸ h.sense_inside, htransfered ▸ UInt32.zero_le, hle⟩,
    hcdb ▸ h.cdb_eq, hdataLength ▸ h.dataBufferLength_eq, hsenseLength ▸ h.senseBufferLength_eq⟩

/-- A block with an ATA command that is not a UDMA command. -/
theorem Kept.sent_noneUdma (h : Kept original scb) (htype : scb.commandType = .noneUdma)
    (hdata : original.transfersData = false) : Sent original scb :=
  ⟨h, by simp [htype, hdata]⟩

theorem mvScsiAtaSendDataCommand_keeps (h : Kept original scb)
    (hdata : original.transfersData = true) :
    (mvScsiAtaSendDataCommand drive scb result).Keeps original := by
  unfold mvScsiAtaSendDataCommand
  dsimp only
  generalize (if dataCount scb = 0 then (256 : UInt16) else dataCount scb) = sectors
  split
  · split
    · exact lbaOutOfRange_keeps h
    · exact finish_keeps (h.succeeded UInt32.zero_le)
  · split
    · exact lbaOutOfRange_keeps h
    · split
      · exact finish_keeps (h.nothing (by rfl) UInt32.zero_le)
      · rename_i hfits
        -- The command is for as many bytes as the data buffer has.
        have hlength : sectors.toUInt32 * 512 = original.dataBufferLength := by
          rw [← h.dataBufferLength_eq]
          exact Decidable.not_not.1 fun hne => hfits (Or.inr hne)
        refine queueOrFinish_keeps ?_
        refine ⟨⟨⟨h.data_inside, h.sense_inside, ?_, h.sense_le⟩, h.cdb_eq, h.dataBufferLength_eq,
          h.senseBufferLength_eq⟩, ?_⟩
        · exact hlength ▸ UInt32.le_refl _
        · simp [hdata]

theorem splittedVerify_keeps (h : Kept original scb) (htype : scb.commandType = .noneUdma)
    (hdata : original.transfersData = false) :
    CallKeeps original (mvScsiAtaSendSplittedVerifyCommand scb result).completions
      (mvScsiAtaSendSplittedVerifyCommand scb result).queued
      (mvScsiAtaSendSplittedVerifyCommand scb result).scb := by
  unfold mvScsiAtaSendSplittedVerifyCommand
  dsimp only
  by_cases hok : result = .ok
  · rw [if_pos hok]
    exact ⟨fun _ hmem => absurd hmem List.not_mem_nil,
      fun _ => Kept.sent_noneUdma (h.frame (by rfl)) htype hdata⟩
  · rw [if_neg hok]
    exact ⟨fun _ hmem => absurd hmem List.not_mem_nil, fun hqueued => absurd rfl hqueued⟩

theorem mvScsiAtaSendVerifyCommand_keeps (h : Kept original scb)
    (hdata : original.transfersData = false) :
    (mvScsiAtaSendVerifyCommand drive scb result).Keeps original := by
  unfold mvScsiAtaSendVerifyCommand
  dsimp only
  split
  · split
    · exact lbaOutOfRange_keeps h
    · exact finish_keeps (h.succeeded UInt32.zero_le)
  · split
    · exact lbaOutOfRange_keeps h
    · split
      · exact queueOrFinish_keeps (Kept.sent_noneUdma (h.frame (by rfl)) (by rfl) hdata)
      · exact splittedVerify_keeps (h.frame (by rfl)) (by rfl) hdata

theorem readLookAhead_keeps (h : Kept original scb) (hdata : original.transfersData = false) :
    CallKeeps original (mvScsiAtaSendReadLookAhead scb result).completions
      (mvScsiAtaSendReadLookAhead scb result).queued
      (mvScsiAtaSendReadLookAhead scb result).scb := by
  unfold mvScsiAtaSendReadLookAhead
  dsimp only
  by_cases hok : result = .ok
  · rw [if_pos hok]
    exact ⟨fun _ hmem => absurd hmem List.not_mem_nil,
      fun _ => Kept.sent_noneUdma (h.frame (by rfl)) (by rfl) hdata⟩
  · rw [if_neg hok]
    refine ⟨fun _ hmem => ?_, fun hqueued => absurd rfl hqueued⟩
    rw [List.mem_singleton.1 hmem]
    exact Kept.checkQueueCommandResult (h.frame (by rfl)) result

/-- A MODE SELECT keeps to the buffers, whether its parameter list is accepted or not. -/
def SelectKeeps (original : Scb) : Except (ModeSelectError × Scb) Reply → Prop
  | .error (_, scb) => Kept original scb
  | .ok reply => reply.Keeps original

theorem mvParseModeCachingPage_keeps (h : Kept original scb)
    (hdata : original.transfersData = false) (page : ℕ → UInt8) :
    SelectKeeps original (mvParseModeCachingPage drive scb page result) := by
  unfold mvParseModeCachingPage
  dsimp only
  split
  · exact h
  split
  · exact h.frame (by rfl)
  split
  · split
    · exact h.frame (by rfl)
    · exact queueOrFinish_keeps (Kept.sent_noneUdma (h.frame (by rfl)) (by rfl) hdata)
  split
  · exact queueOrFinish_keeps (Kept.sent_noneUdma (h.frame (by rfl)) (by rfl) hdata)
  split
  · exact readLookAhead_keeps (h.frame (by rfl)) hdata
  · exact finish_keeps (h.nothing (by rfl) h.sense_le)

theorem modeSelect_keeps (h : Kept original scb) (hdata : original.transfersData = false) :
    SelectKeeps original (modeSelect drive scb result) := by
  unfold modeSelect
  cases modeParameterList scb with
  | error error => exact h
  | ok position =>
    cases position with
    | none => exact finish_keeps (h.nothing (by rfl) h.sense_le)
    | some offset => exact mvParseModeCachingPage_keeps h hdata _

theorem mvScsiAtaModeSelect_keeps (h : Kept original scb)
    (hdata : original.transfersData = false) :
    (mvScsiAtaModeSelect drive scb result).Keeps original := by
  have hselect : SelectKeeps original (modeSelect drive scb result) := modeSelect_keeps h hdata
  unfold mvScsiAtaModeSelect
  cases hresult : modeSelect drive scb result with
  | error error =>
    rw [hresult] at hselect
    exact finish_keeps (Kept.rejected hselect _ _ _)
  | ok reply =>
    rw [hresult] at hselect
    exact hselect

theorem mvScsiAtaSeek_keeps (h : Kept original scb) :
    (mvScsiAtaSeek drive scb).Keeps original := by
  unfold mvScsiAtaSeek
  split
  · exact lbaOutOfRange_keeps h
  · exact finish_keeps (h.succeeded UInt32.zero_le)

theorem mvScsiAtaSendSyncCacheCommand_keeps (h : Kept original scb)
    (hdata : original.transfersData = false) :
    (mvScsiAtaSendSyncCacheCommand drive scb result).Keeps original := by
  unfold mvScsiAtaSendSyncCacheCommand
  dsimp only
  split
  · exact finish_keeps (h.rejected _ _ _)
  · split
    · exact lbaOutOfRange_keeps h
    · exact queueOrFinish_keeps (Kept.sent_noneUdma (h.frame (by rfl)) (by rfl) hdata)

theorem reportUnitAttention_keeps (h : Kept original scb) :
    (reportUnitAttention drive scb).Keeps original := by
  refine ⟨fun answer hmem => ?_, fun hqueued => absurd rfl hqueued⟩
  rw [List.mem_singleton.1 hmem]
  cases drive.firstEvent with
  | none => exact h.nothing (by rfl) h.sense_le
  | some event =>
    have hreport : Kept original (event.report scb) :=
      Kept.setSenseData (h.frame (by rfl)) _ _ _
    exact hreport.nothing (by rfl) hreport.sense_le

theorem inquiry_keeps (h : Kept original scb) :
    (Full.mvScsiAtaGetInquiryData contents drive scb).Keeps original := by
  unfold Full.mvScsiAtaGetInquiryData
  dsimp only
  split
  · split
    · exact reportUnitAttention_keeps h
    · exact finish_keeps (h.rejected _ _ _)
  · have hle : ∀ inquiryLen : UInt32,
        (if scb.dataBufferLength > inquiryLen then inquiryLen else scb.dataBufferLength) ≤
          original.dataBufferLength := by
      intro inquiryLen
      rw [← h.dataBufferLength_eq]
      split
      · rename_i hgt
        exact UInt32.le_of_lt hgt
      · exact UInt32.le_refl _
    exact finish_keeps (Kept.succeeded (h.copy (UInt32.le_iff_toNat_le.1 (hle _))) (hle _))

theorem requestSenseAnswer_kept (h : Kept original scb) (sense : SenseData) :
    Kept original (requestSenseAnswer scb sense) := by
  have hle : (if scb.dataBufferLength ≥ 18 then 18 else scb.dataBufferLength) ≤
      original.dataBufferLength := by
    rw [← h.dataBufferLength_eq]
    split
    · assumption
    · exact UInt32.le_refl _
  exact Kept.succeeded (h.clearData.copy (UInt32.le_iff_toNat_le.1 hle)) hle

theorem requestSense_keeps (h : Kept original scb) :
    (mvScsiAtaGetRequestSenseData drive scb).Keeps original := by
  unfold mvScsiAtaGetRequestSenseData
  split
  · exact ⟨fun answer hmem => List.mem_singleton.1 hmem ▸ requestSenseAnswer_kept h _,
      fun hqueued => absurd rfl hqueued⟩
  · exact finish_keeps (requestSenseAnswer_kept h _)

/-- The CDB of a READ CAPACITY asks for something that is refused. -/
def capacityRefused (scb : Scb) : Bool :=
  decide (scb.cmd 8 &&& 0x02 = 0 ∧
    (scb.cmd 2 ≠ 0 ∨ scb.cmd 3 ≠ 0 ∨ scb.cmd 4 ≠ 0 ∨ scb.cmd 5 ≠ 0))

theorem readCapacity_keeps (h : Kept original scb)
    (hfits : capacityRefused scb = true ∨ 8 ≤ original.dataBufferLength) :
    (mvScsiAtaGetReadCapacityData drive scb).Keeps original := by
  unfold mvScsiAtaGetReadCapacityData
  split
  · exact finish_keeps (h.rejected _ _ _)
  · rename_i hvalid
    rcases hfits with hrefused | hle
    · exact absurd (of_decide_eq_true hrefused) hvalid
    · exact finish_keeps (Kept.succeeded (h.clearData.copy (UInt32.le_iff_toNat_le.1 hle)) hle)

/-- The kind of ATA command that an operation leads to. -/
theorem transfersData_eq {op : ScsiOpcode} (h : Kept original scb) (hop : scb.opcode = some op) :
    original.transfersData = op.dataForm.isSome := by
  rw [Scb.transfersData, ← h.opcode_eq, hop]
  rfl

/-- All handlers keep to the buffers, READ CAPACITY if there is room for its eight bytes. -/
theorem dispatch_keeps {op : ScsiOpcode} (h : Kept original scb) (hop : scb.opcode = some op)
    (hfits : op = .readCapacity10 →
      capacityRefused scb = true ∨ 8 ≤ original.dataBufferLength) :
    (Full.dispatch contents drive scb result op).Keeps original := by
  have hdata := transfersData_eq h hop
  cases op with
  | testUnitReady => exact finish_keeps (h.succeeded UInt32.zero_le)
  | requestSense6 => exact requestSense_keeps h
  | reassignBlocks =>
    exact ⟨fun answer hmem => List.mem_singleton.1 hmem ▸ h.rejected _ _ _,
      fun hqueued => absurd rfl hqueued⟩
  | read6 => exact mvScsiAtaSendDataCommand_keeps h hdata
  | write6 => exact mvScsiAtaSendDataCommand_keeps h hdata
  | inquiry => exact inquiry_keeps h
  | verify6 => exact mvScsiAtaSendVerifyCommand_keeps h hdata
  | modeSelect6 => exact mvScsiAtaModeSelect_keeps h hdata
  | modeSense6 =>
    exact queueOrFinish_keeps (Kept.sent_noneUdma (h.frame (by rfl)) (by rfl) hdata)
  | readCapacity10 => exact readCapacity_keeps h (hfits rfl)
  | read10 => exact mvScsiAtaSendDataCommand_keeps h hdata
  | write10 => exact mvScsiAtaSendDataCommand_keeps h hdata
  | seek10 => exact mvScsiAtaSeek_keeps h
  | verify10 => exact mvScsiAtaSendVerifyCommand_keeps h hdata
  | synchronizeCache10 => exact mvScsiAtaSendSyncCacheCommand_keeps h hdata

end Handlers

section Execute

variable {ext : SalAdapterExtension} {contents : DriveContents} {original : Scb}
  {result : QueueCommandResult}

/-- The call reaches the handler of a READ CAPACITY, and this does not refuse the CDB. -/
def answersCapacity (ext : SalAdapterExtension) (scb : Scb) : Bool :=
  findsDrive ext scb && !attentionFirst (ext.ataDriveData scb.bus scb.target) scb &&
    !invalidCdb scb && scb.opcode == some .readCapacity10 && !capacityRefused scb

/-- A call keeps to the buffers, if it does not answer a READ CAPACITY for which there is no
room. -/
theorem execute_keeps (hbuffers : original.HasBuffers)
    (hfits : answersCapacity ext original = true → 8 ≤ original.dataBufferLength) :
    (Full.mvSataExecuteScsiCommand contents ext original result).Keeps original := by
  have h := hbuffers.clear_kept
  unfold Full.mvSataExecuteScsiCommand Full.executeOnDrive
  dsimp only
  by_cases hfinds : findsDrive ext original = true
  · rw [if_pos hfinds]
    by_cases hattention :
        attentionFirst (ext.ataDriveData original.bus original.target) original.clear = true
    · rw [if_pos hattention]
      exact reportUnitAttention_keeps h
    · rw [if_neg hattention]
      by_cases hinvalid : invalidCdb original.clear = true
      · rw [if_pos hinvalid]
        exact finish_keeps (h.rejected _ _ _)
      · rw [if_neg hinvalid]
        cases hop : original.clear.opcode with
        | none => exact finish_keeps (h.rejected _ _ _)
        | some op =>
          refine dispatch_keeps h hop fun hcapacity => ?_
          rw [hcapacity] at hop
          cases hrefused : capacityRefused original.clear with
          | true => exact Or.inl rfl
          | false =>
            refine Or.inr (hfits ?_)
            have hattention' :
                attentionFirst (ext.ataDriveData original.bus original.target) original = false :=
              Bool.not_eq_true _ ▸ hattention
            have hinvalid' : invalidCdb original = false := Bool.not_eq_true _ ▸ hinvalid
            have hop' : original.opcode = some .readCapacity10 := hop
            have hrefused' : capacityRefused original = false := hrefused
            rw [answersCapacity, hfinds, hattention', hinvalid', hop', hrefused']
            rfl
  · rw [if_neg hfinds]
    exact finish_keeps (h.frame (by rfl))

/-- The answer to a READ CAPACITY. -/
theorem execute_capacity (hanswers : answersCapacity ext original = true) :
    (Full.mvSataExecuteScsiCommand contents ext original result).queued = none ∧
      ∀ answer ∈ (Full.mvSataExecuteScsiCommand contents ext original result).completions,
        answer.dataTransfered = 8 := by
  simp only [answersCapacity, Bool.and_eq_true, Bool.not_eq_true', beq_iff_eq] at hanswers
  obtain ⟨⟨⟨⟨hfinds, hattention⟩, hinvalid⟩, hop⟩, hrefused⟩ := hanswers
  have hattention' : ¬ attentionFirst (ext.ataDriveData original.bus original.target)
      original.clear = true := by
    rw [show attentionFirst (ext.ataDriveData original.bus original.target) original.clear = false
      from hattention]
    simp
  have hinvalid' : ¬ invalidCdb original.clear = true := by
    rw [show invalidCdb original.clear = false from hinvalid]
    simp
  have hop' : original.clear.opcode = some .readCapacity10 := hop
  have hvalid : ¬ (original.clear.cmd 8 &&& 0x02 = 0 ∧ (original.clear.cmd 2 ≠ 0 ∨
      original.clear.cmd 3 ≠ 0 ∨ original.clear.cmd 4 ≠ 0 ∨ original.clear.cmd 5 ≠ 0)) :=
    of_decide_eq_false hrefused
  unfold Full.mvSataExecuteScsiCommand Full.executeOnDrive
  dsimp only
  rw [if_pos hfinds, if_neg hattention', if_neg hinvalid', hop']
  have hreply : Full.dispatch contents (ext.ataDriveData original.bus original.target)
      original.clear result .readCapacity10 =
        mvScsiAtaGetReadCapacityData (ext.ataDriveData original.bus original.target)
          original.clear := rfl
  dsimp only
  rw [hreply, mvScsiAtaGetReadCapacityData, if_neg hvalid]
  exact ⟨rfl, fun answer hmem => List.mem_singleton.1 hmem ▸ rfl⟩

end Execute

section Completion

variable {ext : SalAdapterExtension} {contents : DriveContents} {drive : DriveData}
  {original scb answer : Scb} {result : QueueCommandResult}

/-- The layer works on a block: it has an ATA command in the core driver, for the first time or
after another one. -/
inductive InDriver (ext : SalAdapterExtension) (original : Scb) : Scb → Prop
  | executed (contents : DriveContents) (result : QueueCommandResult)
      (hqueued : (Full.mvSataExecuteScsiCommand contents ext original result).queued ≠ none) :
      InDriver ext original (Full.mvSataExecuteScsiCommand contents ext original result).scb
  | continued {contents : DriveContents} {drive : DriveData} {result : QueueCommandResult}
      {scb : Scb} (hdriver : InDriver ext original scb)
      (hnext : Full.salCommandCompletionCB contents drive scb .normal = none)
      (hsent : (Block.service ⟨scb, [], []⟩ result).outstanding ≠ []) :
      InDriver ext original (Block.service ⟨scb, [], []⟩ result).scb

/-- The callback of a block is given `answer`, on the completion of an ATA command if there is
one. -/
inductive Completes (ext : SalAdapterExtension) (original : Scb) :
    Option CompletionType → Scb → Prop
  | executed (contents : DriveContents) (result : QueueCommandResult) {answer : Scb}
      (hmem : answer ∈ (Full.mvSataExecuteScsiCommand contents ext original result).completions) :
      Completes ext original none answer
  | completed (contents : DriveContents) (drive : DriveData) {scb : Scb} {type : CompletionType}
      {answer : Scb} (hdriver : InDriver ext original scb)
      (hanswer : Full.salCommandCompletionCB contents drive scb type = some answer) :
      Completes ext original (some type) answer
  | refused {contents : DriveContents} {drive : DriveData} {result : QueueCommandResult}
      {scb : Scb} {answer : Scb} (hdriver : InDriver ext original scb)
      (hnext : Full.salCommandCompletionCB contents drive scb .normal = none)
      (hmem : answer ∈ (Block.service ⟨scb, [], []⟩ result).completions) :
      Completes ext original none answer

/-- A failed ATA command is reported with sense data: the error of a READ or WRITE is one that
the drive reports. -/
def reportsSense (scb : Scb) (responseFlags : UInt16) : Bool :=
  !scb.transfersData || responseFlags &&& 0x08 == 0 && responseFlags &&& 0x04 != 0

/-- There is room for what the block is answered with: for the thirteen bytes of sense data of a
failed ATA command, and for the eight bytes of a READ CAPACITY. -/
def AnswerFits (ext : SalAdapterExtension) (original : Scb) : Option CompletionType → Prop
  | some (.error responseFlags _) =>
    reportsSense original responseFlags = true → 13 ≤ original.senseBufferLength
  | _ => answersCapacity ext original = true → 8 ≤ original.dataBufferLength

theorem Sent.noneUdma (h : Sent original scb) (hdata : original.transfersData = false) :
    scb.commandType = .noneUdma := by
  cases htype : scb.commandType with
  | noneUdma => rfl
  | udma =>
    have := h.udma_iff.1 htype
    rw [hdata] at this
    cases this

/-- The next ATA command of a block keeps to the buffers. -/
theorem service_keeps (h : Sent original scb) :
    (∀ answer ∈ (Block.service ⟨scb, [], []⟩ result).completions, Kept original answer) ∧
      ((Block.service ⟨scb, [], []⟩ result).outstanding ≠ [] →
        Sent original (Block.service ⟨scb, [], []⟩ result).scb) := by
  have hfollow : ∀ followUp : FollowUp,
      CallKeeps original followUp.completions followUp.queued followUp.scb →
        (∀ answer ∈ (Block.followUp ⟨scb, [], []⟩ followUp).completions, Kept original answer) ∧
          ((Block.followUp ⟨scb, [], []⟩ followUp).outstanding ≠ [] →
            Sent original (Block.followUp ⟨scb, [], []⟩ followUp).scb) := by
    intro followUp hkeeps
    refine ⟨fun answer hmem => hkeeps.completions_kept answer ?_,
      fun hsent => hkeeps.sent fun hnone => hsent ?_⟩
    · simpa [Block.followUp] using hmem
    · rw [Block.followUp, hnone]
      rfl
  have hverify : ∀ op, (op = .verify6 ∨ op = .verify10) → scb.opcode = some op →
      (∀ answer ∈ (Block.service ⟨scb, [], []⟩ result).completions, Kept original answer) ∧
        ((Block.service ⟨scb, [], []⟩ result).outstanding ≠ [] →
          Sent original (Block.service ⟨scb, [], []⟩ result).scb) := by
    intro op hop hopcode
    have hdata := transfersData_eq h.toKept hopcode
    have hservice : Block.service ⟨scb, [], []⟩ result =
        Block.followUp ⟨scb, [], []⟩ (mvScsiAtaSendSplittedVerifyCommand scb result) := by
      rcases hop with rfl | rfl <;> rw [Block.service, hopcode]
    have hfalse : original.transfersData = false := by
      rcases hop with rfl | rfl <;> exact hdata
    rw [hservice]
    exact hfollow _ (splittedVerify_keeps h.toKept (h.noneUdma hfalse) hfalse)
  have hidle : Block.service ⟨scb, [], []⟩ result = ⟨scb, [], []⟩ →
      (∀ answer ∈ (Block.service ⟨scb, [], []⟩ result).completions, Kept original answer) ∧
        ((Block.service ⟨scb, [], []⟩ result).outstanding ≠ [] →
          Sent original (Block.service ⟨scb, [], []⟩ result).scb) := by
    intro hsame
    rw [hsame]
    exact ⟨fun _ hmem => absurd hmem List.not_mem_nil, fun _ => h⟩
  cases hop : scb.opcode with
  | none => exact hidle (by rw [Block.service, hop])
  | some op =>
    cases op with
    | verify6 => exact hverify _ (Or.inl rfl) hop
    | verify10 => exact hverify _ (Or.inr rfl) hop
    | modeSelect6 =>
      have hservice : Block.service ⟨scb, [], []⟩ result =
          Block.followUp ⟨scb, [], []⟩ (mvScsiAtaSendReadLookAhead scb result) := by
        rw [Block.service, hop]
      rw [hservice]
      exact hfollow _ (readLookAhead_keeps h.toKept (transfersData_eq h.toKept hop))
    | _ => exact hidle (by rw [Block.service, hop])

/-- A block with an ATA command in the core driver keeps to its buffers, and it is not a READ
CAPACITY. -/
theorem InDriver.sent (hbuffers : original.HasBuffers) (hdriver : InDriver ext original scb) :
    Sent original scb ∧ answersCapacity ext original = false := by
  induction hdriver with
  | executed contents result hqueued =>
    have hcapacity : answersCapacity ext original = false := by
      cases hanswers : answersCapacity ext original with
      | false => rfl
      | true => exact absurd (execute_capacity hanswers).1 hqueued
    refine ⟨(execute_keeps hbuffers fun hanswers => ?_).sent hqueued, hcapacity⟩
    rw [hcapacity] at hanswers
    cases hanswers
  | continued hdriver hnext hsent ih => exact ⟨(service_keeps ih.1).2 hsent, ih.2⟩

theorem modeSense_kept (h : Kept original scb) :
    Kept original (Full.mvScsiAtaGetModeSenseDataPhase2 contents drive scb) := by
  have hlength := h.dataBufferLength_eq
  have hclear := h.clearData
  unfold Full.mvScsiAtaGetModeSenseDataPhase2
  dsimp only
  split
  · exact hclear.rejected _ _ _
  · split
    · refine Kept.rejected (hclear.copy ?_) _ _ _
      rw [← hlength]
      show (if scb.dataBufferLength < 4 then scb.dataBufferLength.toNat else 4) ≤ _
      split
      · exact Nat.le_refl _
      · rename_i hlt
        exact UInt32.le_iff_toNat_le.1 (UInt32.not_lt.1 hlt)
    · rename_i pages hpages
      have hshort : 4 + pages.length < 2 ^ 32 := by
        unfold modePageData at hpages
        split at hpages
        · cases hpages
          simp [mvModeSenseCachingPage, mvModeSenseControlPage]
        · split at hpages
          · cases hpages
            simp [mvModeSenseCachingPage]
          · split at hpages
            · cases hpages
              simp [mvModeSenseControlPage]
            · cases hpages
      have hle : (if scb.dataBufferLength.toNat < 4 + pages.length then scb.dataBufferLength
          else UInt32.ofNat (4 + pages.length)) ≤ original.dataBufferLength := by
        rw [← hlength]
        split
        · exact UInt32.le_refl _
        · rename_i hlt
          rw [UInt32.le_iff_toNat_le, UInt32.toNat_ofNat_of_lt' hshort]
          omega
      refine ⟨⟨?_, h.sense_inside, hle, h.sense_le⟩, h.cdb_eq, hlength, h.senseBufferLength_eq⟩
      exact (hclear.copy (UInt32.le_iff_toNat_le.1 hle)).data_inside

/-- The sense data of a failed command keeps to the buffers just if they have room for its
length. -/
theorem storeFailureSense_within {sense : SenseData}
    (hdata : scb.pDataBuffer.length = original.dataBufferLength.toNat)
    (hsense : scb.pSenseBuffer.length = original.senseBufferLength.toNat)
    (hlength : scb.senseBufferLength = original.senseBufferLength)
    (hzero : scb.dataTransfered = 0) :
    WithinBuffers original (storeFailureSense scb sense) ↔ 13 ≤ original.senseBufferLength := by
  refine ⟨fun h => h.sense_le, fun hle => ⟨hdata, ?_, ?_, hle⟩⟩
  · rw [← hsense]
    refine copyBytes_inside ?_
    rw [hsense, hlength]
    split
    · exact UInt32.le_iff_toNat_le.1 hle
    · exact Nat.le_refl _
  · show scb.dataTransfered ≤ _
    rw [hzero]
    exact UInt32.zero_le

/-- The answer to a failed READ or WRITE. -/
theorem handleUdmaError_within {responseFlags : UInt16} {registers : StorageDeviceRegisters}
    (h : Kept original scb) :
    WithinBuffers original (handleUdmaError scb responseFlags registers) ↔
      (responseFlags &&& 0x08 = 0 → responseFlags &&& 0x04 ≠ 0 →
        13 ≤ original.senseBufferLength) := by
  unfold handleUdmaError
  by_cases hgone : responseFlags &&& 0x08 ≠ 0
  · rw [if_pos hgone]
    have hkept : Kept original { scb with scsiCommandCompletion := .disconnect } := h.frame rfl
    exact ⟨fun _ hpresent => absurd hpresent hgone, fun _ => hkept.toWithinBuffers⟩
  · rw [if_neg hgone]
    by_cases hata : responseFlags &&& 0x04 ≠ 0
    · rw [if_pos hata, storeFailureSense_within (by exact h.data_inside) (by exact h.sense_inside)
        (by exact h.senseBufferLength_eq) (by rfl)]
      exact ⟨fun hle _ _ => hle, fun hle => hle (Decidable.not_not.1 hgone) hata⟩
    · rw [if_neg hata]
      refine ⟨fun _ _ hata' => absurd hata' hata, fun _ => Kept.toWithinBuffers ?_⟩
      split
      · exact h.nothing (by rfl) UInt32.zero_le
      · split
        · exact h.nothing (by rfl) h.sense_le
        · exact h

/-- The answer to another failed ATA command. -/
theorem handleNoneUdmaError_within {registers : StorageDeviceRegisters} (h : Kept original scb)
    (hzero : scb.dataTransfered = 0) :
    WithinBuffers original (handleNoneUdmaError scb registers) ↔
      13 ≤ original.senseBufferLength := by
  have hcleared : (List.replicate scb.senseBufferLength.toNat 0 ++
      scb.pSenseBuffer.drop scb.senseBufferLength.toNat).length =
        original.senseBufferLength.toNat := by
    rw [List.length_append, List.length_replicate, List.length_drop, h.sense_inside,
      h.senseBufferLength_eq]
    omega
  exact storeFailureSense_within h.data_inside hcleared h.senseBufferLength_eq hzero

/-- The completion of an ATA command. Only an error with sense data can go beyond the buffers. -/
theorem completionCB_within (h : Sent original scb) {type : CompletionType}
    (hanswer : Full.salCommandCompletionCB contents drive scb type = some answer) :
    WithinBuffers original answer ↔ ∀ responseFlags registers,
      type = .error responseFlags registers → reportsSense original responseFlags = true →
        13 ≤ original.senseBufferLength := by
  cases type with
  | normal =>
    refine ⟨fun _ _ _ htype => (by cases htype), fun _ => Kept.toWithinBuffers ?_⟩
    unfold Full.salCommandCompletionCB at hanswer
    dsimp only at hanswer
    split at hanswer
    · cases hanswer
    · split at hanswer
      · cases hanswer
        exact modeSense_kept h.toKept
      · cases hanswer
        exact h.toKept.frame rfl
  | abort =>
    refine ⟨fun _ _ _ htype => (by cases htype), fun _ => Kept.toWithinBuffers ?_⟩
    cases hanswer
    exact h.toKept.nothing rfl UInt32.zero_le
  | error responseFlags registers =>
    have hcleared : Kept original { scb with
        dataTransfered := 0
        senseDataLength := 0
        scsiCommandCompletion := .ataFailed } := h.toKept.nothing rfl UInt32.zero_le
    have hfits : (∀ responseFlags' registers', CompletionType.error responseFlags registers =
        .error responseFlags' registers' → reportsSense original responseFlags' = true →
          13 ≤ original.senseBufferLength) ↔
        (reportsSense original responseFlags = true → 13 ≤ original.senseBufferLength) :=
      ⟨fun hall => hall _ _ rfl, fun hle _ _ heq => by cases heq; exact hle⟩
    rw [hfits]
    unfold Full.salCommandCompletionCB salCommandCompletionCB at hanswer
    dsimp only at hanswer
    by_cases htype : scb.commandType = .udma
    · rw [if_pos htype] at hanswer
      cases hanswer
      rw [handleUdmaError_within hcleared, reportsSense, h.udma_iff.1 htype]
      simp
    · rw [if_neg htype] at hanswer
      cases hanswer
      have hdata : original.transfersData = false := by
        rw [← Bool.not_eq_true, ← h.udma_iff]
        exact htype
      rw [handleNoneUdmaError_within hcleared rfl, reportsSense, hdata]
      simp

end Completion

/-- The buffers of a command. For every block with buffers of any length, and every way to its
callback, the layer keeps to the buffers just if there is room for what the block is answered
with. -/
theorem completes_withinBuffers_iff {ext : SalAdapterExtension} {original answer : Scb}
    {ending : Option CompletionType} (hbuffers : original.HasBuffers)
    (hcompletes : Completes ext original ending answer) :
    WithinBuffers original answer ↔ AnswerFits ext original ending := by
  cases hcompletes with
  | executed contents result hmem =>
    constructor
    · intro hwithin hanswers
      rw [← (execute_capacity hanswers).2 answer hmem]
      exact hwithin.transfered_le
    · intro hfits
      exact ((execute_keeps hbuffers hfits).completions_kept answer hmem).toWithinBuffers
  | @completed contents drive scb type answer hdriver hanswer =>
    obtain ⟨hsent, hcapacity⟩ := hdriver.sent hbuffers
    rw [completionCB_within hsent hanswer]
    have hnone : answersCapacity ext original = true → 8 ≤ original.dataBufferLength := by
      intro hanswers
      rw [hcapacity] at hanswers
      cases hanswers
    cases type with
    | normal => exact ⟨fun _ => hnone, fun _ _ _ htype => by cases htype⟩
    | abort => exact ⟨fun _ => hnone, fun _ _ _ htype => by cases htype⟩
    | error responseFlags registers =>
      exact ⟨fun hall => hall _ _ rfl, fun hle _ _ htype => by cases htype; exact hle⟩
  | refused hdriver hnext hmem =>
    obtain ⟨hsent, hcapacity⟩ := hdriver.sent hbuffers
    constructor
    · intro _ hanswers
      rw [hcapacity] at hanswers
      cases hanswers
    · exact fun _ => ((service_keeps hsent).1 answer hmem).toWithinBuffers

/-- A layer with one drive. -/
def smallExtension : SalAdapterExtension :=
  { numberOfChannels := 1
    pHead := []
    uaMask := 0x01
    ataDriveData := fun _ _ => smallDrive }

/-- A block with buffers of the given lengths. -/
def emulatedBlock (scsiCdb : List UInt8) (dataLength senseLength : ℕ) : Scb :=
  { hostBlock scsiCdb (UInt32.ofNat dataLength) with
    pDataBuffer := List.replicate dataLength 0
    pSenseBuffer := List.replicate senseLength 0
    senseBufferLength := UInt32.ofNat senseLength }

/-- The contents of the answers of a drive without a model name. -/
def unnamedContents : DriveContents :=
  { strings := ⟨List.replicate 40 0, List.replicate 8 0, rfl, rfl⟩
    locals := ⟨List.replicate 9 0, List.replicate 17 0, rfl, rfl⟩
    identifyWord85 := 0
    nativeQueuing := false }

/-- A READ CAPACITY with just enough room. -/
theorem completes_withinBuffers_capacity : ∃ answer,
    Completes smallExtension (emulatedBlock [0x25, 0, 0, 0, 0, 0, 0, 0, 0, 0] 8 0) none answer ∧
      WithinBuffers (emulatedBlock [0x25, 0, 0, 0, 0, 0, 0, 0, 0, 0] 8 0) answer := by
  have hcompletes : Completes smallExtension
      (emulatedBlock [0x25, 0, 0, 0, 0, 0, 0, 0, 0, 0] 8 0) none
      (Full.mvSataExecuteScsiCommand unnamedContents smallExtension
        (emulatedBlock [0x25, 0, 0, 0, 0, 0, 0, 0, 0, 0] 8 0) .ok).scb :=
    .executed unnamedContents .ok List.mem_cons_self
  exact ⟨_, hcompletes, (completes_withinBuffers_iff (by decide) hcompletes).2 fun _ => by decide⟩

/-- A READ CAPACITY without room for data, and a failed VERIFY without room for sense data. -/
theorem completes_beyond_buffers :
    (∃ answer, Completes smallExtension (emulatedBlock [0x25, 0, 0, 0, 0, 0, 0, 0, 0, 0] 4 18) none
        answer ∧ answer.pDataBuffer.length = 8 ∧
        ¬ WithinBuffers (emulatedBlock [0x25, 0, 0, 0, 0, 0, 0, 0, 0, 0] 4 18) answer) ∧
      ∃ answer, Completes smallExtension (emulatedBlock [0x2F, 0, 0, 0, 0, 0, 0, 0, 1, 0] 0 0)
        (some (.error 0x04 ⟨0x40, 0, 0, 0, 0x40⟩)) answer ∧ answer.senseDataLength = 13 ∧
        ¬ WithinBuffers (emulatedBlock [0x2F, 0, 0, 0, 0, 0, 0, 0, 1, 0] 0 0) answer := by
  constructor
  · exact ⟨_, .executed unnamedContents .ok List.mem_cons_self, rfl,
      fun hwithin => absurd hwithin.data_inside (by decide)⟩
  · exact ⟨_, .completed unnamedContents smallDrive
      (.executed unnamedContents .ok (by decide)) rfl, rfl,
      fun hwithin => absurd hwithin.sense_le (by decide)⟩

end Mv88fxx81.Sata
