import Mv88fxx81.Sata.Scsi

/-!
# Translating SCSI commands

The handlers of the SCSI to ATA translation layer, one for each operation. A
handler completes its command, or gives an ATA command to the core driver and
leaves the rest to `SALCommandCompletionCB`. No handler calls
`mvSataQueueCommand` more than once, so the answer to that call is an argument.
-/

namespace Mv88fxx81.Sata

/-- What a call that sends a follow-up command does: the block afterwards, the blocks as
its `completionCallBack` was given them, and the ATA command that the core driver has
accepted. -/
structure FollowUp where
  scb : Scb
  completions : List Scb
  queued : Option QueueCommandInfo
  deriving DecidableEq, Repr

/-- The reply of a handler that ends with sending a follow-up command. -/
def FollowUp.reply (followUp : FollowUp) (drive : DriveData) (status : ScsiCommandStatus) : Reply :=
  { scb := followUp.scb
    drive
    completions := followUp.completions
    queued := followUp.queued
    status
    executed := none
    reported := none }

section Data

/-- A READ or WRITE with a six byte block. -/
def Scb.sixByteData (scb : Scb) : Bool :=
  scb.opcode == some .read6 || scb.opcode == some .write6

/-- The address of a READ or WRITE. -/
def dataLba (scb : Scb) : UInt32 := if scb.sixByteData then scb.lba6 else scb.lba10

/-- The block count field of a READ or WRITE. -/
def dataCount (scb : Scb) : UInt16 :=
  if scb.sixByteData then (scb.cmd 4).toUInt16 else scb.count10

/-- The direction of a READ or WRITE. -/
def dataDirection (scb : Scb) : UdmaType :=
  if scb.opcode == some .read6 || scb.opcode == some .read10 then .read else .write

/-- The ATA command of a READ or WRITE of `sectors` sectors. -/
def dataCommandInfo (drive : DriveData) (scb : Scb) (sectors : UInt16) : QueueCommandInfo :=
  .udma scb.target
    { readWrite := dataDirection scb
      isEXT := drive.identifyInfo.lba48Supported
      fua := !scb.sixByteData && scb.cmd 1 &&& 0x08 != 0
      lowLBAAddress := dataLba scb
      highLBAAddress := 0
      numOfSectors :=
        if sectors = 256 ∧ drive.identifyInfo.lba48Supported = false then 0 else sectors
      prdLowAddr := scb.prdTableLowPhyAddress
      prdHighAddr := scb.prdTableHighPhyAddress
      singleDataRegion := scb.singleDataRegion
      byteCount := scb.byteCount }

/-- `mvScsiAtaSendDataCommand`. -/
def mvScsiAtaSendDataCommand (drive : DriveData) (scb : Scb) (result : QueueCommandResult) :
    Reply :=
  if dataCount scb = 0 ∧ scb.sixByteData = false then
    if checkLBAOutOfRange drive.identifyInfo.ataDiskSize (dataLba scb) 0 then
      lbaOutOfRange drive scb
    else finish drive (succeeded scb 0)
  else
    -- A six byte command with a count of zero asks for 256 sectors.
    let sectors : UInt16 := if dataCount scb = 0 then 256 else dataCount scb
    if checkLBAOutOfRange drive.identifyInfo.ataDiskSize (dataLba scb) sectors.toUInt32 then
      lbaOutOfRange drive scb
    else if 256 < sectors ∨ sectors.toUInt32 * 512 ≠ scb.dataBufferLength then
      finish drive
        { scb with scsiCommandCompletion := .badScb, dataTransfered := 0, senseDataLength := 0 }
    else
      queueOrFinish drive
        { scb with
          dataTransfered := sectors.toUInt32 * 512
          udmaType := dataDirection scb
          commandType := .udma
          lowLbaAddress := dataLba scb }
        (dataCommandInfo drive scb sectors) result

end Data

/-- `mvScsiAtaTestUnitReady`. -/
def mvScsiAtaTestUnitReady (drive : DriveData) (scb : Scb) : Reply :=
  finish drive (succeeded scb 0)

/-- The data of a READ CAPACITY answer. -/
def readCapacityData (drive : DriveData) : List UInt8 :=
  let last := drive.identifyInfo.ataDiskSize - 1
  [(last >>> 24).toUInt8, (last >>> 16).toUInt8, (last >>> 8).toUInt8, last.toUInt8, 0, 0, 0x02, 0]

/-- `memset` of a whole data buffer. -/
def Scb.clearData (scb : Scb) : Scb :=
  { scb with
    pDataBuffer := List.replicate scb.dataBufferLength.toNat 0 ++
      scb.pDataBuffer.drop scb.dataBufferLength.toNat }

/-- `mvScsiAtaGetReadCapacityData`. -/
def mvScsiAtaGetReadCapacityData (drive : DriveData) (scb : Scb) : Reply :=
  if scb.cmd 8 &&& 0x02 = 0 ∧ (scb.cmd 2 ≠ 0 ∨ scb.cmd 3 ≠ 0 ∨ scb.cmd 4 ≠ 0 ∨ scb.cmd 5 ≠ 0) then
    finish drive (rejected scb .badScsiCommand .illegalRequest .invalidCdb)
  else
    let scb := scb.clearData
    finish drive
      (succeeded { scb with pDataBuffer := copyBytes scb.pDataBuffer (readCapacityData drive) 8 } 8)

/-- `mvScsiAtaSeek`. -/
def mvScsiAtaSeek (drive : DriveData) (scb : Scb) : Reply :=
  if checkLBAOutOfRange drive.identifyInfo.ataDiskSize scb.lba10 0 then lbaOutOfRange drive scb
  else finish drive (succeeded scb 0)

/-- `mvScsiAtaReassignBlocks`. The callback is called, but the value returned is
`MV_TRUE`, which as a `MV_SCSI_COMMAND_STATUS_TYPE` is the one for a queued command. -/
def mvScsiAtaReassignBlocks (drive : DriveData) (scb : Scb) : Reply :=
  { finish drive (rejected scb .ataFailed .hardwareError .noDefectSpareLocation) with
    status := .queued }

section Verify

/-- The address of a VERIFY. -/
def verifyLba (scb : Scb) : UInt32 := if scb.opcode = some .verify6 then scb.lba6 else scb.lba10

/-- The block count field of a VERIFY. -/
def verifyCount (scb : Scb) : UInt16 :=
  if scb.opcode = some .verify6 then (scb.cmd 4).toUInt16 else scb.count10

/-- The sector count register of the next part of a split VERIFY: the low byte of the
count for the first part, and 256 sectors, encoded as zero, for the others. -/
def splittedVerifySectors (scb : Scb) : UInt8 :=
  if scb.sequenceNumber = 1 then
    if scb.opcode = some .verify6 then scb.cmd 4 else scb.cmd 8
  else 0

/-- The ATA command of one part of a split VERIFY. -/
def splittedVerifyInfo (scb : Scb) : QueueCommandInfo :=
  .noneUdma scb.target
    { protocolType := .nonData
      isEXT := false
      count := 0
      features := 0
      sectorCount := (splittedVerifySectors scb).toUInt16
      lbaLow := (scb.lowLbaAddress &&& 0xff).toUInt16
      lbaMid := ((scb.lowLbaAddress &&& 0xff00) >>> 8).toUInt16
      lbaHigh := ((scb.lowLbaAddress &&& 0xff0000) >>> 16).toUInt16
      device := (0x40 : UInt8) ||| ((scb.lowLbaAddress &&& 0xf000000) >>> 24).toUInt8
      command := 0x40 }

/-- `mvScsiAtaSendSplittedVerifyCommand`. Where the core driver refuses the command, the
result is written to the block, but the callback is not called. -/
def mvScsiAtaSendSplittedVerifyCommand (scb : Scb) (result : QueueCommandResult) : FollowUp :=
  let scb := { scb with sequenceNumber := scb.sequenceNumber + 1 }
  let sectors := splittedVerifySectors scb
  let sent := { scb with
    lowLbaAddress := scb.lowLbaAddress + if sectors = 0 then 0x100 else sectors.toUInt32 }
  if result = .ok then
    { scb := sent
      completions := []
      queued := some (splittedVerifyInfo scb) }
  else
    { scb := checkQueueCommandResult sent result
      completions := []
      queued := none }

/-- The ATA command of a VERIFY on a drive with 48 bit addresses. -/
def verifyExtInfo (scb : Scb) (lba : UInt32) (sectors : UInt16) : QueueCommandInfo :=
  .noneUdma scb.target
    { protocolType := .nonData
      isEXT := true
      count := 0
      features := 0
      sectorCount := sectors
      lbaLow := (((lba &&& 0xff000000) >>> 16) ||| (lba &&& 0xff)).toUInt16
      lbaMid := ((lba &&& 0xff00) >>> 8).toUInt16
      lbaHigh := ((lba &&& 0xff0000) >>> 16).toUInt16
      device := 0x40
      command := 0x42 }

/-- The number of parts of a VERIFY on a drive with 28 bit addresses. -/
def verifyCommands (sectors : UInt16) : UInt16 :=
  if sectors = 0 then 1 else (((sectors.toUInt32 + 0xff) &&& 0x1ff00) >>> 8).toUInt16

/-- The sectors of a VERIFY are on the disk. A count of zero stands for 256 sectors here. -/
def verifyOutOfRange (drive : DriveData) (scb : Scb) : Bool :=
  checkLBAOutOfRange drive.identifyInfo.ataDiskSize (verifyLba scb)
    (if verifyCount scb = 0 then 256 else (verifyCount scb).toUInt32)

/-- `mvScsiAtaSendVerifyCommand`. On a drive with 48 bit addresses the sequence number is
left as the block had it. -/
def mvScsiAtaSendVerifyCommand (drive : DriveData) (scb : Scb) (result : QueueCommandResult) :
    Reply :=
  if verifyCount scb = 0 ∧ scb.opcode = some .verify10 then
    if checkLBAOutOfRange drive.identifyInfo.ataDiskSize (verifyLba scb) 0 then
      lbaOutOfRange drive scb
    else finish drive (succeeded scb 0)
  else if verifyOutOfRange drive scb then lbaOutOfRange drive scb
  else
    let scb := { scb with commandType := .noneUdma, lowLbaAddress := verifyLba scb }
    if drive.identifyInfo.lba48Supported then
      let sectors := if verifyCount scb = 0 then 256 else verifyCount scb
      queueOrFinish drive { scb with splitCount := 1, isExtended := true }
        (verifyExtInfo scb (verifyLba scb) sectors) result
    else
      (mvScsiAtaSendSplittedVerifyCommand
        { scb with
          splitCount := verifyCommands (verifyCount scb)
          sequenceNumber := 0
          isExtended := false } result).reply drive .queued

end Verify

/-- `mvScsiAtaSendSyncCacheCommand`. -/
def mvScsiAtaSendSyncCacheCommand (drive : DriveData) (scb : Scb) (result : QueueCommandResult) :
    Reply :=
  let extended := drive.identifyInfo.lba48Supported
  if scb.cmd 1 &&& 0x02 ≠ 0 then
    finish drive (rejected scb .badScsiCommand .illegalRequest .invalidCdb)
  else if checkLBAOutOfRange drive.identifyInfo.ataDiskSize scb.lba10 scb.count10.toUInt32 then
    lbaOutOfRange drive scb
  else
    queueOrFinish drive { scb with commandType := .noneUdma, isExtended := extended }
      (.noneUdma scb.target
        { protocolType := .nonData
          isEXT := extended
          count := 0
          features := 0
          sectorCount := 0
          lbaLow := 0
          lbaMid := 0
          lbaHigh := 0
          device := 0x40
          command := if extended then 0xea else 0xe7 }) result

/-- `mvScsiAtaGetModeSenseData`: the drive is asked for its identify data, and the answer is
built when it has come. -/
def mvScsiAtaGetModeSenseData (drive : DriveData) (scb : Scb) (result : QueueCommandResult) :
    Reply :=
  queueOrFinish drive { scb with commandType := .noneUdma }
    (.noneUdma scb.target
      { protocolType := .pioDataIn
        isEXT := false
        count := 256
        features := 0
        sectorCount := 0
        lbaLow := 0
        lbaMid := 0
        lbaHigh := 0
        device := 0x40
        command := 0xec }) result

/-- The length of the mode pages of a MODE SENSE, or the error. -/
def modeSensePages (scb : Scb) : Except AdditionalSense ℕ :=
  if (scb.cmd 2 &&& 0xc0) >>> 6 = 3 then .error .savingParametersNotSupported
  else if scb.cmd 2 &&& 0x3f = 0x3f then .ok (4 + 0x14 + 0xc)
  else if scb.cmd 2 &&& 0x3f = 0x08 then .ok (4 + 0x14)
  else if scb.cmd 2 &&& 0x3f = 0x0a then .ok (4 + 0xc)
  else .error .invalidCdb

/-- `mvScsiAtaGetModeSenseDataPhase2`, without the contents of the pages. -/
def mvScsiAtaGetModeSenseDataPhase2 (scb : Scb) : Scb :=
  match modeSensePages scb with
  | .error asc => rejected scb .badScsiCommand .illegalRequest asc
  | .ok offset =>
    { scb with
      dataTransfered :=
        if scb.dataBufferLength.toNat < offset then scb.dataBufferLength else UInt32.ofNat offset
      scsiCommandCompletion := .success
      scsiStatus := .good }

section ModeSelect

/-- The error results of `modeSelect`. -/
inductive ModeSelectError
  | parameterListLength
  | invalidFieldInCdb
  | invalidFieldInList
  deriving DecidableEq, Repr

/-- The additional sense code for an error. -/
def ModeSelectError.sense : ModeSelectError → AdditionalSense
  | .parameterListLength => .parameterListLength
  | .invalidFieldInCdb => .invalidCdb
  | .invalidFieldInList => .invalidFieldInParameterList

/-- The loop of `modeSelect` over the mode pages from `offset` on: the position behind the
pages, and that of the last caching page, zero for none. A page is at least twelve
bytes, so `length` is enough for the number of rounds. -/
def modePages (list : ℕ → UInt8) (length : ℕ) : ℕ → ℕ → ℕ → Except ModeSelectError (ℕ × ℕ)
  | 0, offset, cachePageOffset => .ok (offset, cachePageOffset)
  | rounds + 1, offset, cachePageOffset =>
    if offset + 2 < length then
      if list offset &&& 0x3f = 0x08 then
        if list (offset + 1) ≠ 0x12 then .error .invalidFieldInList
        else modePages list length rounds (offset + (list (offset + 1)).toNat + 2) offset
      else if list offset &&& 0x3f = 0x0a then
        if list offset ≠ 0x0a ∨ list (offset + 1) ≠ 0x0a ∨ list (offset + 3) ≠ 0x10 ∨
            list (offset + 2) ≠ 0 ∨ list (offset + 4) ≠ 0 ∨ list (offset + 5) ≠ 0 ∨
            list (offset + 6) ≠ 0 ∨ list (offset + 7) ≠ 0 ∨ list (offset + 8) ≠ 0 ∨
            list (offset + 9) ≠ 0 ∨ list (offset + 10) ≠ 0 ∨ list (offset + 11) ≠ 0 then
          .error .invalidFieldInList
        else
          modePages list length rounds (offset + (list (offset + 1)).toNat + 2) cachePageOffset
      else .error .invalidFieldInList
    else .ok (offset, cachePageOffset)

/-- The test of the block descriptor of a parameter list. -/
def blockDescriptorError (list : ℕ → UInt8) (length : ℕ) : Option ModeSelectError :=
  if list 3 = 0 then none
  else if list 3 ≠ 8 then some .invalidFieldInList
  else if length < 12 then some .parameterListLength
  else if list 4 ≠ 0 ∨ list 5 ≠ 0 ∨ list 6 ≠ 0 ∨ list 7 ≠ 0 ∨ list 8 ≠ 0 ∨ list 9 ≠ 0 ∨
      list 10 ≠ 2 ∨ list 11 ≠ 0 then
    some .invalidFieldInList
  else none

/-- The part of `modeSelect` that reads the parameter list: the position of the caching
page to act on, `none` where the command succeeds at once. -/
def modeParameterList (scb : Scb) : Except ModeSelectError (Option ℕ) :=
  let list := fun i => scb.pDataBuffer.getD i 0
  let length := scb.dataBufferLength.toNat
  if scb.cmd 1 &&& 0x10 = 0 then .error .invalidFieldInCdb
  else if scb.cmd 1 &&& 0x01 = 1 then .error .invalidFieldInCdb
  else if length = 0 then .ok none
  else if length < 4 then .error .parameterListLength
  else if list 0 ≠ 0 ∨ list 1 ≠ 0 ∨ list 2 ≠ 0 then .error .invalidFieldInList
  else
    match blockDescriptorError list length with
    | some error => .error error
    | none =>
      if length = 4 + (list 3).toNat then .ok none
      else
        match modePages list length length (4 + (list 3).toNat) 0 with
        | .error error => .error error
        | .ok (offset, cachePageOffset) =>
          if length ≠ offset then .error .parameterListLength
          else if cachePageOffset = 0 then .ok none
          else .ok (some cachePageOffset)

/-- The first test of `mvParseModeCachingPage`: a field that cannot be changed is not as
the drive has it. -/
def cachingPageInvalid (page : ℕ → UInt8) : Bool :=
  page 0 &&& 0xc0 != 0 || page 1 != 0x12 || page 2 ||| 0x04 != 0x04 || page 3 != 0 ||
    page 4 != 0xff || page 5 != 0xff || page 6 != 0 || page 7 != 0 || page 8 != 0 ||
    page 9 != 0x10 || page 10 != 0 || page 11 != 0x10 || page 12 ||| 0x20 != 0x20 ||
    page 13 != 0x01 || page 14 != 0xff || page 15 != 0xff || page 16 != 0 || page 17 != 0 ||
    page 18 != 0 || page 19 != 0

/-- The page asks to disable the read look-ahead. -/
def disablesLookAhead (page : ℕ → UInt8) : Bool := page 12 &&& 0x20 != 0

/-- The page asks to enable the write cache. -/
def enablesWriteCache (page : ℕ → UInt8) : Bool := page 2 &&& 0x04 != 0

/-- A SET FEATURES command. -/
def setFeaturesInfo (scb : Scb) (features : UInt16) : QueueCommandInfo :=
  .noneUdma scb.target
    { protocolType := .nonData
      isEXT := false
      count := 0
      features
      sectorCount := 0
      lbaLow := 0
      lbaMid := 0
      lbaHigh := 0
      device := 0x40
      command := 0xef }

/-- `mvScsiAtaSendReadLookAhead`. Where the core driver refuses the command, the callback is
called. -/
def mvScsiAtaSendReadLookAhead (scb : Scb) (result : QueueCommandResult) : FollowUp :=
  let scb := { scb with commandType := .noneUdma, sequenceNumber := scb.sequenceNumber + 1 }
  if result = .ok then
    { scb
      completions := []
      queued := some (setFeaturesInfo scb (if scb.lowLbaAddress = 0 then 0x55 else 0xAA)) }
  else
    { scb := checkQueueCommandResult scb result
      completions := [checkQueueCommandResult scb result]
      queued := none }

/-- `mvParseModeCachingPage`, with the block as an error leaves it. Where only the look-ahead
can be set, it is set directly, and the value returned is that for a queued command
whether or not the core driver has accepted it. -/
def mvParseModeCachingPage (drive : DriveData) (scb : Scb) (page : ℕ → UInt8)
    (result : QueueCommandResult) : Except (ModeSelectError × Scb) Reply :=
  let info := drive.identifyInfo
  if cachingPageInvalid page then .error (.invalidFieldInList, scb)
  else if disablesLookAhead page = false ∧ info.readAheadSupported = false then
    .error (.invalidFieldInList, { scb with splitCount := 2, sequenceNumber := 1 })
  else
    let scb := { scb with
      splitCount := if info.readAheadSupported then 2 else 1
      sequenceNumber := 1
      lowLbaAddress := if disablesLookAhead page then 0 else 1 }
    if enablesWriteCache page then
      if info.writeCacheSupported = false then .error (.invalidFieldInList, scb)
      else
        .ok (queueOrFinish drive { scb with commandType := .noneUdma } (setFeaturesInfo scb 0x02)
          result)
    else if info.writeCacheSupported then
      .ok (queueOrFinish drive { scb with commandType := .noneUdma } (setFeaturesInfo scb 0x82)
        result)
    else
      let scb := { scb with splitCount := scb.splitCount - 1 }
      if scb.splitCount = 1 then
        .ok ((mvScsiAtaSendReadLookAhead scb result).reply drive .queued)
      else
        .ok (finish drive { scb with
          dataTransfered := 0
          scsiCommandCompletion := .success
          scsiStatus := .good })

/-- `modeSelect`. -/
def modeSelect (drive : DriveData) (scb : Scb) (result : QueueCommandResult) :
    Except (ModeSelectError × Scb) Reply :=
  match modeParameterList scb with
  | .error error => .error (error, scb)
  | .ok none =>
    .ok (finish drive { scb with
      dataTransfered := 0
      scsiCommandCompletion := .success
      scsiStatus := .good })
  | .ok (some cachePageOffset) =>
    mvParseModeCachingPage drive scb (fun i => scb.pDataBuffer.getD (cachePageOffset + i) 0) result

/-- `mvScsiAtaModeSelect`. -/
def mvScsiAtaModeSelect (drive : DriveData) (scb : Scb) (result : QueueCommandResult) : Reply :=
  match modeSelect drive scb result with
  | .error (error, scb) =>
    finish drive (rejected scb .badScsiCommand .illegalRequest error.sense)
  | .ok reply => reply

end ModeSelect

section Attention

/-- The bit of an event in `UAEvents`. -/
def UaEvent.bit : UaEvent → UInt8
  | .reset => 0x01
  | .paramsChanged => 0x02

/-- The event that is reported next: the reset before the changed parameters. -/
def DriveData.firstEvent (drive : DriveData) : Option UaEvent :=
  if drive.uaEvents &&& UaEvent.reset.bit ≠ 0 then some .reset
  else if drive.uaEvents &&& UaEvent.paramsChanged.bit ≠ 0 then some .paramsChanged
  else none

/-- The bit of a reported event is cleared, and the flag with the last one. -/
def DriveData.clearEvent (drive : DriveData) (event : Option UaEvent) : DriveData :=
  let events := match event with
    | none => drive.uaEvents
    | some event => drive.uaEvents &&& ~~~event.bit
  { drive with
    uaEvents := events
    uaConditionPending := if events = 0 then false else drive.uaConditionPending }

/-- The sense data that reports an event. -/
def UaEvent.sense : UaEvent → SenseData
  | .reset => senseData .unitAttention .busReset 2
  | .paramsChanged => senseData .unitAttention .parametersChanged 1

/-- The completion code that reports an event. -/
def UaEvent.completion : UaEvent → ScsiCompletion
  | .reset => .uaReset
  | .paramsChanged => .uaParamsChanged

/-- The block with which an event is reported. -/
def UaEvent.report (scb : Scb) (event : UaEvent) : Scb :=
  setSenseData { scb with scsiCommandCompletion := event.completion } event.sense.senseKey
    event.sense.additionalSenseCode event.sense.additionalSenseCodeQualifier

/-- A command is answered with the pending unit attention. This text stands in
`mvSataExecuteScsiCommand` and in `mvScsiAtaGetInquiryData`. -/
def reportUnitAttention (drive : DriveData) (scb : Scb) : Reply :=
  let scb := match drive.firstEvent with
    | none => scb
    | some event => event.report scb
  { finish (drive.clearEvent drive.firstEvent)
      { scb with scsiStatus := .checkCondition, dataTransfered := 0 } with
    reported := drive.firstEvent }

/-- An INQUIRY asks for something that the layer does not have. -/
def inquiryInvalid (scb : Scb) : Bool := scb.cmd 1 &&& 0x03 != 0 || scb.cmd 2 != 0

/-- `mvScsiAtaGetInquiryData`, without the contents of the data. -/
def mvScsiAtaGetInquiryData (drive : DriveData) (scb : Scb) : Reply :=
  if inquiryInvalid scb then
    if drive.uaConditionPending then reportUnitAttention drive scb
    else finish drive (rejected scb .badScsiCommand .illegalRequest .invalidCdb)
  else
    let inquiryLen : UInt32 := if scb.lun ≠ 0 then 5 else 42
    finish drive
      (succeeded scb
        (if scb.dataBufferLength > inquiryLen then inquiryLen else scb.dataBufferLength))

/-- The block with which REQUEST SENSE hands over sense data. -/
def requestSenseAnswer (scb : Scb) (sense : SenseData) : Scb :=
  let scb := scb.clearData
  let length : UInt32 := if scb.dataBufferLength ≥ 18 then 18 else scb.dataBufferLength
  succeeded { scb with pDataBuffer := copyBytes scb.pDataBuffer sense.bytes length.toNat } length

/-- `mvScsiAtaGetRequestSenseData`. -/
def mvScsiAtaGetRequestSenseData (drive : DriveData) (scb : Scb) : Reply :=
  if drive.uaConditionPending then
    let sense := match drive.firstEvent with
      | none => senseData .unitAttention .noSense 0
      | some event => event.sense
    { finish (drive.clearEvent drive.firstEvent) (requestSenseAnswer scb sense) with
      reported := drive.firstEvent }
  else finish drive (requestSenseAnswer scb (senseData .noSense .noSense 0))

end Attention

end Mv88fxx81.Sata
