import Mv88fxx81.Lib.Run
import Mv88fxx81.Sata.ScsiAta

/-!
# The translation layer as a machine

The calls that the layer takes from its two sides: the host's commands and the
changes of the drives from above, the completions of ATA commands from below.
A command block is known by the number of the call of `mvSataExecuteScsiCommand`
it came with. The post-interrupt list holds these numbers.
-/

namespace Mv88fxx81.Sata

/-- `MV_SATA_PM_MAX_PORTS`. -/
def pmMaxPorts : ℕ := 15

/-- `MV_SAL_ADAPTER_EXTENSION`, with `numberOfChannels` of the adapter. -/
structure SalAdapterExtension where
  numberOfChannels : UInt8
  pHead : List ℕ
  uaMask : UInt8
  ataDriveData : UInt8 → UInt8 → DriveData

/-- Replace the data of one drive. -/
def SalAdapterExtension.setDrive (ext : SalAdapterExtension) (bus target : UInt8)
    (drive : DriveData) : SalAdapterExtension :=
  { ext with
    ataDriveData := fun b t => if b = bus ∧ t = target then drive else ext.ataDriveData b t }

/-- `mvSataScsiInitAdapterExt`. Only the ready flags of the drives are set, the rest of
their data stays as the memory had it. -/
def mvSataScsiInitAdapterExt (ext : SalAdapterExtension) (numberOfChannels : UInt8) :
    SalAdapterExtension :=
  { numberOfChannels
    pHead := []
    uaMask := 0xFF
    ataDriveData := fun b t => { ext.ataDriveData b t with driveReady := false } }

/-- `mvSataScsiSetDriveReady`. -/
def mvSataScsiSetDriveReady (ext : SalAdapterExtension) (channelIndex pmPort : UInt8)
    (isReady : Bool) : SalAdapterExtension :=
  if isReady = false ∧ pmPort = 0xFF then
    { ext with
      ataDriveData := fun b t =>
        if b = channelIndex ∧ t.toNat < pmMaxPorts then
          { ext.ataDriveData b t with driveReady := false }
        else ext.ataDriveData b t }
  else
    ext.setDrive channelIndex pmPort
      { ext.ataDriveData channelIndex pmPort with driveReady := isReady }

/-- `mvSataScsiNotifyUA`. -/
def mvSataScsiNotifyUA (ext : SalAdapterExtension) (channelIndex pmPort : UInt8) :
    SalAdapterExtension :=
  ext.setDrive channelIndex pmPort
    { ext.ataDriveData channelIndex pmPort with
      uaConditionPending := true
      uaEvents := (UaEvent.paramsChanged.bit ||| UaEvent.reset.bit) &&& ext.uaMask }

section Execute

/-- The operations of which the RELADR bit is looked at. -/
def ScsiOpcode.hasRelAdr : ScsiOpcode → Bool
  | .read10 | .write10 | .readCapacity10 | .verify10 | .synchronizeCache10 => true
  | _ => false

/-- `invalidCDB` of `mvSataExecuteScsiCommand`: a RELADR bit or a CONTROL byte is set. -/
def invalidCdb (scb : Scb) : Bool :=
  match scb.opcode with
  | none => false
  | some op => (op.hasRelAdr && scb.cmd 1 &&& 0x01 != 0) || scb.cmd (scb.scsiCdbLength - 1) != 0

/-- The last switch of `mvSataExecuteScsiCommand`. -/
def dispatch (drive : DriveData) (scb : Scb) (result : QueueCommandResult) : ScsiOpcode → Reply
  | .read6 | .read10 | .write6 | .write10 => mvScsiAtaSendDataCommand drive scb result
  | .inquiry => mvScsiAtaGetInquiryData drive scb
  | .testUnitReady => mvScsiAtaTestUnitReady drive scb
  | .modeSelect6 => mvScsiAtaModeSelect drive scb result
  | .modeSense6 => mvScsiAtaGetModeSenseData drive scb result
  | .readCapacity10 => mvScsiAtaGetReadCapacityData drive scb
  | .requestSense6 => mvScsiAtaGetRequestSenseData drive scb
  | .verify6 | .verify10 => mvScsiAtaSendVerifyCommand drive scb result
  | .synchronizeCache10 => mvScsiAtaSendSyncCacheCommand drive scb result
  | .seek10 => mvScsiAtaSeek drive scb
  | .reassignBlocks => mvScsiAtaReassignBlocks drive scb

/-- A command is answered with a unit attention before its operation is looked at. -/
def attentionFirst (drive : DriveData) (scb : Scb) : Bool :=
  drive.uaConditionPending &&
    (scb.opcode != some .inquiry && scb.opcode != some .requestSense6 || invalidCdb scb)

/-- The part of `mvSataExecuteScsiCommand` for a block that has found its drive. -/
def executeOnDrive (drive : DriveData) (scb : Scb) (result : QueueCommandResult) : Reply :=
  if attentionFirst drive scb then reportUnitAttention drive scb
  else if invalidCdb scb then
    finish drive (rejected scb .badScsiCommand .illegalRequest .invalidCdb)
  else
    match scb.opcode with
    | none => finish drive (rejected scb .badScsiCommand .illegalRequest .illegalCommand)
    | some op => { dispatch drive scb result op with executed := some op }

/-- A block is for a drive that is there. -/
def findsDrive (ext : SalAdapterExtension) (scb : Scb) : Bool :=
  decide (scb.bus < ext.numberOfChannels) && decide (scb.target.toNat < pmMaxPorts) &&
    (ext.ataDriveData scb.bus scb.target).driveReady &&
    (scb.lun == 0 || scb.opcode == some .inquiry)

/-- The output fields that `mvSataExecuteScsiCommand` clears first. -/
def Scb.clear (scb : Scb) : Scb :=
  { scb with dataTransfered := 0, senseDataLength := 0, scsiStatus := .good }

/-- `mvSataExecuteScsiCommand`, for the answer that `mvSataQueueCommand` gives where it is
asked. -/
def mvSataExecuteScsiCommand (ext : SalAdapterExtension) (scb : Scb)
    (result : QueueCommandResult) : Reply :=
  let drive := ext.ataDriveData scb.bus scb.target
  if findsDrive ext scb then executeOnDrive drive scb.clear result
  else
    finish drive
      { scb.clear with
        scsiCommandCompletion :=
          if scb.bus < ext.numberOfChannels then .noDevice else .invalidBus }

end Execute

section Completion

/-- The fields of `MV_STORAGE_DEVICE_REGISTERS` that the error handlers read. -/
structure StorageDeviceRegisters where
  errorRegister : UInt8
  lbaLowRegister : UInt16
  lbaMidRegister : UInt16
  lbaHighRegister : UInt16
  deviceRegister : UInt8
  deriving DecidableEq, Repr

/-- `MV_COMPLETION_TYPE`, with what an error is reported with. -/
inductive CompletionType
  | normal
  | error (responseFlags : UInt16) (registers : StorageDeviceRegisters)
  | abort
  deriving DecidableEq, Repr

/-- The low three address bytes of the registers, behind the given high one. -/
def StorageDeviceRegisters.information (registers : StorageDeviceRegisters) (high : UInt8) :
    Fin 4 → UInt8
  | 0 => high
  | 1 => registers.lbaHighRegister.toUInt8
  | 2 => registers.lbaMidRegister.toUInt8
  | 3 => registers.lbaLowRegister.toUInt8

/-- The sense data of a failed ATA command, without an address. -/
def failureSense (valid : Bool) (key : SenseKey) (asc : AdditionalSense) : SenseData :=
  { senseData key asc 0 with valid, additionalSenseLength := 5 }

/-- The high byte of the address that the block has. -/
def Scb.highLba (scb : Scb) : UInt8 := (scb.lowLbaAddress >>> 24).toUInt8

/-- The sense data of `handleNoneUdmaError`. -/
def noneUdmaSense (scb : Scb) (registers : StorageDeviceRegisters) : SenseData :=
  let errorReg := registers.errorRegister
  match scb.opcode with
  | some .synchronizeCache10 =>
    { failureSense true .mediumError .noSense with
      information := registers.information
        (if scb.isExtended then (registers.lbaLowRegister >>> 8).toUInt8
        else registers.deviceRegister &&& 0x0f) }
  | some .verify10 | some .verify6 =>
    if errorReg &&& 0x2a ≠ 0 then failureSense false .unitAttention .noSense
    else if errorReg &&& 0x40 ≠ 0 then
      { failureSense true .mediumError .noSense with
        information := registers.information scb.highLba }
    else if errorReg &&& 0x04 ≠ 0 ∨ errorReg &&& 0x10 ≠ 0 then
      failureSense false .abortedCommand .noSense
    else failureSense false .noSense .noSense
  | some .modeSelect6 =>
    if errorReg &&& 0x04 ≠ 0 then failureSense false .abortedCommand .noSense
    else failureSense false .noSense .noSense
  | _ => failureSense false .noSense .noSense

/-- The first thirteen bytes of the sense data go to the sense buffer. -/
def storeFailureSense (scb : Scb) (sense : SenseData) : Scb :=
  { scb with
    senseDataLength := 13
    pSenseBuffer := copyBytes scb.pSenseBuffer sense.bytes
      (if scb.senseBufferLength > 13 then 13 else scb.senseBufferLength.toNat) }

/-- `handleNoneUdmaError`. -/
def handleNoneUdmaError (scb : Scb) (registers : StorageDeviceRegisters) : Scb :=
  storeFailureSense
    { scb with
      dataBufferLength := 0
      scsiStatus := .checkCondition
      pSenseBuffer := List.replicate scb.senseBufferLength.toNat 0 ++
        scb.pSenseBuffer.drop scb.senseBufferLength.toNat }
    (noneUdmaSense scb registers)

/-- The sense data of `handleUdmaError` for an error that the drive reports. -/
def udmaSense (scb : Scb) (registers : StorageDeviceRegisters) : SenseData :=
  let errorReg := registers.errorRegister
  if errorReg &&& 0x80 ≠ 0 ∨ errorReg = 0x0C then failureSense true .abortedCommand .noSense
  else if errorReg &&& 0x2a ≠ 0 then failureSense true .unitAttention .noMediaInDevice
  else if errorReg &&& 0x40 ≠ 0 then
    { failureSense true (if scb.udmaType = .read then .mediumError else .dataProtect) .noSense with
      information := registers.information scb.highLba }
  else if errorReg &&& 0x10 ≠ 0 ∧ errorReg &&& 0x04 = 0 then
    failureSense true .illegalRequest .illegalBlock
  else failureSense true .abortedCommand .noSense

/-- `handleUdmaError`. -/
def handleUdmaError (scb : Scb) (responseFlags : UInt16) (registers : StorageDeviceRegisters) :
    Scb :=
  if responseFlags &&& 0x08 ≠ 0 then { scb with scsiCommandCompletion := .disconnect }
  else if responseFlags &&& 0x04 ≠ 0 then
    storeFailureSense { scb with scsiStatus := .checkCondition, dataTransfered := 0 }
      (udmaSense scb registers)
  else if responseFlags &&& 0x03 ≠ 0 then
    { scb with
      scsiCommandCompletion := .parityError
      scsiStatus := .checkCondition
      senseDataLength := 0
      dataTransfered := 0 }
  else if responseFlags &&& 0x60 ≠ 0 then
    { scb with
      scsiCommandCompletion := if responseFlags &&& 0x40 ≠ 0 then .underrun else .overrun
      dataTransfered := 0 }
  else scb

/-- The operations that may need more than one ATA command. -/
def ScsiOpcode.isSplit : ScsiOpcode → Bool
  | .verify6 | .verify10 | .modeSelect6 => true
  | _ => false

/-- The block is to go on with another ATA command. -/
def Scb.continues (scb : Scb) : Bool :=
  scb.opcode.any ScsiOpcode.isSplit && decide (scb.sequenceNumber < scb.splitCount)

/-- `SALCommandCompletionCB`: the block for its callback, or `none` where the block is put on
the post-interrupt list. -/
def salCommandCompletionCB (scb : Scb) : CompletionType → Option Scb
  | .normal =>
    if scb.continues then none
    else if scb.opcode = some .modeSense6 then some (mvScsiAtaGetModeSenseDataPhase2 scb)
    else some { scb with scsiStatus := .good, scsiCommandCompletion := .success }
  | .abort =>
    some { scb with scsiCommandCompletion := .aborted, dataTransfered := 0, senseDataLength := 0 }
  | .error responseFlags registers =>
    let scb := { scb with
      dataTransfered := 0
      senseDataLength := 0
      scsiCommandCompletion := .ataFailed }
    if scb.commandType = .udma then some (handleUdmaError scb responseFlags registers)
    else some (handleNoneUdmaError scb registers)

end Completion

/-- A block that was given to `mvSataExecuteScsiCommand`, with the blocks as its callback
was given them and its ATA commands in the core driver. -/
structure Block where
  scb : Scb
  completions : List Scb
  outstanding : List QueueCommandInfo

/-- The layer with the blocks it was given, in the order of the calls. -/
structure Sal where
  ext : SalAdapterExtension
  blocks : List Block

/-- The effect of a follow-up command on its block. -/
def Block.followUp (block : Block) (followUp : FollowUp) : Block :=
  { scb := followUp.scb
    completions := block.completions ++ followUp.completions
    outstanding := block.outstanding ++ followUp.queued.toList }

/-- One round of `mvSataScsiPostIntService`, for the answer of `mvSataQueueCommand`. -/
def Block.service (block : Block) (result : QueueCommandResult) : Block :=
  match block.scb.opcode with
  | some .verify10 | some .verify6 =>
    block.followUp (mvScsiAtaSendSplittedVerifyCommand block.scb result)
  | some .modeSelect6 => block.followUp (mvScsiAtaSendReadLookAhead block.scb result)
  | _ => block

/-- The loop of `mvSataScsiPostIntService` over the list. -/
def serviceLoop (results : ℕ → QueueCommandResult) : List ℕ → List Block → List Block
  | [], blocks => blocks
  | id :: ids, blocks =>
    serviceLoop results ids (blocks.modify id fun block => block.service (results id))

/-- `mvSataScsiPostIntService`, for the answers that `mvSataQueueCommand` gives for each
block. -/
def mvSataScsiPostIntService (results : ℕ → QueueCommandResult) (sal : Sal) : Sal :=
  { ext := { sal.ext with pHead := [] }
    blocks := serviceLoop results sal.ext.pHead sal.blocks }

/-- The calls of the layer. `identify` stands for the IAL writing the identify data of a
drive. -/
inductive SalEvent
  | execute (scb : Scb) (result : QueueCommandResult)
  | completion (id : ℕ) (type : CompletionType)
  | postIntService (results : ℕ → QueueCommandResult)
  | setDriveReady (channelIndex pmPort : UInt8) (isReady : Bool)
  | notifyUA (channelIndex pmPort : UInt8)
  | identify (channelIndex pmPort : UInt8) (info : IdentifyInfo)

/-- What a call returns, and the part of it that is of interest. -/
inductive SalAnswer
  | executed (reply : Reply)
  | done

/-- The layer after a call of `mvSataExecuteScsiCommand`. -/
def Sal.executed (sal : Sal) (scb : Scb) (reply : Reply) : Sal :=
  { ext := sal.ext.setDrive scb.bus scb.target reply.drive
    blocks := sal.blocks ++
      [{ scb := reply.scb
         completions := reply.completions
         outstanding := reply.queued.toList }] }

/-- The layer after the completion of the first outstanding ATA command of a block. -/
def Sal.completed (sal : Sal) (id : ℕ) (block : Block) (type : CompletionType) : Sal :=
  match salCommandCompletionCB block.scb type with
  | none =>
    { ext := { sal.ext with pHead := id :: sal.ext.pHead }
      blocks := sal.blocks.set id { block with outstanding := block.outstanding.tail } }
  | some scb =>
    { sal with
      blocks := sal.blocks.set id
        { scb
          completions := block.completions ++ [scb]
          outstanding := block.outstanding.tail } }

/-- The steps of the layer. The core driver completes only commands it has been given. -/
def salStep (sal : Sal) : SalEvent → Option (SalAnswer × Sal)
  | .execute scb result =>
    let reply := mvSataExecuteScsiCommand sal.ext scb result
    some (.executed reply, sal.executed scb reply)
  | .completion id type =>
    match sal.blocks[id]? with
    | none => none
    | some block =>
      if block.outstanding = [] then none else some (.done, sal.completed id block type)
  | .postIntService results => some (.done, mvSataScsiPostIntService results sal)
  | .setDriveReady channelIndex pmPort isReady =>
    some (.done, { sal with ext := mvSataScsiSetDriveReady sal.ext channelIndex pmPort isReady })
  | .notifyUA channelIndex pmPort =>
    some (.done, { sal with ext := mvSataScsiNotifyUA sal.ext channelIndex pmPort })
  | .identify channelIndex pmPort info =>
    some (.done, { sal with
      ext := sal.ext.setDrive channelIndex pmPort
        { sal.ext.ataDriveData channelIndex pmPort with identifyInfo := info } })

/-- The layer as the driver starts it, in memory that holds `memory`. The IAL of this
repository asks to be told of the bus reset only. -/
def salInit (memory : SalAdapterExtension) (numberOfChannels : UInt8) (resetOnly : Bool) : Sal :=
  let ext := mvSataScsiInitAdapterExt memory numberOfChannels
  { ext := if resetOnly then { ext with uaMask := 0x01 } else ext
    blocks := [] }

end Mv88fxx81.Sata
