import Mathlib.Data.Nat.Notation
import Mv88fxx81.Lib.Literals

/-!
# SCSI command blocks

The data of the SCSI to ATA translation layer: the command block that the host
hands over, the data the layer keeps of each drive, the ATA commands it gives to
the core driver, and the sense data of an answer.
-/

namespace Mv88fxx81.Sata

/-- The SCSI operations that the layer translates. -/
inductive ScsiOpcode
  | testUnitReady
  | requestSense6
  | reassignBlocks
  | read6
  | write6
  | inquiry
  | verify6
  | modeSelect6
  | modeSense6
  | readCapacity10
  | read10
  | write10
  | seek10
  | verify10
  | synchronizeCache10
  deriving DecidableEq, Repr

/-- The values of `SCSI_OPCODE_*`. -/
def ScsiOpcode.code : ScsiOpcode → UInt8
  | .testUnitReady => 0x00
  | .requestSense6 => 0x03
  | .reassignBlocks => 0x07
  | .read6 => 0x08
  | .write6 => 0x0A
  | .inquiry => 0x12
  | .verify6 => 0x13
  | .modeSelect6 => 0x15
  | .modeSense6 => 0x1A
  | .readCapacity10 => 0x25
  | .read10 => 0x28
  | .write10 => 0x2A
  | .seek10 => 0x2B
  | .verify10 => 0x2F
  | .synchronizeCache10 => 0x35

/-- All operations that the layer translates. -/
def ScsiOpcode.all : List ScsiOpcode :=
  [.testUnitReady, .requestSense6, .reassignBlocks, .read6, .write6, .inquiry, .verify6,
    .modeSelect6, .modeSense6, .readCapacity10, .read10, .write10, .seek10, .verify10,
    .synchronizeCache10]

/-- The operation of a command byte, `none` for the `default` of the source's switches. -/
def ScsiOpcode.ofByte (byte : UInt8) : Option ScsiOpcode :=
  ScsiOpcode.all.find? fun op => op.code == byte

/-- The SCSI status codes that the layer answers with. -/
inductive ScsiStatus
  | good
  | checkCondition
  | queueFull
  deriving DecidableEq, Repr

/-- `MV_SCSI_COMPLETION_TYPE`. -/
inductive ScsiCompletion
  | invalidStatus
  | success
  | badScb
  | badScsiCommand
  | ataFailed
  | queueFull
  | notReady
  | aborted
  | overrun
  | underrun
  | parityError
  | disconnect
  | noDevice
  | invalidBus
  | busReset
  | busy
  | uaReset
  | uaParamsChanged
  deriving DecidableEq, Repr

/-- `MV_SCSI_COMMAND_STATUS_TYPE`, in the order of its values. -/
inductive ScsiCommandStatus
  | completed
  | queued
  | failed
  | queuedByIal
  deriving DecidableEq, Repr

/-- `MV_QUEUE_COMMAND_RESULT`, the answer of `mvSataQueueCommand`. -/
inductive QueueCommandResult
  | ok
  | queuedModeDisabled
  | full
  | badLbaAddress
  | badParams
  deriving DecidableEq, Repr

/-- `MV_UDMA_TYPE`. -/
inductive UdmaType
  | read
  | write
  deriving DecidableEq, Repr

/-- `MV_QUEUED_COMMAND_TYPE`. -/
inductive QueuedCommandType
  | udma
  | noneUdma
  deriving DecidableEq, Repr

/-- The protocols of `MV_NON_UDMA_PROTOCOL` that the layer uses. -/
inductive NonUdmaProtocol
  | nonData
  | pioDataIn
  deriving DecidableEq, Repr

/-- `MV_UDMA_COMMAND_PARAMS`. -/
structure UdmaCommandParams where
  readWrite : UdmaType
  isEXT : Bool
  fua : Bool
  lowLBAAddress : UInt32
  highLBAAddress : UInt16
  numOfSectors : UInt16
  prdLowAddr : UInt32
  prdHighAddr : UInt32
  singleDataRegion : Bool
  byteCount : UInt16
  deriving DecidableEq, Repr

/-- `MV_NONE_UDMA_COMMAND_PARAMS`. -/
structure NoneUdmaCommandParams where
  protocolType : NonUdmaProtocol
  isEXT : Bool
  count : UInt32
  features : UInt16
  sectorCount : UInt16
  lbaLow : UInt16
  lbaMid : UInt16
  lbaHigh : UInt16
  device : UInt8
  command : UInt8
  deriving DecidableEq, Repr

/-- `MV_QUEUE_COMMAND_INFO`: an ATA command for the core driver. -/
inductive QueueCommandInfo
  | udma (pmPort : UInt8) (params : UdmaCommandParams)
  | noneUdma (pmPort : UInt8) (params : NoneUdmaCommandParams)
  deriving DecidableEq, Repr

/-- `MV_SATA_SCSI_CMD_BLOCK`. The data and the sense buffer are the memory that the
pointers of the block point to. The fields from `udmaType` on are for the layer's
own use, and the host does not set them. -/
structure Scb where
  scsiCdb : List UInt8
  scsiCdbLength : ℕ
  bus : UInt8
  target : UInt8
  lun : UInt8
  pDataBuffer : List UInt8
  dataBufferLength : UInt32
  prdTableLowPhyAddress : UInt32
  prdTableHighPhyAddress : UInt32
  singleDataRegion : Bool
  byteCount : UInt16
  scsiStatus : ScsiStatus
  pSenseBuffer : List UInt8
  senseBufferLength : UInt32
  senseDataLength : UInt32
  dataTransfered : UInt32
  scsiCommandCompletion : ScsiCompletion
  udmaType : UdmaType
  commandType : QueuedCommandType
  lowLbaAddress : UInt32
  isExtended : Bool
  splitCount : UInt16
  sequenceNumber : UInt16
  deriving DecidableEq, Repr

/-- A command block as the host fills it in. -/
def hostBlock (scsiCdb : List UInt8) (dataBufferLength : UInt32) : Scb :=
  { scsiCdb
    scsiCdbLength := scsiCdb.length
    bus := 0
    target := 0
    lun := 0
    pDataBuffer := []
    dataBufferLength
    prdTableLowPhyAddress := 0
    prdTableHighPhyAddress := 0
    singleDataRegion := false
    byteCount := 0
    scsiStatus := .good
    pSenseBuffer := []
    senseBufferLength := 0
    senseDataLength := 0
    dataTransfered := 0
    scsiCommandCompletion := .invalidStatus
    udmaType := .read
    commandType := .udma
    lowLbaAddress := 0
    isExtended := false
    splitCount := 0
    sequenceNumber := 0 }

/-- The part of `ATA_IDENTIFY_INFO` that the layer reads. -/
structure IdentifyInfo where
  lba48Supported : Bool
  writeCacheSupported : Bool
  readAheadSupported : Bool
  ataDiskSize : UInt32
  deriving DecidableEq, Repr

/-- `MV_SATA_SCSI_DRIVE_DATA`. -/
structure DriveData where
  driveReady : Bool
  identifyInfo : IdentifyInfo
  uaConditionPending : Bool
  uaEvents : UInt8
  deriving DecidableEq, Repr

/-- A drive without 48 bit addresses and no event pending. -/
def smallDrive : DriveData :=
  { driveReady := true
    identifyInfo :=
      { lba48Supported := false
        writeCacheSupported := true
        readAheadSupported := true
        ataDiskSize := 0x1000 }
    uaConditionPending := false
    uaEvents := 0 }

namespace Scb

/-- A byte of the command descriptor block. -/
def cmd (scb : Scb) (i : ℕ) : UInt8 := scb.scsiCdb.getD i 0

/-- The operation that the block asks for. -/
def opcode (scb : Scb) : Option ScsiOpcode := ScsiOpcode.ofByte (scb.cmd 0)

/-- The address field of a six byte command. -/
def lba6 (scb : Scb) : UInt32 :=
  (scb.cmd 3).toUInt32 ||| ((scb.cmd 2).toUInt32 <<< 8) |||
    (((scb.cmd 1).toUInt32 &&& 0x1f) <<< 16)

/-- The address field of a ten byte command. -/
def lba10 (scb : Scb) : UInt32 :=
  (scb.cmd 5).toUInt32 ||| ((scb.cmd 4).toUInt32 <<< 8) ||| ((scb.cmd 3).toUInt32 <<< 16) |||
    ((scb.cmd 2).toUInt32 <<< 24)

/-- The block count of a ten byte command. -/
def count10 (scb : Scb) : UInt16 := (scb.cmd 8).toUInt16 ||| ((scb.cmd 7).toUInt16 <<< 8)

end Scb

/-- The sense keys that the layer reports. -/
inductive SenseKey
  | noSense
  | mediumError
  | hardwareError
  | illegalRequest
  | unitAttention
  | dataProtect
  | abortedCommand
  deriving DecidableEq, Repr

/-- The values of `SCSI_SENSE_*`. -/
def SenseKey.code : SenseKey → UInt8
  | .noSense => 0x00
  | .mediumError => 0x03
  | .hardwareError => 0x04
  | .illegalRequest => 0x05
  | .unitAttention => 0x06
  | .dataProtect => 0x07
  | .abortedCommand => 0x0B

/-- The additional sense codes that the layer reports. -/
inductive AdditionalSense
  | noSense
  | parameterListLength
  | illegalCommand
  | illegalBlock
  | invalidCdb
  | invalidFieldInParameterList
  | busReset
  | parametersChanged
  | noDefectSpareLocation
  | savingParametersNotSupported
  | noMediaInDevice
  deriving DecidableEq, Repr

/-- The values of `SCSI_ADSENSE_*`, and the numbers that the source writes out. -/
def AdditionalSense.code : AdditionalSense → UInt8
  | .noSense => 0x00
  | .parameterListLength => 0x1a
  | .illegalCommand => 0x20
  | .illegalBlock => 0x21
  | .invalidCdb => 0x24
  | .invalidFieldInParameterList => 0x26
  | .busReset => 0x29
  | .parametersChanged => 0x2A
  | .noDefectSpareLocation => 0x32
  | .savingParametersNotSupported => 0x39
  | .noMediaInDevice => 0x3a

/-- `MV_SCSI_SENSE_DATA`, without the fields that the layer leaves zero. -/
structure SenseData where
  valid : Bool
  senseKey : SenseKey
  information : Fin 4 → UInt8
  additionalSenseLength : UInt8
  additionalSenseCode : AdditionalSense
  additionalSenseCodeQualifier : UInt8

/-- The eighteen bytes of the structure. -/
def SenseData.bytes (sense : SenseData) : List UInt8 :=
  [if sense.valid then 0xf0 else 0x70, 0, sense.senseKey.code, sense.information 0,
    sense.information 1, sense.information 2, sense.information 3, sense.additionalSenseLength,
    0, 0, 0, 0, sense.additionalSenseCode.code, sense.additionalSenseCodeQualifier, 0, 0, 0, 0]

/-- The sense data of an answer that the layer gives on its own. -/
def senseData (key : SenseKey) (asc : AdditionalSense) (ascq : UInt8) : SenseData :=
  { valid := false
    senseKey := key
    information := fun _ => 0
    additionalSenseLength := 10
    additionalSenseCode := asc
    additionalSenseCodeQualifier := ascq }

/-- `memcpy` of the first `length` of the bytes to the start of a buffer. -/
def copyBytes (buffer bytes : List UInt8) (length : ℕ) : List UInt8 :=
  bytes.take length ++ buffer.drop (bytes.take length).length

/-- `setSenseData`. -/
def setSenseData (scb : Scb) (key : SenseKey) (asc : AdditionalSense) (ascq : UInt8) : Scb :=
  if scb.senseBufferLength = 0 then { scb with senseDataLength := 0 }
  else
    let length : UInt32 := if scb.senseBufferLength < 18 then scb.senseBufferLength else 18
    { scb with
      senseDataLength := length
      pSenseBuffer := copyBytes scb.pSenseBuffer (senseData key asc ascq).bytes length.toNat }

/-- The test of `checkLBAOutOfRange`. -/
def checkLBAOutOfRange (ataDiskSize lba sectors : UInt32) : Bool :=
  decide (ataDiskSize ≤ lba) || decide (ataDiskSize - lba < sectors)

/-- `checkQueueCommandResult`. -/
def checkQueueCommandResult (scb : Scb) (result : QueueCommandResult) : Scb :=
  let scb :=
    match result with
    | .badLbaAddress => { scb with scsiCommandCompletion := .badScb }
    | .queuedModeDisabled => { scb with scsiCommandCompletion := .notReady }
    | .full => { scb with scsiCommandCompletion := .queueFull, scsiStatus := .queueFull }
    | .badParams => { scb with scsiCommandCompletion := .badScb }
    | .ok => scb
  { scb with dataTransfered := 0, senseDataLength := 0 }

/-- The events of a unit attention condition. -/
inductive UaEvent
  | reset
  | paramsChanged
  deriving DecidableEq, Repr

/-- What a call of `mvSataExecuteScsiCommand` does: the block and the data of its drive
afterwards, the blocks as its `completionCallBack` was given them, the ATA command that
the core driver has accepted, and the value returned. `executed` is the operation
whose handler was called, and `reported` the unit attention that the call logs to
report. -/
structure Reply where
  scb : Scb
  drive : DriveData
  completions : List Scb
  queued : Option QueueCommandInfo
  status : ScsiCommandStatus
  executed : Option ScsiOpcode
  reported : Option UaEvent
  deriving DecidableEq, Repr

/-- The end of most paths: the callback is called, and the call returns
`MV_SCSI_COMMAND_STATUS_COMPLETED`. -/
def finish (drive : DriveData) (scb : Scb) : Reply :=
  { scb
    drive
    completions := [scb]
    queued := none
    status := .completed
    executed := none
    reported := none }

/-- The block of a command that has succeeded at once. -/
def succeeded (scb : Scb) (dataTransfered : UInt32) : Scb :=
  { scb with
    scsiCommandCompletion := .success
    scsiStatus := .good
    dataTransfered
    senseDataLength := 0 }

/-- The block of a command that is answered with a check condition. -/
def rejected (scb : Scb) (completion : ScsiCompletion) (key : SenseKey) (asc : AdditionalSense) :
    Scb :=
  { setSenseData scb key asc 0 with
    scsiStatus := .checkCondition
    dataTransfered := 0
    scsiCommandCompletion := completion }

/-- The answer of `checkLBAOutOfRange` to an address that is not on the disk. -/
def lbaOutOfRange (drive : DriveData) (scb : Scb) : Reply :=
  finish drive (rejected scb .badScsiCommand .illegalRequest .illegalBlock)

/-- A command is given to `mvSataQueueCommand`. Where it is refused, the block is
completed. -/
def queueOrFinish (drive : DriveData) (scb : Scb) (info : QueueCommandInfo)
    (result : QueueCommandResult) : Reply :=
  if result = .ok then
    { scb
      drive
      completions := []
      queued := some info
      status := .queued
      executed := none
      reported := none }
  else finish drive (checkQueueCommandResult scb result)

end Mv88fxx81.Sata
