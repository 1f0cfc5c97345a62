import Mv88fxx81.Sata.Sal

/-!
# The SMART pass-through

A vendor command carries an ATA command in its data buffer: the command, its features and its
address registers in the first six bytes, and what the drive answers from the seventh byte on. It
is sent by `mvScsiAtaSendSmartCommand` of `LSP/mvSata/mvLinuxIalSmart.c`, and its answer is
completed by `SmartCommandCompletionCB`. The indices of the data buffer that they read or write are
kept.
-/

namespace Mv88fxx81.Sata

/-- `SCSI_OPCODE_MVSATA_SMART`. -/
def SCSI_OPCODE_MVSATA_SMART : UInt8 := 0x0C

/-- `WIN_IDENTIFY`, and `MV_ATA_COMMAND_IDENTIFY`. -/
def WIN_IDENTIFY : UInt8 := 0xEC

/-- `MV_ATA_COMMAND_IDLE`. -/
def MV_ATA_COMMAND_IDLE : UInt8 := 0xE3

/-- `MV_ATA_COMMAND_IDLE_IMMEDIATE`. -/
def MV_ATA_COMMAND_IDLE_IMMEDIATE : UInt8 := 0xE1

/-- `WIN_SMART`. -/
def WIN_SMART : UInt8 := 0xB0

/-- `SMART_READ_VALUES`. -/
def SMART_READ_VALUES : UInt8 := 0xD0

/-- `SMART_READ_THRESHOLDS`. -/
def SMART_READ_THRESHOLDS : UInt8 := 0xD1

/-- `SMART_AUTOSAVE`. -/
def SMART_AUTOSAVE : UInt8 := 0xD2

/-- `SMART_IMMEDIATE_OFFLINE`. -/
def SMART_IMMEDIATE_OFFLINE : UInt8 := 0xD4

/-- `SMART_READ_LOG_SECTOR`. -/
def SMART_READ_LOG_SECTOR : UInt8 := 0xD5

/-- `SMART_ENABLE`. -/
def SMART_ENABLE : UInt8 := 0xD8

/-- `SMART_DISABLE`. -/
def SMART_DISABLE : UInt8 := 0xD9

/-- `SMART_STATUS`. -/
def SMART_STATUS : UInt8 := 0xDA

/-- `SMART_AUTO_OFFLINE`. -/
def SMART_AUTO_OFFLINE : UInt8 := 0xDB

/-- `SMART_BUF_COMMAND_OFFSET`. -/
def SMART_BUF_COMMAND_OFFSET : ℕ := 0

/-- `SMART_BUF_LBALOW_OFFSET`. -/
def SMART_BUF_LBALOW_OFFSET : ℕ := 1

/-- `SMART_BUF_FEATURES_OFFSET`. -/
def SMART_BUF_FEATURES_OFFSET : ℕ := 2

/-- `SMART_BUF_SECTORCOUNT_OFFSET`. -/
def SMART_BUF_SECTORCOUNT_OFFSET : ℕ := 3

/-- `SMART_BUF_LBAMID_OFFSET`. -/
def SMART_BUF_LBAMID_OFFSET : ℕ := 4

/-- `SMART_BUF_LBAHIGH_OFFSET`. -/
def SMART_BUF_LBAHIGH_OFFSET : ℕ := 5

/-- `SMART_BUF_DEVICE_OFFSET`. -/
def SMART_BUF_DEVICE_OFFSET : ℕ := 6

/-- `SMART_BUF_ERROR_OFFSET`. -/
def SMART_BUF_ERROR_OFFSET : ℕ := 7

/-- The features of a SMART command that reads a sector. -/
def smartReads (features : UInt8) : Bool :=
  features = SMART_READ_VALUES ∨ features = SMART_READ_THRESHOLDS ∨
    features = SMART_READ_LOG_SECTOR

/-- The features of a SMART command without data. -/
def smartNonData (features : UInt8) : Bool :=
  features = SMART_ENABLE ∨ features = SMART_DISABLE ∨ features = SMART_AUTO_OFFLINE ∨
    features = SMART_AUTOSAVE ∨ features = SMART_IMMEDIATE_OFFLINE ∨ features = SMART_STATUS

/-- The commands that are passed through. -/
def smartCommand (command : UInt8) : Bool :=
  command = WIN_IDENTIFY ∨ command = MV_ATA_COMMAND_IDLE ∨
    command = MV_ATA_COMMAND_IDLE_IMMEDIATE ∨ command = WIN_SMART

/-- A byte of the data buffer. -/
def Scb.dataByte (scb : Scb) (i : ℕ) : UInt8 := scb.pDataBuffer.getD i 0

/-- A block, and the indices of its data buffer that have been read or written. -/
structure DataAccess where
  scb : Scb
  touched : List ℕ

namespace DataAccess

variable (a : DataAccess)

/-- A byte of the data buffer. -/
def byte (i : ℕ) : UInt8 := a.scb.dataByte i

/-- Bytes of the data buffer are read. -/
def read (indices : List ℕ) : DataAccess := { a with touched := a.touched ++ indices }

/-- A byte of the data buffer is written. -/
def store (i : ℕ) (value : UInt8) : DataAccess where
  scb := { a.scb with pDataBuffer := a.scb.pDataBuffer.set i value }
  touched := a.touched ++ [i]

end DataAccess

/-- The ATA command that is queued: the port, the index of the data buffer that `bufPtr` points to,
unless it is `NULL`, and the parameters. -/
structure SmartQueued where
  pmPort : UInt8
  bufPtr : Option ℕ
  params : NoneUdmaCommandParams
  deriving DecidableEq, Repr

/-- The indices of the data buffer that the transfer of a command writes. -/
def SmartQueued.transfer (queued : SmartQueued) : List ℕ :=
  match queued.bufPtr with
  | some i => List.range' i (2 * queued.params.count.toNat)
  | none => []

/-- Bytes are written from an index on. -/
def storeBytes : ℕ → List UInt8 → List UInt8 → List UInt8
  | _, [], buffer => buffer
  | i, byte :: bytes, buffer => storeBytes (i + 1) bytes (buffer.set i byte)

/-- The block when the drive has sent some bytes. -/
def SmartQueued.receive (queued : SmartQueued) (bytes : List UInt8) (scb : Scb) : Scb :=
  match queued.bufPtr with
  | some i =>
    { scb with
      pDataBuffer := storeBytes i (bytes.take (2 * queued.params.count.toNat)) scb.pDataBuffer }
  | none => scb

/-- What `mvScsiAtaSendSmartCommand` does: the block afterwards with what has been touched, the
blocks as its `completionCallBack` was given them, the ATA command that the core driver has
accepted, and the value returned. -/
structure SmartReply extends DataAccess where
  completions : List Scb
  queued : Option SmartQueued
  status : ScsiCommandStatus

/-- The block is completed. -/
def smartCompleted (a : DataAccess) : SmartReply :=
  { a with
    completions := [a.scb]
    queued := none
    status := .completed }

/-- The block is rejected. The call of `setSenseData` does not pass a qualifier, so it is what the
register happens to hold. -/
def smartRejected (a : DataAccess) (ascq : UInt8) : SmartReply :=
  smartCompleted
    { a with
      scb :=
        { setSenseData a.scb .illegalRequest .noSense ascq with
          scsiStatus := .checkCondition
          scsiCommandCompletion := .badScsiCommand } }

/-- The part of `mvScsiAtaSendSmartCommand` that finds the protocol and sets the registers that the
caller may not choose; no protocol is found for a block that is rejected. -/
def smartProtocol (a : DataAccess) : Option NonUdmaProtocol × DataAccess :=
  let a := a.read [SMART_BUF_COMMAND_OFFSET]
  if a.byte SMART_BUF_COMMAND_OFFSET = WIN_IDENTIFY then
    if a.scb.dataBufferLength < 256 * 2 + 6 then (none, a)
    else
      (some .pioDataIn,
        (((((a.store SMART_BUF_COMMAND_OFFSET WIN_IDENTIFY).store
          SMART_BUF_SECTORCOUNT_OFFSET 0).store SMART_BUF_LBALOW_OFFSET 0).store
          SMART_BUF_LBAMID_OFFSET 0).store SMART_BUF_LBAHIGH_OFFSET 0).store
          SMART_BUF_FEATURES_OFFSET 0)
  else if a.byte SMART_BUF_COMMAND_OFFSET = MV_ATA_COMMAND_IDLE then
    (some .nonData,
      ((((a.store SMART_BUF_COMMAND_OFFSET MV_ATA_COMMAND_IDLE).store
        SMART_BUF_LBALOW_OFFSET 0).store SMART_BUF_LBAMID_OFFSET 0).store
        SMART_BUF_LBAHIGH_OFFSET 0).store SMART_BUF_FEATURES_OFFSET 0)
  else if a.byte SMART_BUF_COMMAND_OFFSET = MV_ATA_COMMAND_IDLE_IMMEDIATE then
    (some .nonData,
      (((((a.store SMART_BUF_COMMAND_OFFSET MV_ATA_COMMAND_IDLE_IMMEDIATE).store
        SMART_BUF_LBALOW_OFFSET 0).store SMART_BUF_LBAMID_OFFSET 0).store
        SMART_BUF_LBAHIGH_OFFSET 0).store SMART_BUF_FEATURES_OFFSET 0).store
        SMART_BUF_SECTORCOUNT_OFFSET 0)
  else
    let a := (a.store SMART_BUF_LBAMID_OFFSET 0x4F).store SMART_BUF_LBAHIGH_OFFSET 0xC2
    let a := a.read [SMART_BUF_FEATURES_OFFSET]
    if smartReads (a.byte SMART_BUF_FEATURES_OFFSET) then
      if a.scb.dataBufferLength < 512 + 6 then (none, a) else (some .pioDataIn, a)
    else if smartNonData (a.byte SMART_BUF_FEATURES_OFFSET) then (some .nonData, a)
    else (none, a)

/-- The ATA command of a block. -/
def smartInfo (protocol : NonUdmaProtocol) (a : DataAccess) : SmartQueued where
  pmPort := a.scb.target
  bufPtr := if protocol = .nonData then none else some 6
  params :=
    { protocolType := protocol
      isEXT := false
      count := if protocol = .nonData then 0 else 512 / 2
      features := (a.byte SMART_BUF_FEATURES_OFFSET).toUInt16
      sectorCount := (a.byte SMART_BUF_SECTORCOUNT_OFFSET).toUInt16
      lbaLow := (a.byte SMART_BUF_LBALOW_OFFSET).toUInt16
      lbaMid := (a.byte SMART_BUF_LBAMID_OFFSET).toUInt16
      lbaHigh := (a.byte SMART_BUF_LBAHIGH_OFFSET).toUInt16
      device := 0x40
      command := a.byte SMART_BUF_COMMAND_OFFSET }

/-- `mvScsiAtaSendSmartCommand`, for the answer that `mvSataQueueCommand` gives where it is
asked. -/
def mvScsiAtaSendSmartCommand (ext : SalAdapterExtension) (scb : Scb) (ascq : UInt8)
    (result : QueueCommandResult) : SmartReply :=
  let a : DataAccess := ⟨{ scb with dataTransfered := 0, senseDataLength := 0 }, []⟩
  if a.scb.bus ≥ ext.numberOfChannels then
    smartCompleted { a with scb := { a.scb with scsiCommandCompletion := .invalidBus } }
  else if a.scb.target.toNat ≥ pmMaxPorts ∨
      (ext.ataDriveData a.scb.bus a.scb.target).driveReady = false then
    smartCompleted { a with scb := { a.scb with scsiCommandCompletion := .noDevice } }
  else if a.scb.dataBufferLength ≤ 6 then smartRejected a ascq
  else
    let a := a.read [SMART_BUF_COMMAND_OFFSET]
    if smartCommand (a.byte SMART_BUF_COMMAND_OFFSET) then
      match smartProtocol a with
      | (none, a) => smartRejected a ascq
      | (some protocol, a) =>
        let a := a.read [SMART_BUF_FEATURES_OFFSET, SMART_BUF_SECTORCOUNT_OFFSET,
          SMART_BUF_LBALOW_OFFSET, SMART_BUF_LBAMID_OFFSET, SMART_BUF_LBAHIGH_OFFSET,
          SMART_BUF_COMMAND_OFFSET]
        if result = .ok then
          { a with
            completions := []
            queued := some (smartInfo protocol a)
            status := .queued }
        else smartCompleted { a with scb := checkQueueCommandResult a.scb result }
    else smartRejected a ascq

/-- The registers that the callback is given. -/
structure SmartRegisters extends StorageDeviceRegisters where
  sectorCountRegister : UInt16
  deriving DecidableEq, Repr

/-- `SmartFillReturnBuffer`. -/
def smartFillReturnBuffer (a : DataAccess) (registers : SmartRegisters) : DataAccess :=
  let a := a.read [SMART_BUF_COMMAND_OFFSET]
  if a.byte SMART_BUF_COMMAND_OFFSET = WIN_SMART then
    let a := a.read [SMART_BUF_FEATURES_OFFSET]
    if smartReads (a.byte SMART_BUF_FEATURES_OFFSET) then a
    else
      let a := a.store (6 + SMART_BUF_COMMAND_OFFSET) (a.byte SMART_BUF_COMMAND_OFFSET)
      let a := a.store (6 + SMART_BUF_FEATURES_OFFSET) (a.byte SMART_BUF_FEATURES_OFFSET)
      let a := a.store (6 + SMART_BUF_LBALOW_OFFSET) registers.lbaLowRegister.toUInt8
      let a := a.store (6 + SMART_BUF_SECTORCOUNT_OFFSET) registers.sectorCountRegister.toUInt8
      let a := a.store (6 + SMART_BUF_LBAMID_OFFSET) registers.lbaMidRegister.toUInt8
      let a := a.store (6 + SMART_BUF_LBAHIGH_OFFSET) registers.lbaHighRegister.toUInt8
      let a := a.store (6 + SMART_BUF_DEVICE_OFFSET) registers.deviceRegister
      a.store (6 + SMART_BUF_ERROR_OFFSET) registers.errorRegister
  else a

/-- How a command is completed. -/
inductive SmartCompletion
  | normal (registers : SmartRegisters)
  | abort
  | error (registers : StorageDeviceRegisters)
  | unknown
  deriving DecidableEq, Repr

/-- `SmartCommandCompletionCB`: the block as its `completionCallBack` is given it, and what has been
touched; for an unknown type it is not called. -/
def smartCommandCompletionCB (scb : Scb) : SmartCompletion → Option DataAccess
  | .normal registers =>
    let a : DataAccess := ⟨scb, []⟩
    let a := if scb.cmd 0 = SCSI_OPCODE_MVSATA_SMART then smartFillReturnBuffer a registers else a
    some
      { a with
        scb :=
          { a.scb with
            dataTransfered := 256 * 2
            scsiStatus := .good
            scsiCommandCompletion := .success } }
  | .abort =>
    some
      ⟨{ scb with scsiCommandCompletion := .aborted, dataTransfered := 0, senseDataLength := 0 },
        []⟩
  | .error registers =>
    some
      ⟨handleNoneUdmaError
        { scb with dataTransfered := 0, senseDataLength := 0, scsiCommandCompletion := .ataFailed }
        registers, []⟩
  | .unknown => none

/-- The words that a drive transfers for a command that is passed through. A log is read as many
sectors as the sector count says. -/
def driveWords (params : NoneUdmaCommandParams) : ℕ :=
  if params.command = WIN_IDENTIFY then 256
  else if params.command = WIN_SMART then
    if params.features = SMART_READ_LOG_SECTOR.toUInt16 then 256 * params.sectorCount.toNat
    else if params.features = SMART_READ_VALUES.toUInt16 ∨
        params.features = SMART_READ_THRESHOLDS.toUInt16 then 256
    else 0
  else 0

/-- A block is passed through within its data buffer, with the bytes that the drive sends and the
completion that follows: nothing is read or written behind the buffer, the words queued are those
that the drive transfers, and no more is reported as transferred than the buffer holds. -/
structure SmartRight (ext : SalAdapterExtension) (scb : Scb) (ascq : UInt8)
    (result : QueueCommandResult) (bytes : List UInt8) (completion : SmartCompletion) : Prop where
  request_inside : ∀ i ∈ (mvScsiAtaSendSmartCommand ext scb ascq result).touched,
    i < scb.dataBufferLength.toNat
  request_transfered : ∀ answer ∈ (mvScsiAtaSendSmartCommand ext scb ascq result).completions,
    answer.dataTransfered ≤ scb.dataBufferLength
  transfer_inside : ∀ queued,
    (mvScsiAtaSendSmartCommand ext scb ascq result).queued = some queued →
      ∀ i ∈ queued.transfer, i < scb.dataBufferLength.toNat
  count_eq : ∀ queued, (mvScsiAtaSendSmartCommand ext scb ascq result).queued = some queued →
    queued.params.count.toNat = driveWords queued.params
  answer_right : ∀ queued, (mvScsiAtaSendSmartCommand ext scb ascq result).queued = some queued →
    ∀ answer, smartCommandCompletionCB
      (queued.receive bytes (mvScsiAtaSendSmartCommand ext scb ascq result).scb) completion =
        some answer →
      (∀ i ∈ answer.touched, i < scb.dataBufferLength.toNat) ∧
        answer.scb.dataTransfered ≤ scb.dataBufferLength

/-- A block that is passed through, if the core driver takes its command. -/
def SmartAccepted (ext : SalAdapterExtension) (scb : Scb) : Prop :=
  scb.bus < ext.numberOfChannels ∧ scb.target.toNat < pmMaxPorts ∧
    (ext.ataDriveData scb.bus scb.target).driveReady = true ∧ 6 < scb.dataBufferLength ∧
    (scb.dataByte 0 = WIN_IDENTIFY ∧ 518 ≤ scb.dataBufferLength ∨
      scb.dataByte 0 = MV_ATA_COMMAND_IDLE ∨ scb.dataByte 0 = MV_ATA_COMMAND_IDLE_IMMEDIATE ∨
      scb.dataByte 0 = WIN_SMART ∧
        (smartReads (scb.dataByte 2) = true ∧ 518 ≤ scb.dataBufferLength ∨
          smartNonData (scb.dataByte 2) = true))

/-- A log is read with one sector, and a normal completion is for a buffer of at least one
sector. -/
def SmartSound (ext : SalAdapterExtension) (scb : Scb) (result : QueueCommandResult)
    (completion : SmartCompletion) : Prop :=
  SmartAccepted ext scb → result = .ok →
    (scb.dataByte 0 = WIN_SMART → scb.dataByte 2 = SMART_READ_LOG_SECTOR → scb.dataByte 3 = 1) ∧
      ∀ registers, completion = .normal registers → 512 ≤ scb.dataBufferLength

end Mv88fxx81.Sata
