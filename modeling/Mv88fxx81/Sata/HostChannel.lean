import Mv88fxx81.Sata.IalChannel
import Mv88fxx81.Sata.PrdPool
import Mv88fxx81.Sata.Sal

/-!
# The commands of a SCSI host

Each channel is a SCSI host of its own. A command of the host gets a command block, which waits in
the queue of the intermediate layer, is with the core driver or waits on the post-interrupt list.
Its callback frees the block and puts the command on the done list.

A command is known by the number of the call that submitted it. The functions of the intermediate
layer are the ones of `IalChannel`, here with the callbacks they make. The post-interrupt list is
kept channel by channel.
-/

namespace Mv88fxx81.Sata.Ht

/-- A channel with the commands of its host. -/
structure HostChannel where
  /-- The channel in the intermediate layer, with the commands that wait there. -/
  ial : Ial.IalChannel
  /-- The commands that the core driver has. -/
  commands : List ℕ
  /-- The commands on the post-interrupt list. -/
  deferred : List ℕ
  /-- The commands whose `pSALBlock` is allocated. -/
  blocks : List ℕ
  /-- What the command blocks hold. -/
  scb : ℕ → Scb
  /-- The commands that have taken a table from the pool. -/
  tables : List ℕ
  /-- The list between `scsi_cmnd_done_head` and `scsi_cmnd_done_tail`. -/
  done : List ℕ
  /-- All commands that have been put on the done list. -/
  listed : List ℕ

/-- `SCSI_OPCODE_MVSATA_SMART`. -/
def smartOpcode : UInt8 := 0x0C

/-- The command is for `mvScsiAtaSendSmartCommand`. -/
def isSmart (scb : Scb) : Bool := scb.cmd 0 == smartOpcode

/-- `release_ata_mem`. -/
def releaseAtaMem (ch : HostChannel) (c : ℕ) : HostChannel :=
  { ch with blocks := ch.blocks.erase c, tables := ch.tables.erase c }

/-- `mv_ial_lib_add_done_queue`. -/
def addDoneQueue (ch : HostChannel) (c : ℕ) : HostChannel :=
  { ch with done := ch.done ++ [c], listed := ch.listed ++ [c] }

/-- `IALCompletion`. -/
def ialCompletion (ch : HostChannel) (c : ℕ) : HostChannel := addDoneQueue (releaseAtaMem ch c) c

/-- `mv_ial_lib_get_first_cmnd`. -/
def getFirstCmnd (ch : HostChannel) : List ℕ × HostChannel := (ch.done, { ch with done := [] })

/-- `SmartCommandCompletionCB`, which always calls the callback of the block. -/
def smartCommandCompletionCB (scb : Scb) : CompletionType → Scb
  | .normal =>
    { scb with dataTransfered := 512, scsiStatus := .good, scsiCommandCompletion := .success }
  | .abort =>
    { scb with scsiCommandCompletion := .aborted, dataTransfered := 0, senseDataLength := 0 }
  | .error _ registers =>
    handleNoneUdmaError
      { scb with dataTransfered := 0, senseDataLength := 0, scsiCommandCompletion := .ataFailed }
      registers

/-- The callback that the core driver has for a command. -/
def commandCompletionCB (scb : Scb) (type : CompletionType) : Option Scb :=
  if isSmart scb then some (smartCommandCompletionCB scb type) else salCommandCompletionCB scb type

/-- The core driver completes one of its commands. -/
def complete (ch : HostChannel) (c : ℕ) (type : CompletionType) : HostChannel :=
  if c ∈ ch.commands then
    let ch := { ch with commands := ch.commands.erase c }
    match commandCompletionCB (ch.scb c) type with
    | none => { ch with deferred := c :: ch.deferred }
    | some _ => ialCompletion ch c
  else ch

/-- The callbacks of `mvSataFlushDmaQueue`. -/
def abortCommands (ch : HostChannel) : HostChannel :=
  ch.commands.foldl (fun ch c => complete ch c .abort) ch

/-- The callbacks of `mvFlushSCSICommandQueue`. -/
def completePending (ch : HostChannel) : HostChannel :=
  ch.ial.pendingCmdQueue.foldl ialCompletion ch

/-! ### The functions of the intermediate layer -/

/-- `mvFlushSCSICommandQueue`. -/
def mvFlushSCSICommandQueue (ch : HostChannel) : HostChannel :=
  { completePending ch with ial := Ial.mvFlushSCSICommandQueue ch.ial }

/-- `mvSetChannelState`, which flushes the queue when the channel gets ready. -/
def mvSetChannelState (ch : HostChannel) (state : Ial.ChannelState) : HostChannel :=
  { if ch.ial.channelState ≠ state ∧ state = .ready then completePending ch else ch with
    ial := Ial.mvSetChannelState ch.ial state }

/-- `mvRestartChannel`. -/
def mvRestartChannel (ch : HostChannel) : HostChannel :=
  { completePending (if ch.ial.sataChannel then abortCommands ch else ch) with
    ial := Ial.mvRestartChannel ch.ial }

/-- `mvPMHotPlugDetected`. -/
def mvPMHotPlugDetected (ch : HostChannel) : HostChannel :=
  if ch.ial.channelState = .notConnected ∨ ch.ial.channelState = .connected ∨
      ch.ial.channelState = .inSrst then ch
  else mvRestartChannel { abortCommands ch with ial := Ial.flushDma ch.ial }

/-- `mvStopChannel`. -/
def mvStopChannel (ch : HostChannel) : HostChannel :=
  { completePending (if ch.ial.sataChannel then abortCommands ch else ch) with
    ial := Ial.mvStopChannel ch.ial }

section

variable (hw : Ial.ChannelHardware)

/-- The end of a bring-up. -/
def finishChannel (ch : HostChannel) : HostChannel :=
  if hw.configDma then mvSetChannelState ch .ready else mvStopChannel ch

/-- `mvChannelConnectedStateHandler`. -/
def mvChannelConnectedStateHandler (ch : HostChannel) : HostChannel :=
  if ¬ ch.ial.sataChannel ∧ ¬ hw.initChannel then
    mvSetChannelState
      { ch with ial := Ial.mvDrivesInfoFlushAll { ch.ial with sataChannel := false } } .notConnected
  else
    let (res, isChannelReady, ial) := Ial.mvStartChannelInit hw { ch.ial with sataChannel := true }
    if res then
      if isChannelReady then finishChannel hw { ch with ial }
      else mvSetChannelState { ch with ial := Ial.mvSetChannelTimer ial Ial.srstTimeout } .inSrst
    else mvStopChannel { ch with ial }

/-- `mvChannelInSrstStateHandler`. The result is whether to go on with the next channel. -/
def mvChannelInSrstStateHandler (ch : HostChannel) : Bool × HostChannel :=
  let (outcome, ial) := Ial.mvChannelSRSTFinished hw (Ial.mvDecrementChannelTimer ch.ial)
  match outcome with
  | .diskReady => (true, finishChannel hw { ch with ial })
  | .pmFound =>
    let (established, ial) := Ial.mvPMEstablishSataComm hw ial
    if ¬ established then (true, mvStopChannel { ch with ial })
    else (false, mvSetChannelState { ch with ial } .pmStaggeredSpinUp)
  | .fatalError => (true, mvStopChannel { ch with ial })
  | .busy =>
    (true, if Ial.mvIsChannelTimerExpired ial then mvStopChannel { ch with ial }
      else { ch with ial })

/-- `mvChannelPMStaggeredSpinUpStateHandler`. -/
def mvChannelPMStaggeredSpinUpStateHandler (ch : HostChannel) : HostChannel :=
  let (outcome, ial) := Ial.mvPMCheckForConnectedDevices hw ch.ial
  match outcome with
  | .channelReady => finishChannel hw { ch with ial }
  | .inProgress =>
    mvSetChannelState { ch with ial := Ial.mvSetChannelTimer ial Ial.srstTimeout } .pmSrstDevice
  | .reconnected => { ch with ial }
  | .failed _ => mvStopChannel { ch with ial }

/-- `mvChannelPMSrstDeviceStateHandler`. -/
def mvChannelPMSrstDeviceStateHandler (ch : HostChannel) : HostChannel :=
  let (outcome, ial) := Ial.mvInitPMDevice hw (Ial.mvDecrementChannelTimer ch.ial)
  match outcome with
  | .reconnected => mvRestartChannel { ch with ial }
  | .channelReady => finishChannel hw { ch with ial }
  | .inProgress => { ch with ial := Ial.mvSetChannelTimer ial Ial.srstTimeout }
  | .failed pmErrorDetected =>
    if Ial.mvIsChannelTimerExpired ial then finishChannel hw { ch with ial }
    else if pmErrorDetected then mvStopChannel { ch with ial }
    else { ch with ial }

/-- `mvChannelNotConnectedStateHandler`. `mvSataRemoveChannel` calls no callback for the commands
that the core driver has. -/
def mvChannelNotConnectedStateHandler (ch : HostChannel) : HostChannel :=
  if ch.ial.sataChannel then
    { completePending ch with
      ial := Ial.mvChannelNotConnectedStateHandler ch.ial
      commands := [] }
  else ch

/-- A command that `mvSata60X1B2CheckDevError` ends, with the error unless it is aborted. -/
structure DevError where
  command : ℕ
  error : Option (UInt16 × StorageDeviceRegisters)

/-- How the command ends. -/
def DevError.type (e : DevError) : CompletionType :=
  match e.error with
  | some (responseFlags, registers) => .error responseFlags registers
  | none => .abort

/-- `mvChannelReadyStateHandler`. -/
def mvChannelReadyStateHandler (errors : List DevError) (ch : HostChannel) : HostChannel :=
  errors.foldl (fun ch e => complete ch e.command e.type)
    { ch with ial := Ial.mvChannelReadyStateHandler hw ch.ial }

/-- `mvChannelPMHotPlugStateHandler`. -/
def mvChannelPMHotPlugStateHandler (ch : HostChannel) : HostChannel :=
  mvRestartChannel { abortCommands ch with ial := Ial.flushDma ch.ial }

/-- One turn of the loop of `mvChannelStateMachine`. The result is whether the loop ends. -/
def channelHandler (errors : List DevError) (ch : HostChannel) : Bool × HostChannel :=
  match ch.ial.channelState with
  | .notConnected => (true, mvChannelNotConnectedStateHandler ch)
  | .connected => (true, mvChannelConnectedStateHandler hw ch)
  | .inSrst => mvChannelInSrstStateHandler hw ch
  | .pmStaggeredSpinUp => (true, mvChannelPMStaggeredSpinUpStateHandler hw ch)
  | .pmSrstDevice => (true, mvChannelPMSrstDeviceStateHandler hw ch)
  | .ready => (true, mvChannelReadyStateHandler hw errors ch)
  | .pmHotPlug => (true, mvChannelPMHotPlugStateHandler ch)

/-- `mvChannelStateMachine`, with a bound on the turns of its loop. -/
def mvChannelStateMachine (errors : List DevError) : ℕ → HostChannel → Option HostChannel
  | 0, _ => none
  | fuel + 1, ch =>
    let (done, ch) := channelHandler hw errors ch
    if done then some ch else mvChannelStateMachine errors fuel ch

/-- The channels are started when the adapter gets ready. -/
def startChannel (errors : List DevError) (connected : Bool) (ch : HostChannel) :
    Option HostChannel :=
  let ch := mvFlushSCSICommandQueue ch
  if ¬ connected then some (mvSetChannelState ch .notConnected)
  else
    mvChannelStateMachine hw errors Ial.stateMachineTurns (mvSetChannelState ch .connected)

end

/-! ### Giving a command to the core driver -/

/-- The answer of `mvSataQueueCommand`, which has no queue for a channel without a structure. -/
def queueResult (ch : HostChannel) (result : QueueCommandResult) : QueueCommandResult :=
  if ch.ial.sataChannel then result else .badParams

/-- What a call that may complete a command or give it to the core driver leaves behind. -/
def takeAnswer (ch : HostChannel) (c : ℕ) (scb : Scb) (completions : List Scb)
    (queued : Option QueueCommandInfo) : HostChannel :=
  let ch := completions.foldl (fun ch _ => ialCompletion ch c)
    { ch with scb := Function.update ch.scb c scb }
  { ch with commands := ch.commands ++ queued.toList.map fun _ => c }

/-- The switch of `mvSataScsiPostIntService`. -/
def serviceBlock (results : ℕ → QueueCommandResult) (ch : HostChannel) (c : ℕ) : HostChannel :=
  let scb := ch.scb c
  let result := queueResult ch (results c)
  match scb.opcode with
  | some .verify10 | some .verify6 =>
    let followUp := mvScsiAtaSendSplittedVerifyCommand scb result
    takeAnswer ch c followUp.scb followUp.completions followUp.queued
  | some .modeSelect6 =>
    let followUp := mvScsiAtaSendReadLookAhead scb result
    takeAnswer ch c followUp.scb followUp.completions followUp.queued
  | _ => ch

/-- `mvSataScsiPostIntService` for the blocks of the channel. -/
def mvSataScsiPostIntService (results : ℕ → QueueCommandResult) (ch : HostChannel) : HostChannel :=
  { ch.deferred.foldl (serviceBlock results) ch with deferred := [] }

section Smart

/-- The ATA commands that `mvScsiAtaSendSmartCommand` lets through. -/
def smartCommands : List UInt8 := [0xEC, 0xE3, 0xE1, 0xB0]

/-- `SMART_READ_VALUES`, `SMART_READ_THRESHOLDS` and `SMART_READ_LOG_SECTOR`. -/
def smartReads : List UInt8 := [0xD0, 0xD1, 0xD5]

/-- `SMART_ENABLE`, `SMART_DISABLE`, `SMART_AUTO_OFFLINE`, `SMART_AUTOSAVE`,
`SMART_IMMEDIATE_OFFLINE` and `SMART_STATUS`. -/
def smartControls : List UInt8 := [0xD8, 0xD9, 0xDB, 0xD2, 0xD4, 0xDA]

/-- The command buffer as it is rewritten, with the protocol of the ATA command. There is none where
the command is not valid. -/
def smartBuffer (scb : Scb) : List UInt8 × Option NonUdmaProtocol :=
  let buff := scb.pDataBuffer
  let command := buff.getD 0 0
  if scb.dataBufferLength ≤ 6 ∨ command ∉ smartCommands then (buff, none)
  else if command = 0xEC then
    if scb.dataBufferLength < 518 then (buff, none)
    else ([0xEC, 0, 0, 0, 0, 0] ++ buff.drop 6, some .pioDataIn)
  else if command = 0xE3 then
    ([0xE3, 0, 0, buff.getD 3 0, 0, 0] ++ buff.drop 6, some .nonData)
  else if command = 0xE1 then ([0xE1, 0, 0, 0, 0, 0] ++ buff.drop 6, some .nonData)
  else
    let buff := (buff.set 4 0x4F).set 5 0xC2
    if buff.getD 2 0 ∈ smartReads then
      (buff, if scb.dataBufferLength < 518 then none else some .pioDataIn)
    else (buff, if buff.getD 2 0 ∈ smartControls then some .nonData else none)

/-- The ATA command of a SMART command. -/
def smartInfo (scb : Scb) (protocolType : NonUdmaProtocol) : QueueCommandInfo :=
  let buff := scb.pDataBuffer
  .noneUdma scb.target
    { protocolType
      isEXT := false
      count := if protocolType = .nonData then 0 else 256
      features := (buff.getD 2 0).toUInt16
      sectorCount := (buff.getD 3 0).toUInt16
      lbaLow := (buff.getD 1 0).toUInt16
      lbaMid := (buff.getD 4 0).toUInt16
      lbaHigh := (buff.getD 5 0).toUInt16
      device := 0x40
      command := buff.getD 0 0 }

/-- `mvScsiAtaSendSmartCommand`. -/
def mvScsiAtaSendSmartCommand (ext : SalAdapterExtension) (scb : Scb)
    (result : QueueCommandResult) : Reply :=
  let drive := ext.ataDriveData scb.bus scb.target
  let scb := { scb with dataTransfered := 0, senseDataLength := 0 }
  if scb.bus ≥ ext.numberOfChannels then
    finish drive { scb with scsiCommandCompletion := .invalidBus }
  else if scb.target.toNat ≥ pmMaxPorts ∨ drive.driveReady = false then
    finish drive { scb with scsiCommandCompletion := .noDevice }
  else
    let (buff, protocol) := smartBuffer scb
    let scb := { scb with pDataBuffer := buff }
    match protocol with
    | none =>
      finish drive
        { setSenseData scb .illegalRequest .noSense 0 with
          scsiStatus := .checkCondition
          scsiCommandCompletion := .badScsiCommand }
    | some protocolType => queueOrFinish drive scb (smartInfo scb protocolType) result

end Smart

end Mv88fxx81.Sata.Ht
