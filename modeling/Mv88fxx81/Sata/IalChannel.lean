import Mathlib.Algebra.Group.Nat.Defs
import Mathlib.Data.List.Basic
import Mathlib.Logic.Function.Basic
import Mv88fxx81.Lib.Literals

/-!
# Bringing up the channels of an adapter

The intermediate layer brings up each channel step by step. A timer drives the
steps: the channel is reset, the device behind it is found out, and the drives
behind a port multiplier are reset and initialised one after another. Commands
that come in the meantime wait in a queue. Cable events and bus resets start a
channel again or stop it.

What the hardware answers during one tick of the timer is a parameter. The
operating system is told which drives have come and gone; what it makes of that is
kept beside the state of the channel.
-/

namespace Mv88fxx81.Sata.Ial

/-- `MV_ADAPTER_STATE`. -/
inductive AdapterState
  | initializing
  | ready
  | fatalError
  deriving DecidableEq, Repr

/-- `MV_CHANNEL_STATE`. -/
inductive ChannelState
  | notConnected
  | connected
  | inSrst
  | pmStaggeredSpinUp
  | pmSrstDevice
  | ready
  | pmHotPlug
  deriving DecidableEq, Repr

/-- `MV_SATA_DEVICE_TYPE`. -/
inductive DeviceType
  | unknown
  | ataDisk
  | atapiDisk
  | pm
  deriving DecidableEq, Repr

/-- `MV_SATA_PM_MAX_PORTS`. -/
def pmMaxPorts : ℕ := 15

/-- `MV_SATA_PM_CONTROL_PORT`. -/
def pmControlPort : ℕ := 15

/-- `MV_IAL_ASYNC_TIMER_PERIOD`. -/
def asyncTimerPeriod : ℕ := 500

/-- `MV_IAL_SRST_TIMEOUT`. -/
def srstTimeout : ℕ := 31000

/-- The serial number of a drive as its identify data have it, with the first byte lowest. -/
abbrev Serial := BitVec 160

/-- The part of the serial number that is kept, of `IDEN_SERIAL_NUM_SIZE` bytes. -/
abbrev SavedSerial := BitVec 80

def savedPart (serial : Serial) : SavedSerial := serial.setWidth 80

/-- `MV_DRIVES_INFO`. -/
structure DrivesInfo where
  drivesSnapshotSaved : BitVec 16
  driveSerialSaved : ℕ → SavedSerial
  drivesSnapshotCurrent : BitVec 16
  driveSerialCurrent : ℕ → SavedSerial

/-- The drives the operating system knows, with their serial numbers. -/
abbrev OsView := ℕ → Option Serial

/-- The state of a channel. -/
structure IalChannel where
  channelState : ChannelState
  /-- The channel structure is allocated. -/
  sataChannel : Bool
  deviceType : DeviceType
  pmNumberOfPorts : ℕ
  pmDevsToInit : BitVec 16
  devInSRST : ℕ
  pmRegAccessInProgress : Bool
  pmAsyncNotifyEnabled : Bool
  pmRegPollCounter : BitVec 8
  srstTimerThreshold : ℕ
  srstTimerValue : ℕ
  pendingCmdQueue : List ℕ
  bHotPlug : Bool
  drivesInfo : DrivesInfo
  driveReady : ℕ → Bool
  /-- The serial number in the identify data of a drive. -/
  identifySerial : ℕ → Serial
  /-- The commands that have been put in the queue and the ones that have been completed from it. -/
  queued : List ℕ
  flushed : List ℕ
  /-- The ports that have been reset since the channel was started. -/
  portResets : List ℕ
  /-- What the operating system knows since the channel was ready for the first time. -/
  osView : Option OsView

/-- What the hardware answers to one channel during one tick. -/
structure ChannelHardware where
  /-- `IALInitChannel`. -/
  initChannel : Bool
  /-- `mvSataConfigureChannel`. -/
  configureChannel : Bool
  /-- `mvStorageDevATAStartSoftResetDevice` for a port. -/
  startSoftReset : ℕ → Bool
  /-- `mvStorageIsDeviceBsyBitOff`. -/
  bsyBitOff : Bool
  /-- `mvGetSataDeviceType`. -/
  deviceType : DeviceType
  /-- The adapter is of the first generation. -/
  genI : Bool
  /-- `mvStorageDevSetDeviceType`. -/
  setDeviceType : Bool
  /-- `mvInitSataDisk` for a port, and what it leaves in the identify data. -/
  initDisk : ℕ → Bool
  identify : ℕ → Serial
  /-- `mvConfigChannelDMA`. -/
  configDma : Bool
  /-- `mvGetPMDeviceInfo`, with the number of ports. -/
  pmPorts : Option (Fin 16)
  /-- `mvPMEnableCommStatusChangeBits`. -/
  commStatusChange : Bool → Bool
  /-- `mvPMEnableAsyncNotify`, with what is enabled. -/
  asyncNotify : Option Bool
  /-- `mvPMDevEnableStaggeredSpinUpAll`, with the ports it reports. -/
  spinUp : Option (BitVec 16)
  /-- The SStatus register of a port. -/
  sStatus : ℕ → Option (BitVec 32)
  /-- The SError register of a port is cleared. -/
  clearSError : ℕ → Bool
  /-- The control port is reset after a failure to read or to write a register of a port. -/
  resetAfterRead : ℕ → Bool
  resetAfterWrite : ℕ → Bool
  /-- `hasSataLinkStatusChanged`, with the status of the connection. -/
  linkStatus : Option (Fin 3)
  /-- `mvSataQueueCommand` for a register of the port multiplier. -/
  queuePmCommand : Bool

/-- The bit of a port. -/
def portBit (p : ℕ) : BitVec 16 := 1#16 <<< p

/-- `mvFlushSCSICommandQueue`. -/
def mvFlushSCSICommandQueue (ch : IalChannel) : IalChannel :=
  { ch with pendingCmdQueue := [], flushed := ch.flushed ++ ch.pendingCmdQueue }

/-- `mvAddToSCSICommandQueue`. -/
def mvAddToSCSICommandQueue (ch : IalChannel) (pScb : ℕ) : IalChannel :=
  { ch with pendingCmdQueue := ch.pendingCmdQueue ++ [pScb], queued := ch.queued ++ [pScb] }

/-- `mvDrivesInfoSaveAll`. -/
def mvDrivesInfoSaveAll (ch : IalChannel) : IalChannel :=
  { ch with drivesInfo :=
    { drivesSnapshotSaved := ch.drivesInfo.drivesSnapshotCurrent
      driveSerialSaved := ch.drivesInfo.driveSerialCurrent
      drivesSnapshotCurrent := 0
      driveSerialCurrent := fun _ => 0 } }

/-- `mvDrivesInfoFlushAll`. -/
def mvDrivesInfoFlushAll (ch : IalChannel) : IalChannel :=
  { ch with drivesInfo := ⟨0, fun _ => 0, 0, fun _ => 0⟩ }

/-- The first byte of a serial number is cleared. -/
def clearFirstByte (serial : SavedSerial) : SavedSerial := serial &&& ~~~0xff#80

/-- `mvDrivesInfoFlushSingleDrive`. -/
def mvDrivesInfoFlushSingleDrive (ch : IalChannel) (p : ℕ) : IalChannel :=
  let info := ch.drivesInfo
  { ch with drivesInfo :=
    { drivesSnapshotSaved := info.drivesSnapshotSaved &&& ~~~portBit p
      driveSerialSaved :=
        Function.update info.driveSerialSaved p (clearFirstByte (info.driveSerialSaved p))
      drivesSnapshotCurrent := info.drivesSnapshotCurrent &&& ~~~portBit p
      driveSerialCurrent :=
        Function.update info.driveSerialCurrent p (clearFirstByte (info.driveSerialCurrent p)) } }

/-- `mvSetDriveReady` of a drive that is ready. -/
def setDriveReady (ch : IalChannel) (p : ℕ) : IalChannel :=
  let info := ch.drivesInfo
  { ch with
    drivesInfo := { info with
      drivesSnapshotCurrent := info.drivesSnapshotCurrent ||| portBit p
      driveSerialCurrent :=
        Function.update info.driveSerialCurrent p (savedPart (ch.identifySerial p)) }
    driveReady := Function.update ch.driveReady p true }

/-- `mvSetDriveReady` of all drives, which are not ready. -/
def setDrivesNotReady (ch : IalChannel) : IalChannel :=
  { ch with
    drivesInfo := { ch.drivesInfo with
      drivesSnapshotCurrent := 0
      driveSerialCurrent := fun _ => 0 }
    driveReady := fun _ => false }

/-- `mvDrivesInfoGetChannelRescanParams`: the drives to remove and to add. -/
def mvDrivesInfoGetChannelRescanParams (info : DrivesInfo) : BitVec 16 × BitVec 16 :=
  (List.range pmMaxPorts).foldl (fun (remove, add) p =>
    if info.drivesSnapshotCurrent.getLsbD p then
      if info.drivesSnapshotSaved.getLsbD p then
        if info.driveSerialCurrent p ≠ info.driveSerialSaved p then
          (remove ||| portBit p, add ||| portBit p)
        else (remove, add)
      else (remove, add ||| portBit p)
    else if info.drivesSnapshotSaved.getLsbD p then (remove ||| portBit p, add)
    else (remove, add)) (0, 0)

/-- What the operating system knows after `IALBusChangeNotifyEx`. A drive that it knows already is
not looked at again. -/
def OsView.notify (view : OsView) (remove add : BitVec 16) (serial : ℕ → Serial) : OsView :=
  fun p =>
    let known := if remove.getLsbD p then none else view p
    if add.getLsbD p ∧ known = none then some (serial p) else known

/-- `IALBusChangeNotifyEx`. -/
def busChangeNotifyEx (ch : IalChannel) (remove add : BitVec 16) : IalChannel :=
  { ch with osView := ch.osView.map fun view => view.notify remove add ch.identifySerial }

/-- The drives that are ready. -/
def IalChannel.readyDrives (ch : IalChannel) : OsView :=
  fun p => if ch.driveReady p then some (ch.identifySerial p) else none

/-- The part of `mvSetChannelState` for `CHANNEL_READY`. When the channel is ready for the first
time, the operating system looks at all its drives. -/
def channelReady (ch : IalChannel) : IalChannel :=
  let ch := mvFlushSCSICommandQueue
    { ch with pmRegAccessInProgress := false, channelState := .ready }
  let ch :=
    if ch.bHotPlug then
      let (drivesToRemove, drivesToAdd) := mvDrivesInfoGetChannelRescanParams ch.drivesInfo
      let ch := { ch with bHotPlug := false }
      if drivesToRemove ≠ 0 ∨ drivesToAdd ≠ 0 then
        busChangeNotifyEx ch drivesToRemove drivesToAdd
      else ch
    else ch
  let ch := mvDrivesInfoSaveAll ch
  { ch with osView := some (ch.osView.getD ch.readyDrives) }

/-- `mvSetChannelState`. -/
def mvSetChannelState (ch : IalChannel) (state : ChannelState) : IalChannel :=
  if ch.channelState = state then ch
  else
    let ch :=
      if state = .ready ∨ state = .notConnected then
        { ch with srstTimerThreshold := 0, srstTimerValue := 0 }
      else ch
    if state = .ready then channelReady ch else { ch with channelState := state }

/-- The commands in the EDMA are flushed; a read of a register is aborted. -/
def flushDma (ch : IalChannel) : IalChannel := { ch with pmRegAccessInProgress := false }

/-- `mvRestartChannel`. -/
def mvRestartChannel (ch : IalChannel) : IalChannel :=
  let ch := setDrivesNotReady { ch with bHotPlug := true }
  let ch := if ch.sataChannel then flushDma ch else ch
  let ch := mvFlushSCSICommandQueue ch
  { ch with srstTimerThreshold := 0, srstTimerValue := 0, channelState := .connected }

/-- `mvPMHotPlugDetected`. -/
def mvPMHotPlugDetected (ch : IalChannel) : IalChannel :=
  if ch.channelState = .notConnected ∨ ch.channelState = .connected ∨ ch.channelState = .inSrst then
    ch
  else mvRestartChannel (flushDma ch)

/-- `mvStopChannel`. -/
def mvStopChannel (ch : IalChannel) : IalChannel :=
  let drivesSnapshot := ch.drivesInfo.drivesSnapshotSaved
  let ch := setDrivesNotReady (mvDrivesInfoFlushAll ch)
  let ch := mvSetChannelState ch .notConnected
  let ch := if ch.sataChannel then flushDma ch else ch
  let ch := mvFlushSCSICommandQueue ch
  let ch := { ch with sataChannel := false }
  if drivesSnapshot ≠ 0 then busChangeNotifyEx ch drivesSnapshot 0 else ch

/-- `mvSetChannelTimer`. -/
def mvSetChannelTimer (ch : IalChannel) (timeout : ℕ) : IalChannel :=
  { ch with srstTimerThreshold := timeout, srstTimerValue := 1 }

/-- `mvDecrementChannelTimer`. -/
def mvDecrementChannelTimer (ch : IalChannel) : IalChannel :=
  if ch.srstTimerThreshold > 0 then
    { ch with srstTimerValue := ch.srstTimerValue + asyncTimerPeriod }
  else ch

/-- `mvIsChannelTimerExpired`. -/
def mvIsChannelTimerExpired (ch : IalChannel) : Bool := ch.srstTimerValue > ch.srstTimerThreshold

section

variable (hw : ChannelHardware)

/-- The end of a bring-up: the EDMA is configured, or the channel stopped. -/
def finishChannel (ch : IalChannel) : IalChannel :=
  if hw.configDma then mvSetChannelState ch .ready else mvStopChannel ch

/-- A soft reset of a port is started. -/
def startPortReset (ch : IalChannel) (p : ℕ) : Bool × IalChannel :=
  (hw.startSoftReset p, { ch with portResets := ch.portResets ++ [p] })

/-- `mvStartChannelInit`. The result is whether it succeeds, and whether the channel is ready. -/
def mvStartChannelInit (ch : IalChannel) : Bool × Bool × IalChannel :=
  let ch := { ch with portResets := [] }
  if ¬ hw.configureChannel then (false, false, ch)
  else (hw.startSoftReset pmControlPort, false, ch)

/-- `mvChannelConnectedStateHandler`. -/
def mvChannelConnectedStateHandler (ch : IalChannel) : IalChannel :=
  if ¬ ch.sataChannel ∧ ¬ hw.initChannel then
    mvSetChannelState (mvDrivesInfoFlushAll { ch with sataChannel := false }) .notConnected
  else
    let (res, isChannelReady, ch) := mvStartChannelInit hw { ch with sataChannel := true }
    if res then
      if isChannelReady then finishChannel hw ch
      else mvSetChannelState (mvSetChannelTimer ch srstTimeout) .inSrst
    else mvStopChannel ch

/-- How `mvChannelSRSTFinished` ends. -/
inductive SrstOutcome
  | busy
  | fatalError
  | diskReady
  | pmFound
  deriving DecidableEq, Repr

/-- `mvInitSataDisk` and what is done when it fails or succeeds. -/
def initDisk (ch : IalChannel) (p : ℕ) : Bool × IalChannel :=
  let ch := { ch with identifySerial := Function.update ch.identifySerial p (hw.identify p) }
  if hw.initDisk p then (true, setDriveReady ch p)
  else (false, mvDrivesInfoFlushSingleDrive ch p)

/-- `mvChannelSRSTFinished`. -/
def mvChannelSRSTFinished (ch : IalChannel) : SrstOutcome × IalChannel :=
  if ¬ hw.bsyBitOff then (.busy, ch)
  else
    let deviceType :=
      if hw.genI ∧ hw.deviceType ≠ .ataDisk then DeviceType.unknown else hw.deviceType
    match deviceType with
    | .ataDisk =>
      if ¬ hw.setDeviceType then (.fatalError, ch)
      else
        let (ready, ch) := initDisk hw { ch with deviceType := deviceType } 0
        (if ready then .diskReady else .fatalError, ch)
    | .pm =>
      if ¬ hw.setDeviceType then (.fatalError, ch)
      else (.pmFound, { ch with deviceType := deviceType })
    | .atapiDisk => (.fatalError, ch)
    | .unknown => (.fatalError, ch)

/-- `mvConfigurePMDevice`. -/
def mvConfigurePMDevice (ch : IalChannel) : Bool × IalChannel :=
  let ch := { ch with pmAsyncNotifyEnabled := false }
  match hw.pmPorts with
  | none => (false, ch)
  | some ports =>
    let ch := { ch with pmNumberOfPorts := ports }
    if ¬ hw.commStatusChange false then (false, ch)
    else
      match hw.asyncNotify with
      | none => (false, ch)
      | some enabled => (true, { ch with pmAsyncNotifyEnabled := enabled })

/-- `mvPMEstablishSataComm`. -/
def mvPMEstablishSataComm (ch : IalChannel) : Bool × IalChannel :=
  let (configured, ch) := mvConfigurePMDevice hw ch
  if ¬ configured then (false, ch)
  else
    match hw.spinUp with
    | none => (false, { ch with pmDevsToInit := 0 })
    | some ports => (true, { ch with pmDevsToInit := ports })

/-- `mvChannelInSrstStateHandler`. The result is whether to go on with the next channel. -/
def mvChannelInSrstStateHandler (ch : IalChannel) : Bool × IalChannel :=
  let (outcome, ch) := mvChannelSRSTFinished hw (mvDecrementChannelTimer ch)
  match outcome with
  | .diskReady => (true, finishChannel hw ch)
  | .pmFound =>
    let (established, ch) := mvPMEstablishSataComm hw ch
    if ¬ established then (true, mvStopChannel ch)
    else (false, mvSetChannelState ch .pmStaggeredSpinUp)
  | .fatalError => (true, mvStopChannel ch)
  | .busy => (true, if mvIsChannelTimerExpired ch then mvStopChannel ch else ch)

/-- The first loop of `mvPMCheckForConnectedDevices`, for one port. The result is whether the loop
goes on. -/
def checkPort (ch : IalChannel) (p : ℕ) : Bool × IalChannel :=
  if ¬ ch.pmDevsToInit.getLsbD p then (true, ch)
  else
    let ch := { ch with pmDevsToInit := ch.pmDevsToInit &&& ~~~portBit p }
    match hw.sStatus p with
    | none => (hw.resetAfterRead p, ch)
    | some sStatus =>
      if sStatus &&& 0xf ≠ 3 then (true, ch)
      else
        (true, { ch with
          pmDevsToInit := ch.pmDevsToInit ||| portBit p
          devInSRST := if ch.devInSRST = pmControlPort + 1 then p else ch.devInSRST })

def checkPorts : List ℕ → IalChannel → Bool × IalChannel
  | [], ch => (true, ch)
  | p :: ports, ch =>
    let (goOn, ch) := checkPort hw ch p
    if goOn then checkPorts ports ch else (false, ch)

/-- How a loop that resets the ports ends. -/
inductive ResetOutcome
  | failed
  | started
  | exhausted
  deriving DecidableEq, Repr

/-- The loops over the ports that start the next soft reset. They differ in what they make of a port
whose SError register cannot be cleared. -/
def resetNextPort (giveUp : ℕ → Bool) : List ℕ → IalChannel → ResetOutcome × IalChannel
  | [], ch => (.exhausted, ch)
  | p :: ports, ch =>
    if ch.pmDevsToInit.getLsbD p then
      let ch := { ch with devInSRST := p }
      if ¬ hw.clearSError p ∧ giveUp p then (.failed, ch)
      else
        let (started, ch) := startPortReset hw ch p
        if started then (.started, ch)
        else
          resetNextPort giveUp ports
            { ch with pmDevsToInit := ch.pmDevsToInit &&& ~~~portBit p }
    else resetNextPort giveUp ports ch

/-- The ports from the one in `devInSRST` on. -/
def portsFrom (ch : IalChannel) : List ℕ :=
  List.range' ch.devInSRST (ch.pmNumberOfPorts - ch.devInSRST)

/-- How the initialisation of the ports goes on. -/
inductive PmOutcome
  | failed (pmErrorDetected : Bool)
  | reconnected
  | channelReady
  | inProgress
  deriving DecidableEq, Repr

/-- No port is left: changes of the ports are reported from now on. -/
def portsDone : PmOutcome := if hw.commStatusChange true then .channelReady else .failed false

/-- The end of the functions that reset the ports. A loop that starts behind the last port does not
find that no port is left. -/
def nextPort (giveUp : ℕ → Bool) (ch : IalChannel) : PmOutcome × IalChannel :=
  if ch.pmDevsToInit = 0 then (portsDone hw, ch)
  else
    let (outcome, ch') := resetNextPort hw giveUp (portsFrom ch) ch
    match outcome with
    | .failed => (.failed true, ch')
    | .started => (.inProgress, ch')
    | .exhausted =>
      (if ch.devInSRST ≤ ch.pmNumberOfPorts then portsDone hw else .inProgress, ch')

/-- `mvPMCheckForConnectedDevices`. -/
def mvPMCheckForConnectedDevices (ch : IalChannel) : PmOutcome × IalChannel :=
  let (goOn, ch) := checkPorts hw (List.range ch.pmNumberOfPorts)
    { ch with devInSRST := pmControlPort + 1 }
  if ¬ goOn then (.failed false, ch)
  else nextPort hw (fun p => ¬ hw.resetAfterWrite p) ch

/-- `mvChannelPMStaggeredSpinUpStateHandler`. -/
def mvChannelPMStaggeredSpinUpStateHandler (ch : IalChannel) : IalChannel :=
  let (outcome, ch) := mvPMCheckForConnectedDevices hw ch
  match outcome with
  | .channelReady => finishChannel hw ch
  | .inProgress => mvSetChannelState (mvSetChannelTimer ch srstTimeout) .pmSrstDevice
  | .reconnected => ch
  | .failed _ => mvStopChannel ch

/-- The part of `mvInitPMDevice` for the port that has been reset. Nothing is returned where it goes
on with the next port. -/
def initPort (ch : IalChannel) (p : ℕ) : Option PmOutcome × IalChannel :=
  let ch := { ch with pmDevsToInit := ch.pmDevsToInit &&& ~~~portBit p }
  match hw.linkStatus with
  | none => (some (.failed true), ch)
  | some 0 => (none, (initDisk hw ch p).2)
  | some 1 => (none, ch)
  | some 2 => (some .reconnected, ch)

/-- `mvInitPMDevice`. -/
def mvInitPMDevice (ch : IalChannel) : PmOutcome × IalChannel :=
  let p := ch.devInSRST
  -- a call of this function that should not have been made
  if p = pmControlPort + 1 then (.failed false, ch)
  else if ¬ hw.bsyBitOff then
    if ¬ mvIsChannelTimerExpired ch then (.failed false, ch)
    else
      nextPort hw (fun _ => true) { ch with pmDevsToInit := ch.pmDevsToInit &&& ~~~portBit p }
  else
    match initPort hw ch p with
    | (some outcome, ch) => (outcome, ch)
    | (none, ch) => nextPort hw (fun _ => true) ch

/-- `mvChannelPMSrstDeviceStateHandler`. -/
def mvChannelPMSrstDeviceStateHandler (ch : IalChannel) : IalChannel :=
  let (outcome, ch) := mvInitPMDevice hw (mvDecrementChannelTimer ch)
  match outcome with
  | .reconnected => mvRestartChannel ch
  | .channelReady => finishChannel hw ch
  | .inProgress => mvSetChannelTimer ch srstTimeout
  | .failed pmErrorDetected =>
    if mvIsChannelTimerExpired ch then finishChannel hw ch
    else if pmErrorDetected then mvStopChannel ch
    else ch

/-- `mvChannelNotConnectedStateHandler`. -/
def mvChannelNotConnectedStateHandler (ch : IalChannel) : IalChannel :=
  if ch.sataChannel then
    mvFlushSCSICommandQueue (setDrivesNotReady { ch with sataChannel := false })
  else ch

/-- `mvChannelReadyStateHandler`. -/
def mvChannelReadyStateHandler (ch : IalChannel) : IalChannel :=
  if ¬ ch.pmRegAccessInProgress ∧ ch.deviceType = .pm ∧ ¬ ch.pmAsyncNotifyEnabled then
    let counter := ch.pmRegPollCounter
    let ch := { ch with pmRegPollCounter := counter + 1 }
    if counter &&& 3 ≠ 0 then ch else { ch with pmRegAccessInProgress := hw.queuePmCommand }
  else ch

/-- `mvChannelPMHotPlugStateHandler`. -/
def mvChannelPMHotPlugStateHandler (ch : IalChannel) : IalChannel :=
  mvRestartChannel (flushDma ch)

/-- One turn of the loop of `mvChannelStateMachine`. The result is whether the loop ends. -/
def channelHandler (ch : IalChannel) : Bool × IalChannel :=
  match ch.channelState with
  | .notConnected => (true, mvChannelNotConnectedStateHandler ch)
  | .connected => (true, mvChannelConnectedStateHandler hw ch)
  | .inSrst => mvChannelInSrstStateHandler hw ch
  | .pmStaggeredSpinUp => (true, mvChannelPMStaggeredSpinUpStateHandler hw ch)
  | .pmSrstDevice => (true, mvChannelPMSrstDeviceStateHandler hw ch)
  | .ready => (true, mvChannelReadyStateHandler hw ch)
  | .pmHotPlug => (true, mvChannelPMHotPlugStateHandler ch)

/-- `mvChannelStateMachine`, with a bound on the turns of its loop. -/
def mvChannelStateMachine : ℕ → IalChannel → Option IalChannel
  | 0, _ => none
  | fuel + 1, ch =>
    let (done, ch) := channelHandler hw ch
    if done then some ch else mvChannelStateMachine fuel ch

end

/-- `mvPMCommandCompletionCB` for a register of the port multiplier that has been read. -/
def mvPMCommandCompletionCB (ch : IalChannel) (value : BitVec 32) : IalChannel :=
  let ch := { ch with pmRegAccessInProgress := false }
  if value ≠ 0 then
    mvSetChannelState { ch with pmDevsToInit := (value &&& 0x7fff).setWidth 16 } .pmHotPlug
  else ch

section

variable {n : ℕ}

/-- An adapter with `n` channels. -/
structure IalAdapter (n : ℕ) where
  adapterState : AdapterState
  channels : Fin n → IalChannel

/-- What the hardware answers during one tick. -/
structure AdapterHardware (n : ℕ) where
  /-- `mvSataEnableStaggeredSpinUpAll`. -/
  enableSpinUp : Bool
  /-- `mvSataUnmaskAdapterInterrupt`. -/
  unmaskInterrupt : Bool
  /-- `mvSataIsStorageDeviceConnected`. -/
  connected : Fin n → Bool
  channel : Fin n → ChannelHardware

/-- Run a function for all channels. -/
def forChannels (f : Fin n → Option IalChannel) : Option (Fin n → IalChannel) :=
  if h : ∀ c, (f c).isSome = true then some fun c => (f c).get (h c) else none

/-- The turns that the loop of `mvChannelStateMachine` makes at most. -/
def stateMachineTurns : ℕ := 2

/-- The channels are started when the adapter gets ready. -/
def startChannel (hw : ChannelHardware) (connected : Bool) (ch : IalChannel) : Option IalChannel :=
  let ch := mvFlushSCSICommandQueue ch
  if ¬ connected then some (mvSetChannelState ch .notConnected)
  else mvChannelStateMachine hw stateMachineTurns (mvSetChannelState ch .connected)

/-- `mvAdapterStateMachine`. -/
def mvAdapterStateMachine (a : IalAdapter n) (hw : AdapterHardware n) : Option (IalAdapter n) :=
  match a.adapterState with
  | .initializing =>
    if ¬ hw.enableSpinUp then some a
    else if ¬ hw.unmaskInterrupt then some { a with adapterState := .fatalError }
    else
      (forChannels fun c => startChannel (hw.channel c) (hw.connected c) (a.channels c)).map
        fun channels => ⟨.ready, channels⟩
  | .ready =>
    (forChannels fun c => mvChannelStateMachine (hw.channel c) stateMachineTurns (a.channels c)).map
      fun channels => { a with channels := channels }
  | .fatalError => some a

/-- `MV_SCSI_COMMAND_STATUS_TYPE`, where it is known to this layer. -/
inductive ExecuteStatus
  /-- The command goes to `mvSataExecuteScsiCommand`. -/
  | passedOn
  | completed
  | queuedByIal
  deriving DecidableEq, Repr

/-- The channel neither starts nor waits for its drives. -/
def IalChannel.Settled (ch : IalChannel) : Prop :=
  ch.channelState = .ready ∨ ch.channelState = .notConnected

instance (ch : IalChannel) : Decidable ch.Settled := inferInstanceAs (Decidable (_ ∨ _))

def IalAdapter.setChannel (a : IalAdapter n) (c : Fin n) (ch : IalChannel) : IalAdapter n :=
  { a with channels := Function.update a.channels c ch }

/-- `mvExecuteScsiCommand`. -/
def mvExecuteScsiCommand (a : IalAdapter n) (c : Fin n) (pScb : ℕ) (canQueue : Bool) :
    ExecuteStatus × IalAdapter n :=
  if a.adapterState = .ready ∧ (a.channels c).Settled then (.passedOn, a)
  else if ¬ canQueue then (.completed, a)
  else (.queuedByIal, a.setChannel c (mvAddToSCSICommandQueue (a.channels c) pScb))

/-- The calls of the layer. -/
inductive IalEvent (n : ℕ)
  | execute (c : Fin n) (pScb : ℕ) (canQueue : Bool)
  | tick (hw : AdapterHardware n)
  /-- A device is connected, the bus is reset, or the communication failed. -/
  | restart (c : Fin n)
  /-- The device is disconnected. -/
  | stop (c : Fin n)
  | hotPlug (c : Fin n)
  /-- A register of the port multiplier has been read. -/
  | pmRegister (c : Fin n) (value : BitVec 32)

/-- One call. A register is only reported when its read has been queued. -/
def ialStep (a : IalAdapter n) : IalEvent n → Option (Option ExecuteStatus × IalAdapter n)
  | .execute c pScb canQueue =>
    let (status, a) := mvExecuteScsiCommand a c pScb canQueue
    some (some status, a)
  | .tick hw => (mvAdapterStateMachine a hw).map fun a => (none, a)
  | .restart c => some (none, a.setChannel c (mvRestartChannel (a.channels c)))
  | .stop c => some (none, a.setChannel c (mvStopChannel (a.channels c)))
  | .hotPlug c => some (none, a.setChannel c (mvPMHotPlugDetected (a.channels c)))
  | .pmRegister c value =>
    if (a.channels c).pmRegAccessInProgress then
      some (none, a.setChannel c (mvPMCommandCompletionCB (a.channels c) value))
    else none

/-- A channel before the first tick. -/
def initialChannel : IalChannel where
  channelState := .notConnected
  sataChannel := false
  deviceType := .unknown
  pmNumberOfPorts := 0
  pmDevsToInit := 0
  devInSRST := pmControlPort + 1
  pmRegAccessInProgress := false
  pmAsyncNotifyEnabled := false
  pmRegPollCounter := 0
  srstTimerThreshold := 0
  srstTimerValue := 0
  pendingCmdQueue := []
  bHotPlug := false
  drivesInfo := ⟨0, fun _ => 0, 0, fun _ => 0⟩
  driveReady := fun _ => false
  identifySerial := fun _ => 0
  queued := []
  flushed := []
  portResets := []
  osView := none

/-- The adapter as `mvAdapterStartInitialization` leaves it before its first tick. -/
def initialAdapter (n : ℕ) : IalAdapter n := ⟨.initializing, fun _ => initialChannel⟩

end

end Mv88fxx81.Sata.Ial
