import Mv88fxx81.Sata.Channel

/-!
# Starting and completing the commands of a channel

PIO commands and UDMA commands exclude each other: the EDMA is stopped before a
PIO command is sent, and the UDMA commands behind it wait. The commands that wait
are started when a PIO command completes and when the channel recovers from an
error. The commands that a drive aborts in native queuing are found out with READ
LOG EXT, a PIO command that the driver puts in front of the queue.
-/

namespace Mv88fxx81.Sata.Core

variable (cfg : ChannelConfig) (hw : Hardware)

/-- `completePIOCommand` up to the callback. -/
def finishPIOCommand (ch : Channel) (e : EntryRef) (failed : Bool) : Channel :=
  let entry := ch.commandsQueue e
  let ch :=
    if failed then { ch with queueCommandsEnabled := false }
    else { ch with recoveredErrorsCounter := 0 }
  if entry.hostTag = 0xff then { ch with queue := commandsQueueRemove ch.queue e }
  else
    (removeCommand cfg ch e).callBack entry.info.commandId (if failed then .error else .normal)

/-- `_getHostTagByDeviceTag`. -/
def getHostTagByDeviceTag (ch : Channel) (deviceTag : ℕ) (pmPort : ℕ) : Option ℕ :=
  ((ch.commandsInEdma cfg).find? fun e =>
    (ch.commandsQueue e).deviceTag = deviceTag ∧ (ch.commandsQueue e).info.pmPort = pmPort).map
      fun e => (ch.commandsQueue e).hostTag

/-- The command of an entry failed in the EDMA: its callback is called, and it is removed. -/
def failCommand (ch : Channel) (e : EntryRef) : Channel :=
  let commandId := (ch.commandsQueue e).info.commandId
  removeCommand cfg
    ({ ch with edmaQueuedCommands := decr8 ch.edmaQueuedCommands }.callBack commandId .error) e

/-- `parseReadLogExtOutPut`. -/
def parseReadLogExtOutPut (ch : Channel) : Bool × Channel :=
  if ¬ hw.readLogExt.crc then (false, ch)
  else if hw.readLogExt.nonQueued then (false, ch)
  else
    match getHostTagByDeviceTag cfg ch hw.readLogExt.tag ch.currPort with
    | none => (false, ch)
    | some tag =>
      let entry := ch.commandsQueue (.command tag)
      if entry.isFreeEntry then (false, ch)
      else if (entry.info.pmPort : ℕ) ≠ ch.currPort then (false, ch)
      else if ¬ entry.info.isUdma then (false, ch)
      else (true, failCommand cfg ch (.command tag))

/-- `insertReadLogExtCmnd`. Where the command cannot be sent it is completed at once; its callback
does nothing after a failure. -/
def insertReadLogExtCmnd (ch : Channel) : Channel :=
  let ch := ch.updateEntry .readLogExt fun _ =>
    { isFreeEntry := false
      hostTag := 0xff
      deviceTag := 0xff
      isCommandInEdma := false
      commandAborted := false
      info := ⟨Fin.ofNat 16 ch.currPort, 0, .noneUdma .pioDataIn 256⟩ }
  let ch := { ch with queue := commandsQueueAddHead ch.queue .readLogExt }
  if ch.useVendorUniqGen2WA then ch
  else
    let (sent, ch) := sendNoneUdmaCommand cfg hw ch .readLogExt
    if sent then ch else finishPIOCommand cfg ch .readLogExt true

/-- The next port with an error, or 16. -/
def nextErringPort (portsWithErrors : BitVec 16) (currPort : ℕ) : ℕ :=
  ((List.range 16).find? fun p => currPort ≤ p ∧ portsWithErrors.getLsbD p).getD 16

/-- The errors of all ports are handled: the EDMA queues are reset, and the commands inserted. -/
def finishErrorHandling (insert : Channel → Channel) (ch : Channel) : Channel :=
  insert (resetEdmaQPointers { ch with state := .idle, portsWithErrors := 0 })

/-- `handlePortError`. -/
def handlePortError (insert : Channel → Channel) (ch : Channel) : Channel :=
  let ch := { ch with currPort := nextErringPort ch.portsWithErrors ch.currPort }
  if ch.currPort > 15 then finishErrorHandling insert ch else insertReadLogExtCmnd cfg hw ch

/-- `ReadLogExtCompletionCB` after a normal completion. -/
def readLogExtCompletionCB (insert : Channel → Channel) (ch : Channel) : Channel :=
  let (parsed, ch) := parseReadLogExtOutPut cfg hw ch
  if parsed then handlePortError cfg hw insert { ch with currPort := ch.currPort + 1 } else ch

/-- `_doDevErrorRecovery`, after the command of an entry or an EDMA error. -/
def doDevErrorRecoveryWith (insert : Channel → Channel) (ch : Channel) (e : Option EntryRef) :
    Channel :=
  if (cfg.generation = .genI ∨ cfg.queuedDma = .queued) ∧ ¬ hw.softReset e then ch
  else insert (resetEdmaQPointers { ch with queueCommandsEnabled := true })

/-- `completePIOCommand`. -/
def completePIOCommandWith (insert : Channel → Channel) (ch : Channel) (e : EntryRef)
    (failed : Bool) : Channel :=
  let hostTag := (ch.commandsQueue e).hostTag
  let ch := finishPIOCommand cfg ch e failed
  if hostTag = 0xff then if failed then ch else readLogExtCompletionCB cfg hw insert ch
  else if failed then doDevErrorRecoveryWith cfg hw insert ch (some e)
  else insert ch

/-- `_insertQCommandsIntoEdma`. It calls itself through `completePIOCommand` when a PIO command
cannot be sent. -/
def insertQCommandsFuel : ℕ → Channel → Channel
  | 0, ch => ch
  | fuel + 1, ch =>
    match ch.queue.head with
    | none => ch
    | some e =>
      if (ch.commandsQueue e).info.isUdma then
        let ch := activateEdma ch
        ((ch.commands cfg).takeWhile fun e => (ch.commandsQueue e).info.isUdma).foldl
          (edmaReqQueueInsert cfg) ch
      else
        let (sent, ch) := sendNoneUdmaCommand cfg hw ch e
        if sent then ch
        else completePIOCommandWith cfg hw (insertQCommandsFuel fuel) ch e true

def insertQCommandsIntoEdma (ch : Channel) : Channel :=
  insertQCommandsFuel cfg hw (cfg.commandsQueueSize + 2) ch

def completePIOCommand (ch : Channel) (e : EntryRef) (failed : Bool) : Channel :=
  completePIOCommandWith cfg hw (insertQCommandsIntoEdma cfg hw) ch e failed

def doDevErrorRecovery (ch : Channel) : Channel :=
  doDevErrorRecoveryWith cfg hw (insertQCommandsIntoEdma cfg hw) ch none

/-- `updatePortsWithErrors`. -/
def updatePortsWithErrors (ch : Channel) : Channel :=
  { ch with portsWithErrors := ch.portsWithErrors ||| hw.testCtrlPorts }

/-- The drive has aborted the command of an entry. -/
def isAborted (ch : Channel) (e : EntryRef) : Bool :=
  let entry := ch.commandsQueue e
  match cfg.queuedDma with
  | .nativeQueuing => ch.portsWithErrors.getLsbD entry.info.pmPort
  | .queued =>
    cfg.fbsEnabled && decide (entry.info.pmPort = hw.ifStatusPort) &&
      hw.tcqOutstanding entry.hostTag
  | .notQueued => false

/-- `setAbortedCommands`. -/
def setAbortedCommands (ch : Channel) : Channel :=
  if ¬ ch.edmaActive then ch
  else
    (ch.commandsInEdma cfg).foldl (fun ch e =>
      if isAborted cfg hw ch e then ch.updateEntry e fun entry =>
        { entry with commandAborted := true }
      else ch) ch

/-- `isGoodCompletionsExpected`. -/
def isGoodCompletionsExpected (ch : Channel) : Bool :=
  (ch.commandsInEdma cfg).any (fun e => ¬ (ch.commandsQueue e).commandAborted) ||
    decide (cfg.generation = .genIIE ∧ cfg.queuedDma = .nativeQueuing) &&
      (!hw.eCacheEmpty || !hw.edmaIdle) ||
    decide (cfg.queuedDma = .nativeQueuing) && decide (ch.rspOutPtr ≠ hw.rspInPtr)

/-- `softResetErringPorts`. -/
def softResetErringPorts (ch : Channel) : Channel :=
  finishErrorHandling (insertQCommandsIntoEdma cfg hw) { ch with currPort := 16 }

/-- `enterRequestSenseState`. -/
def enterRequestSenseState (ch : Channel) : Channel :=
  let ch := { ch with
    useVendorUniqGen2WA := decide (cfg.generation = .genII) && hw.edmaState70 }
  let ch := deactivateEdma cfg hw ch
  if cfg.queuedDma = .notQueued then
    if ¬ cfg.fbsEnabled then ch
    else finishErrorHandling (insertQCommandsIntoEdma cfg hw) ch
  else if hw.ataBusy then { ch with state := .waitForBusy }
  else
    let ch := { ch with state := .requestSense, currPort := 0 }
    if cfg.queuedDma = .queued then softResetErringPorts cfg hw ch
    else handlePortError cfg hw (insertQCommandsIntoEdma cfg hw) ch

/-- The device tag of the command that failed, as `handleEdmaFailedCommand` finds it. -/
def failedDeviceTag (ch : Channel) (pmPort : Fin 16) : Option ℕ :=
  match cfg.queuedDma with
  | .queued =>
    if ch.portQueuedCommands pmPort = 1 then
      ((ch.commandsInEdma cfg).find? fun e => (ch.commandsQueue e).info.pmPort = pmPort).map
        fun e => (ch.commandsQueue e).deviceTag
    else some hw.sectorCountTag
  | .notQueued => some hw.edmaStatusTag
  | .nativeQueuing => none

/-- `handleEdmaFailedCommand`. -/
def handleEdmaFailedCommand (ch : Channel) : Channel :=
  let pmPort := if cfg.pmSupported then hw.ifStatusPort else 0
  match failedDeviceTag cfg hw ch pmPort with
  | none => ch
  | some deviceTag =>
    match getHostTagByDeviceTag cfg ch deviceTag pmPort with
    | none => ch
    | some hostTag =>
      if (ch.commandsQueue (.command hostTag)).isFreeEntry then ch
      else failCommand cfg ch (.command hostTag)

end Mv88fxx81.Sata.Core
