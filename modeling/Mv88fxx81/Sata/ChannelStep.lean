import Mv88fxx81.Sata.ChannelRecovery

/-!
# The calls and interrupts of a channel

A step of a channel is a call of the layer above, a response of the EDMA, an error
interrupt of the EDMA or an interrupt of the drive. A step has no result where the
driver follows a null pointer.
-/

namespace Mv88fxx81.Sata.Core

variable (cfg : ChannelConfig) (hw : Hardware)

/-- `MV_EDMA_GEN_I_UNRECOVERABLE_EDMA_ERROR` and `MV_EDMA_GEN_II_UNRECOVERABLE_EDMA_ERROR`. -/
def unrecoverableEdmaError : BitVec 32 :=
  if cfg.generation = .genI then 0x00001e6b else 0xfc1e9e0b

/-- `MV_EDMA_GEN_I_RECOVERABLE_EDMA_ERROR` and `MV_EDMA_GEN_II_RECOVERABLE_EDMA_ERROR`. -/
def recoverableEdmaError : BitVec 32 := if cfg.generation = .genI then 0 else 0x03e16020

/-- The channel is stopped, flushed and reset. -/
def abortChannel (ch : Channel) : Channel :=
  resetEdmaChannel cfg (flushDmaQueue cfg
    (deactivateEdma cfg hw { ch with queueCommandsEnabled := false, edmaActive := false }))

/-- `handleUnrecoverableError`. -/
def handleUnrecoverableError (ch : Channel) (eDmaErrorCause : BitVec 32) : Bool × Channel :=
  if eDmaErrorCause &&& unrecoverableEdmaError cfg ≠ 0 then (true, abortChannel cfg hw ch)
  else (false, ch)

/-- `handleRecoverableError`. -/
def handleRecoverableError (ch : Channel) (eDmaErrorCause : BitVec 32) : Bool × Channel :=
  if eDmaErrorCause &&& recoverableEdmaError cfg ≠ 0 then
    let counter := ch.recoveredErrorsCounter
    let ch := { ch with recoveredErrorsCounter := incr8 counter }
    (true, if counter > 10 then abortChannel cfg hw ch else ch)
  else (false, ch)

/-- `handleDisconnect`. -/
def handleDisconnect (ch : Channel) : Channel :=
  { ch with queueCommandsEnabled := false, edmaActive := false, edmaHalted := false }

/-- `handleSelfDisable`. -/
def handleSelfDisable (ch : Channel) (eDmaErrorCause : BitVec 32) : Bool × Channel :=
  if eDmaErrorCause.getLsbD (if cfg.generation = .genI then 8 else 7) then
    let ch :=
      if ch.edmaActive then
        let ch := { ch with queueCommandsEnabled := false, edmaActive := false }
        if eDmaErrorCause.getLsbD 2 ∧ cfg.queuedDma ≠ .nativeQueuing then
          handleEdmaFailedCommand cfg hw ch
        else ch
      else ch
    (true, doDevErrorRecovery cfg hw { ch with edmaHalted := false })
  else (false, ch)

/-- The first error of a port. -/
def firstError (ch : Channel) : Channel :=
  if ch.state = .idle then { ch with state := .waitForCompletions } else ch

/-- The commands that the drive aborted are marked. When no other is expected to complete, the
errors are handled. -/
def handleAborted (ch : Channel) : Channel :=
  let ch := setAbortedCommands cfg hw (updatePortsWithErrors hw ch)
  if isGoodCompletionsExpected cfg hw ch then ch else enterRequestSenseState cfg hw ch

/-- `handleDevErr`. -/
def handleDevErr (ch : Channel) (eDmaErrorCause : BitVec 32) : Bool × Channel :=
  if cfg.generation ≠ .genI ∧ eDmaErrorCause.getLsbD 2 then
    (true,
      if ¬ ch.edmaActive then ch
      else if cfg.queuedDma = .nativeQueuing then handleAborted cfg hw (firstError ch)
      else if cfg.fbsEnabled ∧ cfg.queuedDma = .queued then
        handleAborted cfg hw (handleEdmaFailedCommand cfg hw (firstError ch))
      else ch)
  else (false, ch)

/-- `handleEdmaError`. -/
def handleEdmaError (ch : Channel) (eDmaErrorCause : BitVec 32) : Channel :=
  let ch := if eDmaErrorCause.getLsbD 3 then handleDisconnect ch else ch
  if eDmaErrorCause.getLsbD 3 ∧ ¬ hw.connected then ch
  else if eDmaErrorCause.getLsbD 4 then ch
  else
    let (handled, ch) := handleUnrecoverableError cfg hw ch eDmaErrorCause
    if handled then ch
    -- the asynchronous notification of a port multiplier
    else if cfg.generation ≠ .genI ∧ eDmaErrorCause.getLsbD 8 then ch
    else
      let (handled, ch) := handleSelfDisable cfg hw ch eDmaErrorCause
      if handled then ch
      else
        let (handled, ch) := handleDevErr cfg hw ch eDmaErrorCause
        if handled then ch else (handleRecoverableError cfg hw ch eDmaErrorCause).2

/-- The flags of a response are only the ones of SError, which is recoverable. -/
def ignoresSError (responseFlags : BitVec 16) : Bool :=
  decide (cfg.generation ≠ .genI) && responseFlags.getLsbD 5 &&
    decide (responseFlags &&& 0xdf = 0)

/-- The flags of a response are the ones of a device error, which does not stop the EDMA. -/
def ignoresDeviceError (responseFlags : BitVec 16) : Bool :=
  (decide (cfg.queuedDma = .nativeQueuing) || cfg.fbsEnabled) && responseFlags.getLsbD 2 &&
    decide (responseFlags &&& 0xdb = 0)

/-- What `handleEdmaResponse` makes of the flags of a response. -/
inductive ResponseOutcome
  /-- The response is dropped. -/
  | ignored (ch : Channel)
  /-- The command is completed. -/
  | completes (ch : Channel) (compType : CompletionType)

/-- The EDMA has stopped with an error. -/
def haltEdma (ch : Channel) : Channel :=
  { ch with queueCommandsEnabled := false, edmaActive := false, edmaHalted := true }

/-- The first part of `handleEdmaResponse`. -/
def checkResponseFlags (ch : Channel) (responseFlags : BitVec 16) : ResponseOutcome :=
  if responseFlags &&& 0xff = 0 then .completes ch .normal
  else
    let ch :=
      if ignoresSError cfg responseFlags then
        (handleRecoverableError cfg hw { ch with recoveredErrorsCounter := 0 } 0x20).2
      else ch
    if ignoresSError cfg responseFlags ∨ ignoresDeviceError cfg responseFlags then
      .completes ch
        (if ignoresDeviceError cfg responseFlags ∧ cfg.queuedDma ≠ .nativeQueuing then .error
        else .normal)
    else if hw.eDmaErrorCause &&& (unrecoverableEdmaError cfg &&& ~~~3) ≠ 0 then
      .ignored (haltEdma ch)
    else .completes (haltEdma ch) .error

/-- The part of `handleEdmaResponse` for a device error. Nothing is returned where the response is
dropped. -/
def checkDeviceError (ch : Channel) (responseFlags : BitVec 16) : Option Channel :=
  if responseFlags.getLsbD 2 ∧ cfg.queuedDma ≠ .nativeQueuing ∧ cfg.fbsEnabled then
    if cfg.queuedDma = .notQueued then some (setAbortedCommands cfg hw (firstError ch)) else none
  else some ch

/-- The end of `handleEdmaResponse`, which starts a PIO command that waits. -/
def startNextCommand (ch : Channel) : Option Channel :=
  match ch.queue.head with
  | none => some ch
  | some e =>
    if (ch.commandsQueue e).info.isUdma then some ch
    else
      let ch := deactivateEdma cfg hw ch
      match ch.queue.head with
      | none => none
      | some e =>
        let (sent, ch) := sendNoneUdmaCommand cfg hw ch e
        match ch.queue.head with
        | none => none
        | some e => some (if sent then ch else completePIOCommand cfg hw ch e true)

/-- The part of `handleEdmaResponse` that completes the command. -/
def completeResponse (ch : Channel) (e : EntryRef) (compType : CompletionType) : Option Channel :=
  let entry := ch.commandsQueue e
  if entry.isFreeEntry then some ch
  else
    let ch := { ch with edmaQueuedCommands := decr8 ch.edmaQueuedCommands }
    let ch := removeCommand cfg (ch.callBack entry.info.commandId compType) e
    if ¬ ch.queueCommandsEnabled then some ch
    else if ch.state = .waitForCompletions ∧ ¬ isGoodCompletionsExpected cfg hw ch then
      some (enterRequestSenseState cfg hw ch)
    else startNextCommand cfg hw ch

/-- `handleEdmaResponse`. -/
def handleEdmaResponse (ch : Channel) (id : ℕ) (responseFlags : BitVec 16) : Option Channel :=
  match checkResponseFlags cfg hw ch responseFlags with
  | .ignored ch => some ch
  | .completes ch compType =>
    match checkDeviceError cfg hw ch responseFlags with
    | none => some ch
    | some ch => completeResponse cfg hw ch (.command (id % cfg.edmaQueueLength)) compType

/-- What an interrupt of the drive does to the PIO command that is running. -/
inductive PioOutcome
  /-- The command goes on, with the number of words that are left. -/
  | running (count : ℕ)
  | completes (count : ℕ) (failed : Bool)

/-- What is left when `transferPIOData` has transferred a block. -/
def transferPIOData (count : ℕ) : ℕ := count - cfg.drqDataBlockSize * 256

/-- `handlePIOInterrupt`, as far as the command that is running is concerned. -/
def pioInterrupt (protocolType : NonUdmaProtocol) (count : ℕ) : PioOutcome :=
  -- busy, and error
  if hw.ataStatus.getLsbD 7 then .running count
  else if hw.ataStatus.getLsbD 0 then .completes count true
  else
    match protocolType with
    | .nonData => .completes count false
    | .pioDataIn =>
      -- ready, and data request
      if hw.ataStatus.getLsbD 6 then
        let count := transferPIOData cfg count
        if count = 0 ∧ ¬ hw.ataStatusAfter.getLsbD 3 then .completes count false
        else .running count
      else .completes count true
    | .pioDataOut =>
      -- ready, and device fault
      if hw.ataStatus.getLsbD 6 ∧ ¬ hw.ataStatus.getLsbD 5 then
        if count = 0 then .completes count false else .running (transferPIOData cfg count)
      else .completes count true

/-- The number of words that are left is stored. -/
def Channel.setCount (ch : Channel) (e : EntryRef) (protocolType : NonUdmaProtocol) (count : ℕ) :
    Channel :=
  ch.updateEntry e fun entry =>
    { entry with info := { entry.info with params := .noneUdma protocolType count } }

/-- `handlePIOInterrupt`. -/
def handlePIOInterrupt (ch : Channel) (e : EntryRef) (protocolType : NonUdmaProtocol) (count : ℕ) :
    Channel :=
  match pioInterrupt cfg hw protocolType count with
  | .running count => ch.setCount e protocolType count
  | .completes count failed => completePIOCommand cfg hw (ch.setCount e protocolType count) e failed

/-- `handleDeviceInterrupt`. -/
def handleDeviceInterrupt (ch : Channel) : Channel :=
  if ch.state = .waitForBusy then
    handlePortError cfg hw (insertQCommandsIntoEdma cfg hw)
      { ch with state := .requestSense, currPort := 0 }
  else
    match ch.queue.head with
    | none => ch
    | some e =>
      if (ch.commandsQueue e).isFreeEntry then ch
      else
        match (ch.commandsQueue e).info.params with
        | .udma _ => ch
        | .noneUdma protocolType count => handlePIOInterrupt cfg hw ch e protocolType count

/-- `MV_QUEUE_COMMAND_RESULT`. -/
inductive QueueCommandResult
  | ok
  | badParams
  | queuedModeDisabled
  | full
  deriving DecidableEq, Repr

/-- The parameters with which a command is queued. -/
def acceptParams : CommandParams → CommandParams
  | .udma params => .udma (acceptUdma cfg.queuedDma params)
  | .noneUdma protocolType count => .noneUdma protocolType count

/-- The command asks for something that only Gen IIE adapters have. -/
def refusesParams : CommandParams → Bool
  | .udma params => decide (cfg.generation ≠ .genIIE) && params.singleDataRegion
  | .noneUdma _ _ => false

/-- The entry of a new command. -/
def Channel.prepareEntry (ch : Channel) (hostTag deviceTag : ℕ) : Channel :=
  ch.updateEntry (.command hostTag) fun entry =>
    { entry with
      hostTag := hostTag
      deviceTag := deviceTag
      isCommandInEdma := false
      commandAborted := false }

/-- The part of `mvSataQueueCommand` for a UDMA command. -/
def queueUdmaCommand (ch : Channel) (e : EntryRef) (info : CommandInfo) : Channel :=
  if ch.noneUdmaOutstandingCommands = 0 ∧ ch.state = .idle then
    let ch := if ch.edmaActive then ch else activateEdma ch
    edmaReqQueueInsert cfg (addCommand ch e info) e
  else addCommand ch e info

/-- The part of `mvSataQueueCommand` for a PIO command. -/
def queuePioCommand (ch : Channel) (e : EntryRef) (info : CommandInfo) :
    QueueCommandResult × Channel :=
  let ch := addCommand ch e info
  if ch.outstandingCommands = 1 then
    let ch := if ch.edmaActive then deactivateEdma cfg hw ch else ch
    let (sent, ch) := sendNoneUdmaCommand cfg hw ch e
    if sent then (.ok, ch) else (.queuedModeDisabled, removeCommand cfg ch e)
  else (.ok, ch)

/-- `mvSataQueueCommand`. -/
def mvSataQueueCommand (ch : Channel) (info : CommandInfo) : QueueCommandResult × Channel :=
  if refusesParams cfg info.params then (.badParams, ch)
  else if ¬ ch.queueCommandsEnabled then (.queuedModeDisabled, ch)
  else
    match getTag cfg ch info.pmPort with
    | none => (.full, ch)
    | some (hostTag, deviceTag, ch) =>
      let ch := ch.prepareEntry hostTag deviceTag
      let info := { info with params := acceptParams cfg info.params }
      if info.isUdma then (.ok, queueUdmaCommand cfg ch (.command hostTag) info)
      else queuePioCommand cfg hw ch (.command hostTag) info

/-- `mvSataEnableChannelDma`. -/
def mvSataEnableChannelDma (ch : Channel) : Channel :=
  if ch.queueCommandsEnabled then ch else activateEdma { ch with queueCommandsEnabled := true }

/-- `mvSataDisableChannelDma`. -/
def mvSataDisableChannelDma (ch : Channel) : Channel :=
  deactivateEdma cfg hw { ch with queueCommandsEnabled := false }

/-- `mvSataFlushDmaQueue` with `MV_FLUSH_TYPE_CALLBACK`. -/
def mvSataFlushDmaQueue (ch : Channel) : Channel :=
  if ch.queueCommandsEnabled then ch else resetEdmaChannel cfg (flushDmaQueue cfg ch)

/-- What happens to a channel. -/
inductive ChannelAction
  | queueCommand (pmPort : Fin 16) (params : CommandParams)
  | response (id : ℕ) (responseFlags : BitVec 16)
  | edmaError (eDmaErrorCause : BitVec 32)
  | deviceInterrupt
  | enable
  | disable
  | flush

/-- An event, with what the hardware answers. -/
structure ChannelEvent where
  hw : Hardware
  action : ChannelAction

/-- A command is queued. It is known by the number of the call. -/
def queueStep (ch : Channel) (pmPort : Fin 16) (params : CommandParams) :
    QueueCommandResult × Channel :=
  let commandId := ch.log.calls
  let ch := { ch with log := { ch.log with calls := commandId + 1 } }
  let (result, ch) := mvSataQueueCommand cfg hw ch ⟨pmPort, commandId, params⟩
  (result,
    if result = .ok then
      { ch with log := { ch.log with accepted := ch.log.accepted ++ [commandId] } }
    else ch)

/-- A response of the EDMA is taken from the response queue. -/
def responseStep (ch : Channel) (id : ℕ) (responseFlags : BitVec 16) : Option Channel :=
  handleEdmaResponse cfg hw { ch with rspOutPtr := (ch.rspOutPtr + 1) % cfg.edmaQueueLength } id
    responseFlags

/-- One step of a channel. -/
def channelStep (ch : Channel) (event : ChannelEvent) :
    Option (Option QueueCommandResult × Channel) :=
  match event.action with
  | .queueCommand pmPort params =>
    let (result, ch) := queueStep cfg event.hw ch pmPort params
    some (some result, ch)
  | .response id responseFlags =>
    (responseStep cfg event.hw ch id responseFlags).map fun ch => (none, ch)
  | .edmaError eDmaErrorCause => some (none, handleEdmaError cfg event.hw ch eDmaErrorCause)
  | .deviceInterrupt => some (none, handleDeviceInterrupt cfg event.hw ch)
  | .enable => some (none, mvSataEnableChannelDma ch)
  | .disable => some (none, mvSataDisableChannelDma cfg event.hw ch)
  | .flush => some (none, mvSataFlushDmaQueue cfg ch)

/-- An entry that has not been used. -/
def emptyEntry : QueuedCommandEntry := ⟨true, 0, 0, false, false, 0, 0, .noneUdma .nonData 0⟩

/-- The channel after `mvSataConfigureChannel`. -/
def configuredChannel : Channel :=
  resetEdmaChannel cfg
    { commandsQueue := fun _ => emptyEntry
      queue := ⟨fun _ => none, fun _ => none, none, none⟩
      hostTagsPool := initTagsStack 0
      deviceTagsPool := fun _ => initTagsStack 0
      outstandingCommands := 0
      portQueuedCommands := fun _ => 0
      noneUdmaOutstandingCommands := 0
      edmaQueuedCommands := 0
      reqInPtr := 0
      rspOutPtr := 0
      edmaActive := false
      edmaHalted := false
      queueCommandsEnabled := false
      recoveredErrorsCounter := 0
      state := .idle
      portsWithErrors := 0
      currPort := 0
      useVendorUniqGen2WA := false
      log := ⟨0, [], [], [], []⟩ }

end Mv88fxx81.Sata.Core
