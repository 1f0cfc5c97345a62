import Mv88fxx81.Lib.DoublyLinked
import Mv88fxx81.Lib.Literals
import Mv88fxx81.Sata.Crqb

/-!
# The commands of a SATA channel

A channel keeps its commands in a table of entries. An entry is found by the host
tag of its command, and the entries in use are linked in the order in which the
commands came. Host tags and device tags are taken from stacks of free tags.

The hardware answers the reads of registers. What it may answer in one call of the
driver is a parameter of the model. The driver's dealings with the layer above and
with the drive are written to a log.
-/

namespace Mv88fxx81.Sata.Core

/-- The generations of the adapter. -/
inductive Generation
  | genI
  | genII
  | genIIE
  deriving DecidableEq, Repr

/-- What is fixed when a channel is configured. -/
structure ChannelConfig where
  generation : Generation
  queuedDma : EdmaMode
  fbsEnabled : Bool
  use128Entries : Bool
  drqDataBlockSize : ℕ
  /-- Only a Gen IIE adapter has queues of 128 entries. -/
  entries : use128Entries = true → generation = .genIIE

namespace ChannelConfig

variable (cfg : ChannelConfig)

/-- `commandsQueueSize`. -/
def commandsQueueSize : ℕ := if cfg.generation = .genIIE then 127 else 31

/-- The number of host tags. -/
def hostTagsNum : ℕ := if cfg.use128Entries then 127 else 31

/-- The length of the EDMA queues. `EDMAQueuePtrMask` is one less. -/
def edmaQueueLength : ℕ := if cfg.use128Entries then 128 else 32

/-- `PMSupported`. -/
def pmSupported : Bool := cfg.generation ≠ .genI

end ChannelConfig

/-- `MV_SATA_TAGS_PER_POOL`. -/
def tagsPerPool : ℕ := 32

/-- `MV_NON_UDMA_PROTOCOL`. -/
inductive NonUdmaProtocol
  | nonData
  | pioDataIn
  | pioDataOut
  deriving DecidableEq, Repr

/-- The parameters of a command. Of a PIO command these are the protocol and the number of words
that are still to be transferred. -/
inductive CommandParams
  | udma (params : UdmaCommandParams)
  | noneUdma (protocolType : NonUdmaProtocol) (count : ℕ)
  deriving DecidableEq, Repr

/-- `MV_QUEUE_COMMAND_INFO`. -/
structure CommandInfo where
  pmPort : Fin 16
  commandId : ℕ
  params : CommandParams
  deriving DecidableEq, Repr

/-- The type of a command is `MV_QUEUED_COMMAND_TYPE_UDMA`. -/
def CommandInfo.isUdma (info : CommandInfo) : Bool :=
  match info.params with
  | .udma _ => true
  | .noneUdma _ _ => false

/-- A pointer to an entry: an entry of the table, or the one of the READ LOG EXT command. -/
inductive EntryRef
  | command (hostTag : ℕ)
  | readLogExt
  deriving DecidableEq, Repr

/-- `MV_QUEUED_COMMAND_ENTRY`, without the links. -/
structure QueuedCommandEntry where
  isFreeEntry : Bool
  hostTag : ℕ
  deviceTag : ℕ
  isCommandInEdma : Bool
  commandAborted : Bool
  info : CommandInfo
  deriving DecidableEq, Repr

/-- The links of the entries in use. -/
structure CommandsQueue where
  next : EntryRef → Option EntryRef
  prev : EntryRef → Option EntryRef
  head : Option EntryRef
  tail : Option EntryRef

/-- `struct _mvTagsStack`. -/
structure TagsStack where
  tagsArray : ℕ → ℕ
  top : ℕ

/-- `MV_ERROR_HANDLING_STATE`. -/
inductive ErrorHandlingState
  | idle
  | waitForCompletions
  | waitForBusy
  | requestSense
  deriving DecidableEq, Repr

/-- `MV_COMPLETION_TYPE`. -/
inductive CompletionType
  | normal
  | error
  | abort
  deriving DecidableEq, Repr

/-- A PIO command is sent to the drive, with the queue at that time. -/
structure SentCommand where
  entry : EntryRef
  commandId : ℕ
  head : Option EntryRef
  inEdma : List EntryRef
  deriving DecidableEq, Repr

/-- A UDMA command is put in the request queue, with the PIO commands in front of it. -/
structure EdmaRequest where
  commandId : ℕ
  pioBefore : List EntryRef
  deriving DecidableEq, Repr

/-- What the driver has done. -/
structure ChannelLog where
  /-- The calls of `mvSataQueueCommand`. -/
  calls : ℕ
  /-- The commands for which it returned `MV_QUEUE_COMMAND_RESULT_OK`. -/
  accepted : List ℕ
  /-- The callbacks. -/
  callBacks : List (ℕ × CompletionType)
  /-- The requests since the EDMA queues were reset. -/
  requests : List EdmaRequest
  /-- The PIO commands. -/
  sent : List SentCommand

/-- `MV_SATA_CHANNEL`. -/
structure Channel where
  commandsQueue : EntryRef → QueuedCommandEntry
  queue : CommandsQueue
  hostTagsPool : TagsStack
  deviceTagsPool : Fin 16 → TagsStack
  outstandingCommands : ℕ
  portQueuedCommands : Fin 16 → ℕ
  noneUdmaOutstandingCommands : ℕ
  edmaQueuedCommands : ℕ
  reqInPtr : ℕ
  rspOutPtr : ℕ
  edmaActive : Bool
  /-- The EDMA has stopped by itself. -/
  edmaHalted : Bool
  queueCommandsEnabled : Bool
  recoveredErrorsCounter : ℕ
  state : ErrorHandlingState
  portsWithErrors : BitVec 16
  currPort : ℕ
  useVendorUniqGen2WA : Bool
  log : ChannelLog

/-- How sending a PIO command ends. -/
inductive SendResult
  /-- The drive is not ready, or the registers of the command are refused. -/
  | notReady
  /-- The drive takes the command, and does not ask for its data. -/
  | failed
  | done
  deriving DecidableEq, Repr

/-- The sector that READ LOG EXT returns. -/
structure ReadLogExtOutput where
  crc : Bool
  nonQueued : Bool
  tag : ℕ
  deriving DecidableEq, Repr

/-- What the hardware answers in one call of the driver. -/
structure Hardware where
  /-- The EDMA stops in the time that `deactivateEdma` waits. -/
  stops : Bool
  /-- How sending the command of an entry ends. -/
  sends : EntryRef → SendResult
  /-- The software reset succeeds, after the command of an entry or an EDMA error. -/
  softReset : Option EntryRef → Bool
  /-- A device is connected. -/
  connected : Bool
  /-- The busy bit of the drive after the EDMA has been stopped. -/
  ataBusy : Bool
  /-- The status of the drive when it interrupts. -/
  ataStatus : BitVec 8
  /-- The status of the drive when the last word has been read. -/
  ataStatusAfter : BitVec 8
  /-- The error cause of the EDMA. -/
  eDmaErrorCause : BitVec 32
  eCacheEmpty : Bool
  edmaIdle : Bool
  /-- The state of the EDMA is 0x70. -/
  edmaState70 : Bool
  /-- The tag in the status of the EDMA. -/
  edmaStatusTag : ℕ
  /-- The tag in the sector count register of the drive. -/
  sectorCountTag : ℕ
  /-- The port in the status of the interface. -/
  ifStatusPort : Fin 16
  /-- The ports that report errors. -/
  testCtrlPorts : BitVec 16
  /-- The outstanding commands of a port in tagged queuing. -/
  tcqOutstanding : ℕ → Bool
  rspInPtr : ℕ
  readLogExt : ReadLogExtOutput

/-- Counting up and down in a byte. -/
def incr8 (n : ℕ) : ℕ := (n + 1) % 256

def decr8 (n : ℕ) : ℕ := (n + 255) % 256

/-- `initTagsStack`. -/
def initTagsStack (size : ℕ) : TagsStack := ⟨fun i => size - 1 - i, size⟩

/-- `popTag`. -/
def popTag (stack : TagsStack) : ℕ × TagsStack :=
  let top := decr8 stack.top
  (stack.tagsArray top, { stack with top := top })

/-- `pushTag`. -/
def pushTag (stack : TagsStack) (tag : ℕ) : TagsStack :=
  ⟨Function.update stack.tagsArray stack.top tag, incr8 stack.top⟩

/-- `commandsQueueAddTail`. -/
def commandsQueueAddTail (q : CommandsQueue) (e : EntryRef) : CommandsQueue :=
  let next := Function.update q.next e none
  { next := match q.tail with
      | some last => Function.update next last (some e)
      | none => next
    prev := Function.update q.prev e q.tail
    head := if q.head = none then some e else q.head
    tail := some e }

/-- `commandsQueueAddHead`. -/
def commandsQueueAddHead (q : CommandsQueue) (e : EntryRef) : CommandsQueue :=
  let prev := Function.update q.prev e none
  { next := Function.update q.next e q.head
    prev := match q.head with
      | some first => Function.update prev first (some e)
      | none => prev
    head := some e
    tail := if q.tail = none then some e else q.tail }

/-- The part of `commandsQueueRemove` for the entry behind. -/
def unlinkNext (q : CommandsQueue) (e : EntryRef) : CommandsQueue :=
  match q.next e with
  | none =>
    match q.prev e with
    | some last => { q with tail := some last, next := Function.update q.next last none }
    | none => { q with tail := none }
  | some n => { q with prev := Function.update q.prev n (q.prev e) }

/-- The part of `commandsQueueRemove` for the entry before. -/
def unlinkPrev (q : CommandsQueue) (e : EntryRef) : CommandsQueue :=
  match q.prev e with
  | none =>
    match q.next e with
    | some first => { q with head := some first, prev := Function.update q.prev first none }
    | none => { q with head := none }
  | some p => { q with next := Function.update q.next p (q.next e) }

/-- `commandsQueueRemove`. -/
def commandsQueueRemove (q : CommandsQueue) (e : EntryRef) : CommandsQueue :=
  let q := unlinkPrev (unlinkNext q e) e
  { q with next := Function.update q.next e none, prev := Function.update q.prev e none }

/-- Overwrite a part of an entry. -/
def Channel.updateEntry (ch : Channel) (e : EntryRef)
    (f : QueuedCommandEntry → QueuedCommandEntry) : Channel :=
  { ch with commandsQueue := Function.update ch.commandsQueue e (f (ch.commandsQueue e)) }

/-- The entries that a loop over the queue visits. -/
def Channel.commands (cfg : ChannelConfig) (ch : Channel) : List EntryRef :=
  DoublyLinked.walk ch.queue.next (cfg.commandsQueueSize + 1) ch.queue.head

/-- The entries that a loop visits which stops at the first command outside of the EDMA. -/
def Channel.commandsInEdma (cfg : ChannelConfig) (ch : Channel) : List EntryRef :=
  (ch.commands cfg).takeWhile fun e => (ch.commandsQueue e).isCommandInEdma

/-- A callback is called. -/
def Channel.callBack (ch : Channel) (commandId : ℕ) (compType : CompletionType) : Channel :=
  { ch with log := { ch.log with callBacks := ch.log.callBacks ++ [(commandId, compType)] } }

section

variable (cfg : ChannelConfig) (hw : Hardware)

/-- The pool of the device tags for a port. -/
def tagPool (pmPort : Fin 16) : Fin 16 := if cfg.generation = .genIIE then pmPort else 0

/-- `getTag`. -/
def getTag (ch : Channel) (pmPort : Fin 16) : Option (ℕ × ℕ × Channel) :=
  let pool := tagPool cfg pmPort
  if ch.hostTagsPool.top = 0 ∨ (ch.deviceTagsPool pool).top = 0 then none
  else
    let (hostTag, hostTagsPool) := popTag ch.hostTagsPool
    let (deviceTag, devicePool) := popTag (ch.deviceTagsPool pool)
    some (hostTag, deviceTag,
      { ch with
        hostTagsPool := hostTagsPool
        deviceTagsPool := Function.update ch.deviceTagsPool pool devicePool })

/-- `releaseTag`. -/
def releaseTag (ch : Channel) (pmPort : Fin 16) (hostTag deviceTag : ℕ) : Channel :=
  let pool := tagPool cfg pmPort
  { ch with
    hostTagsPool := pushTag ch.hostTagsPool hostTag
    deviceTagsPool :=
      Function.update ch.deviceTagsPool pool (pushTag (ch.deviceTagsPool pool) deviceTag) }

/-- `addCommand`. -/
def addCommand (ch : Channel) (e : EntryRef) (info : CommandInfo) : Channel :=
  let ch := ch.updateEntry e fun entry => { entry with info := info, isFreeEntry := false }
  { ch with
    noneUdmaOutstandingCommands :=
      if info.isUdma then ch.noneUdmaOutstandingCommands else incr8 ch.noneUdmaOutstandingCommands
    queue := commandsQueueAddTail ch.queue e
    outstandingCommands := incr8 ch.outstandingCommands
    portQueuedCommands := Function.update ch.portQueuedCommands info.pmPort
      (incr8 (ch.portQueuedCommands info.pmPort)) }

/-- `removeCommand`. -/
def removeCommand (ch : Channel) (e : EntryRef) : Channel :=
  let entry := ch.commandsQueue e
  let ch := releaseTag cfg ch entry.info.pmPort entry.hostTag entry.deviceTag
  let ch := ch.updateEntry e fun entry => { entry with isFreeEntry := true }
  { ch with
    noneUdmaOutstandingCommands :=
      if entry.info.isUdma then ch.noneUdmaOutstandingCommands
      else decr8 ch.noneUdmaOutstandingCommands
    queue := commandsQueueRemove ch.queue e
    outstandingCommands := decr8 ch.outstandingCommands
    portQueuedCommands := Function.update ch.portQueuedCommands entry.info.pmPort
      (decr8 (ch.portQueuedCommands entry.info.pmPort)) }

/-- `_resetEdmaQPointers`. -/
def resetEdmaQPointers (ch : Channel) : Channel :=
  { ch with
    edmaQueuedCommands := 0
    reqInPtr := 0
    rspOutPtr := 0
    log := { ch.log with requests := [] } }

/-- `resetEdmaChannel`. -/
def resetEdmaChannel (ch : Channel) : Channel :=
  resetEdmaQPointers
    { ch with
      outstandingCommands := 0
      portQueuedCommands := fun _ => 0
      noneUdmaOutstandingCommands := 0
      edmaActive := false
      edmaHalted := false
      hostTagsPool := initTagsStack cfg.hostTagsNum
      deviceTagsPool := fun _ => initTagsStack tagsPerPool
      commandsQueue := fun e =>
        match e with
        | .command hostTag =>
          if hostTag < cfg.commandsQueueSize then
            { ch.commandsQueue e with isFreeEntry := true }
          else ch.commandsQueue e
        | .readLogExt => ch.commandsQueue e
      queue := { ch.queue with head := none, tail := none }
      queueCommandsEnabled := false
      currPort := 0
      state := .idle
      portsWithErrors := 0
      useVendorUniqGen2WA := false
      recoveredErrorsCounter := 0 }

/-- `flushDmaQueue` with `MV_FLUSH_TYPE_CALLBACK`. -/
def flushDmaQueue (ch : Channel) : Channel :=
  ((List.range cfg.commandsQueueSize).filter fun hostTag =>
    ¬ (ch.commandsQueue (.command hostTag)).isFreeEntry).foldl
      (fun ch hostTag =>
        ch.callBack (ch.commandsQueue (.command hostTag)).info.commandId .abort) ch

/-- `activateEdma`. -/
def activateEdma (ch : Channel) : Channel := { ch with edmaActive := true, edmaHalted := false }

/-- `deactivateEdma`. Where the EDMA does not stop, the channel is flushed and reset. -/
def deactivateEdma (ch : Channel) : Channel :=
  let ch := { ch with edmaActive := false, edmaHalted := false }
  if hw.stops then ch
  else resetEdmaChannel cfg (flushDmaQueue cfg { ch with queueCommandsEnabled := false })

/-- `EdmaReqQueueInsert`. -/
def edmaReqQueueInsert (ch : Channel) (e : EntryRef) : Channel :=
  let request : EdmaRequest :=
    { commandId := (ch.commandsQueue e).info.commandId
      pioBefore := ((ch.commands cfg).takeWhile (· ≠ e)).filter fun e =>
        ¬ (ch.commandsQueue e).info.isUdma }
  let ch := ch.updateEntry e fun entry =>
    { entry with isCommandInEdma := true, commandAborted := false }
  { ch with
    reqInPtr := (ch.reqInPtr + 1) % cfg.edmaQueueLength
    edmaQueuedCommands := incr8 ch.edmaQueuedCommands
    log := { ch.log with requests := ch.log.requests ++ [request] } }

/-- The command register of the drive is written. -/
def Channel.logSent (ch : Channel) (e : EntryRef) : Channel :=
  let sent : SentCommand :=
    { entry := e
      commandId := (ch.commandsQueue e).info.commandId
      head := ch.queue.head
      inEdma := (ch.commands cfg).filter fun e => (ch.commandsQueue e).isCommandInEdma }
  { ch with log := { ch.log with sent := ch.log.sent ++ [sent] } }

/-- What is left to transfer when a PIO command has been sent: the first sector that is written is
transferred at once. -/
def countAfterSend : CommandParams → CommandParams
  | .noneUdma .pioDataOut count => .noneUdma .pioDataOut ((count + 2 ^ 32 - 256) % 2 ^ 32)
  | .noneUdma .pioDataIn count => .noneUdma .pioDataIn count
  | .noneUdma .nonData count => .noneUdma .nonData count
  | .udma params => .udma params

/-- `sendNoneUdmaCommand`. -/
def sendNoneUdmaCommand (ch : Channel) (e : EntryRef) : Bool × Channel :=
  match hw.sends e with
  | .notReady => (false, ch)
  | .failed => (false, ch.logSent cfg e)
  | .done =>
    (true, (ch.logSent cfg e).updateEntry e fun entry =>
      { entry with info := { entry.info with params := countAfterSend entry.info.params } })

end

end Mv88fxx81.Sata.Core
