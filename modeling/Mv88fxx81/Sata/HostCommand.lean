import Mv88fxx81.Sata.HostChannel

/-!
# The calls of a SCSI host

The host of each channel is called by the mid layer: to queue a command, to abort one and to reset
the bus. Interrupts and the timer complete commands. Each of these holds the lock of the adapter
while it changes the lists; it takes the done list of a channel before it releases the lock, and
gives the commands back with `scsi_done` after that. The steps here are the sections under the
lock, so that calls may overlap.

The hosts of all channels stay registered, and every command comes with a function `done`.
-/

namespace Mv88fxx81.Sata.Ht

variable {n : ℕ}

/-- A done list that a call has taken and gives back without the lock. It knows the command that
`mv_ial_ht_abort` was called for. -/
structure Flight where
  commands : List ℕ
  abort : Option ℕ

/-- The adapter with the hosts of its channels. The lists behind `flights` record what has
happened: the commands for which `mv_ial_ht_queuecommand` has returned zero, the calls of
`scsi_done`, the commands that a bus reset has dropped, and the commands for which
`mv_ial_ht_abort` has returned `SUCCESS`, with whether the driver still refers to them. -/
structure Host (n : ℕ) where
  adapterState : Ial.AdapterState
  channels : Fin n → HostChannel
  /-- The channels that the calls of `mv_ial_ht_queuecommand` were for. -/
  calls : List (Fin n)
  flights : List Flight
  accepted : List ℕ
  called : List ℕ
  dropped : List ℕ
  aborts : List (ℕ × Bool)

/-- One channel is replaced. -/
def Host.setChannel (h : Host n) (k : Fin n) (ch : HostChannel) : Host n :=
  { h with channels := Function.update h.channels k ch }

/-- A call of `mv_ial_ht_queuecommand`: the block as it is filled in, the drives, the data of the
command and the pool of its host as they are at that time, and the answers of `kmalloc` and of
`mvSataQueueCommand`. -/
structure Request where
  scb : Scb
  ext : SalAdapterExtension
  gen : Generation
  cmd : ScsiCmnd
  pool : IalHost
  kmalloc : Bool
  result : QueueCommandResult

/-- The commands for which a table is generated. -/
def usesPrd (scb : Scb) : Bool :=
  scb.opcode == some .read6 || scb.opcode == some .read10 || scb.opcode == some .write6 ||
    scb.opcode == some .write10

/-- `mv_ial_lib_generate_prd` takes a table from the pool. -/
def takesTable (r : Request) : Prop :=
  NeedsTable r.gen r.cmd ∧ (mvIalLibPrdAllocate r.pool).1 ≠ 0

instance (r : Request) : Decidable (takesTable r) := inferInstanceAs (Decidable (_ ∧ _))

/-- The command block is allocated. -/
def allocateBlock (ch : HostChannel) (c : ℕ) : HostChannel := { ch with blocks := ch.blocks ++ [c] }

/-- The data of a command is described. The result is whether `mv_ial_lib_generate_prd` succeeds;
where it fails behind the allocation, the table is not given back. -/
def generatePrd (r : Request) (ch : HostChannel) (c : ℕ) : Bool × HostChannel :=
  if usesPrd r.scb then
    ((mvIalLibGeneratePrd r.gen r.cmd r.pool).1.isSome,
      if takesTable r then { ch with tables := ch.tables ++ [c] } else ch)
  else (true, ch)

/-- `mvExecuteScsiCommand`, with `MV_TRUE` for `canQueue`. -/
def mvExecuteScsiCommand (adapterState : Ial.AdapterState) (r : Request) (scb : Scb)
    (ch : HostChannel) (c : ℕ) : HostChannel :=
  if adapterState = .ready ∧ ch.ial.Settled then
    let reply := mvSataExecuteScsiCommand r.ext scb (queueResult ch r.result)
    takeAnswer ch c reply.scb reply.completions reply.queued
  else { ch with ial := Ial.mvAddToSCSICommandQueue ch.ial c }

/-- The command goes to one of the layers below. -/
def executeCommand (adapterState : Ial.AdapterState) (k : Fin n) (r : Request) (ch : HostChannel)
    (c : ℕ) : HostChannel :=
  let scb := { r.scb with bus := UInt8.ofNat k }
  if isSmart scb then
    let reply := mvScsiAtaSendSmartCommand r.ext scb (queueResult ch r.result)
    takeAnswer ch c reply.scb reply.completions reply.queued
  else mvExecuteScsiCommand adapterState r scb ch c

/-- The done list of a channel is taken. It is given back where it is not empty. -/
def Host.takeDone (h : Host n) (k : Fin n) (abort : Option ℕ) : Bool × Host n :=
  let (commands, ch) := getFirstCmnd (h.channels k)
  if commands = [] then (false, h.setChannel k ch)
  else (true, { h.setChannel k ch with flights := h.flights ++ [⟨commands, abort⟩] })

/-- `mv_ial_ht_queuecommand` up to the release of the lock, with the value it returns. -/
def Host.queuecommand (h : Host n) (k : Fin n) (r : Request) : ℤ × Host n :=
  let c := h.calls.length
  let h := { h with calls := h.calls ++ [k] }
  if ¬ r.kmalloc then (-1, h)
  else
    let (generated, ch) := generatePrd r (allocateBlock (h.channels k) c) c
    if ¬ generated then (-1, h.setChannel k ch)
    else (0, ((h.setChannel k (executeCommand h.adapterState k r ch c)).takeDone k none).2)

/-- What the interrupt service routine of the core driver reports. -/
inductive Report (n : ℕ)
  | completion (k : Fin n) (c : ℕ) (type : CompletionType)
  /-- A device is connected, or the communication failed. -/
  | restart (k : Fin n)
  /-- The device is disconnected. -/
  | stop (k : Fin n)
  | hotPlug (k : Fin n)
  /-- A register of the port multiplier has been read. -/
  | pmRegister (k : Fin n) (value : BitVec 32)

/-- The channel that a report is for. -/
def Report.channel : Report n → Fin n
  | .completion k _ _ => k
  | .restart k => k
  | .stop k => k
  | .hotPlug k => k
  | .pmRegister k _ => k

/-- What a report does to its channel. -/
def Report.handle (ch : HostChannel) : Report n → HostChannel
  | .completion _ c type => complete ch c type
  | .restart _ => mvRestartChannel ch
  | .stop _ => mvStopChannel ch
  | .hotPlug _ => mvPMHotPlugDetected ch
  | .pmRegister _ value =>
    if ch.ial.pmRegAccessInProgress then
      { ch with ial := Ial.mvPMCommandCompletionCB ch.ial value }
    else ch

/-- `mvSataInterruptServiceRoutine`. -/
def serviceRoutine (reports : List (Report n)) (channels : Fin n → HostChannel) :
    Fin n → HostChannel :=
  reports.foldl (fun channels report =>
    Function.update channels report.channel (report.handle (channels report.channel))) channels

/-- `mv_ial_lib_int_handler` up to the release of the lock. -/
def Host.interrupt (h : Host n) (reports : List (Report n))
    (results : ℕ → QueueCommandResult) : Host n :=
  { h with
    channels := fun k => mvSataScsiPostIntService results (serviceRoutine reports h.channels k) }

/-- Run a function for all channels. -/
def forChannels (f : Fin n → Option HostChannel) : Option (Fin n → HostChannel) :=
  if h : ∀ k, (f k).isSome = true then some fun k => (f k).get (h k) else none

/-- `asyncStartTimerFunction` up to the release of the lock, which runs `mvAdapterStateMachine`. -/
def Host.tick (h : Host n) (hw : Ial.AdapterHardware n) (errors : Fin n → List DevError) :
    Option (Host n) :=
  match h.adapterState with
  | .initializing =>
    if ¬ hw.enableSpinUp then some h
    else if ¬ hw.unmaskInterrupt then some { h with adapterState := .fatalError }
    else
      (forChannels fun k =>
        startChannel (hw.channel k) (errors k) (hw.connected k) (h.channels k)).map
          fun channels => { h with adapterState := .ready, channels := channels }
  | .ready =>
    (forChannels fun k =>
      mvChannelStateMachine (hw.channel k) (errors k) Ial.stateMachineTurns (h.channels k)).map
        fun channels => { h with channels := channels }
  | .fatalError => some h

/-- `mv_ial_ht_abort` up to the release of the lock. The result is whether it goes on. -/
def Host.abort (h : Host n) (k : Fin n) (c : ℕ) : Bool × Host n :=
  (h.setChannel k (mvRestartChannel (h.channels k))).takeDone k (some c)

/-- `mv_ial_ht_bus_reset`, with whether it returns `SUCCESS`. The commands on the done list are
dropped. -/
def Host.busReset (h : Host n) (k : Fin n) : Bool × Host n :=
  let ch := h.channels k
  if ¬ ch.ial.sataChannel then (false, h)
  else
    let ch := { abortCommands ch with ial := Ial.flushDma ch.ial }
    let ch := if ch.ial.sataChannel then mvRestartChannel ch else ch
    let (commands, ch) := getFirstCmnd ch
    (true, { h.setChannel k ch with dropped := h.dropped ++ commands })

/-- The driver refers to a command: its block is allocated, or it is on a list that leads to
`scsi_done`. -/
def Host.RefersTo (h : Host n) (c : ℕ) : Prop :=
  (∃ k, c ∈ (h.channels k).blocks ∨ c ∈ (h.channels k).done) ∨
    ∃ flight ∈ h.flights, c ∈ flight.commands

instance (h : Host n) (c : ℕ) : Decidable (h.RefersTo c) := inferInstanceAs (Decidable (_ ∨ _))

/-- `mv_ial_lib_do_done` of a list that a call has taken, after which the call returns. -/
def Host.doDone (h : Host n) (i : ℕ) (flight : Flight) : Host n :=
  let h := { h with flights := h.flights.eraseIdx i, called := h.called ++ flight.commands }
  match flight.abort with
  | none => h
  | some c => { h with aborts := h.aborts ++ [(c, decide (h.RefersTo c))] }

/-- The calls of the host, cut where they release the lock. -/
inductive HostEvent (n : ℕ)
  | queuecommand (k : Fin n) (r : Request)
  | interrupt (reports : List (Report n)) (results : ℕ → QueueCommandResult)
  | tick (hw : Ial.AdapterHardware n) (errors : Fin n → List DevError)
  /-- An interrupt or the timer takes the done list of a channel. -/
  | collect (k : Fin n)
  | abort (c : ℕ)
  | busReset (k : Fin n)
  | doDone (i : ℕ)

/-- What a call returns, if it does. -/
inductive HostAnswer
  | queued (status : ℤ)
  | aborted (success : Bool)
  | reset (success : Bool)
  | nothing
  deriving DecidableEq, Repr

/-- The steps of the host. A command that is aborted has been queued before. -/
def hostStep (h : Host n) : HostEvent n → Option (HostAnswer × Host n)
  | .queuecommand k r =>
    let (status, h') := h.queuecommand k r
    some (.queued status,
      { h' with accepted := h.accepted ++ if status = 0 then [h.calls.length] else [] })
  | .interrupt reports results => some (.nothing, h.interrupt reports results)
  | .tick hw errors => (h.tick hw errors).map fun h => (.nothing, h)
  | .collect k => some (.nothing, (h.takeDone k none).2)
  | .abort c =>
    match h.calls[c]? with
    | none => none
    | some k =>
      let (goesOn, h) := h.abort k c
      some (if goesOn then .nothing else .aborted false, h)
  | .busReset k =>
    let (success, h) := h.busReset k
    some (.reset success, h)
  | .doDone i =>
    match h.flights[i]? with
    | none => none
    | some flight =>
      some (if flight.abort.isSome then .aborted true else .nothing, h.doDone i flight)

/-- A channel without commands, in memory that holds `scb`. -/
def initialChannel (scb : ℕ → Scb) : HostChannel where
  ial := Ial.initialChannel
  commands := []
  deferred := []
  blocks := []
  scb := scb
  tables := []
  done := []
  listed := []

/-- The adapter before its first tick. -/
def initialHost (scb : ℕ → Scb) : Host n where
  adapterState := .initializing
  channels := fun _ => initialChannel scb
  calls := []
  flights := []
  accepted := []
  called := []
  dropped := []
  aborts := []

end Mv88fxx81.Sata.Ht
