import Mathlib.Logic.Function.Basic
import Mv88fxx81.Sata.Sal

/-!
# Deferred follow-up commands in memory

The post-interrupt list of the translation layer runs through the command blocks themselves. A
block lives until its `completionCallBack` has run, which frees it. Here the list is walked as it
stands in memory, and every call tells which blocks it read, and whether they were still there.

The core driver is known by the blocks for which it has an ATA command. What is read from a block
that was freed is an input.
-/

namespace Mv88fxx81.Sata.Deferred

/-- The memory of a command block: its fields and its link. -/
structure BlockMemory where
  scb : Scb
  pNext : Option ℕ

/-- What a call does with a block. A read tells whether the block is there. -/
inductive Access
  | reads (block : ℕ) (live : Bool)
  | defers (block : ℕ)
  | continues (block : ℕ)
  | callsBack (block : ℕ)
  deriving DecidableEq, Repr

/-- The head of the post-interrupt list, the blocks in memory, and the blocks for which the core
driver has a command. -/
structure Memory where
  pHead : Option ℕ
  blocks : ℕ → Option BlockMemory
  commands : List ℕ

/-- The block is there. -/
def Memory.live (m : Memory) (block : ℕ) : Bool := (m.blocks block).isSome

/-- What is read at the place of a block. -/
def Memory.read (m : Memory) (garbage : ℕ → BlockMemory) (block : ℕ) : BlockMemory :=
  (m.blocks block).getD (garbage block)

/-- Writing to a block, which has no effect on the others if it is not there. -/
def Memory.write (m : Memory) (block : ℕ) (cell : BlockMemory) : Memory :=
  if m.live block then { m with blocks := Function.update m.blocks block (some cell) } else m

/-- `completionCallBack`: the block is freed. -/
def Memory.free (m : Memory) (block : ℕ) : Memory :=
  { m with blocks := Function.update m.blocks block none }

/-- `SALCommandCompletionCB` for a block. -/
def salCommandCompletionCB (garbage : ℕ → BlockMemory) (type : CompletionType) (block : ℕ)
    (m : Memory) : List Access × Memory :=
  let cell := m.read garbage block
  match Sata.salCommandCompletionCB cell.scb type with
  | none =>
    ([.reads block (m.live block), .defers block],
      { m.write block { cell with pNext := m.pHead } with pHead := some block })
  | some _ => ([.reads block (m.live block), .callsBack block], m.free block)

/-- What a call that sends a follow-up command does to memory: the callback frees the block, and
otherwise its fields are written. -/
def Memory.followUp (m : Memory) (block : ℕ) (pNext : Option ℕ) (followUp : FollowUp) :
    List Access × Memory :=
  let sent := if followUp.completions = [] then m.write block ⟨followUp.scb, pNext⟩
    else m.free block
  (.continues block :: followUp.completions.map fun _ => .callsBack block,
    { sent with commands := m.commands ++ followUp.queued.toList.map fun _ => block })

/-- The switch of `mvSataScsiPostIntService`, for the answer of `mvSataQueueCommand`. -/
def serviceBlock (result : QueueCommandResult) (block : ℕ) (cell : BlockMemory) (m : Memory) :
    List Access × Memory :=
  match cell.scb.opcode with
  | some .verify10 | some .verify6 =>
    m.followUp block cell.pNext (mvScsiAtaSendSplittedVerifyCommand cell.scb result)
  | some .modeSelect6 =>
    m.followUp block cell.pNext (mvScsiAtaSendReadLookAhead cell.scb result)
  | _ => ([], m)

/-- The loop of `mvSataScsiPostIntService` from `pScb` on, for at most `fuel` blocks. The
operation of the block is read before the switch, and its link behind it. -/
def serviceLoop (results : ℕ → QueueCommandResult) (garbage : ℕ → BlockMemory) :
    ℕ → Option ℕ → Memory → Option (List Access × Memory)
  | _, none, m => some ([], m)
  | 0, some _, _ => none
  | fuel + 1, some block, m =>
    let (log, m') := serviceBlock (results block) block (m.read garbage block) m
    match serviceLoop results garbage fuel (m'.read garbage block).pNext m' with
    | none => none
    | some (rest, m'') =>
      some (.reads block (m.live block) :: log ++ .reads block (m'.live block) :: rest, m'')

/-- `mvSataScsiPostIntService`. -/
def mvSataScsiPostIntService (results : ℕ → QueueCommandResult) (garbage : ℕ → BlockMemory)
    (fuel : ℕ) (m : Memory) : Option (List Access × Memory) :=
  match serviceLoop results garbage fuel m.pHead m with
  | none => none
  | some (log, m) => some (log, { m with pHead := none })

/-- The calls of the layer. A new block comes with the memory it is allocated in, and its drive
is the one that the extension has at that time. -/
inductive Event
  | execute (block : ℕ) (pNext : Option ℕ) (ext : SalAdapterExtension) (scb : Scb)
      (result : QueueCommandResult)
  | completion (block : ℕ) (type : CompletionType) (garbage : ℕ → BlockMemory)
  | postIntService (results : ℕ → QueueCommandResult) (garbage : ℕ → BlockMemory) (fuel : ℕ)

/-- A block that the host has allocated and given to `mvSataExecuteScsiCommand`. -/
def Memory.executed (m : Memory) (block : ℕ) (pNext : Option ℕ) (reply : Reply) : Memory :=
  { m with
    blocks :=
      if reply.completions = [] then Function.update m.blocks block (some ⟨reply.scb, pNext⟩)
      else m.blocks
    commands := m.commands ++ reply.queued.toList.map fun _ => block }

/-- The steps of the layer. A new block is in memory that is free, and the core driver completes
only commands it has been given. -/
def deferredStep (m : Memory) : Event → Option (List Access × Memory)
  | .execute block pNext ext scb result =>
    let reply := mvSataExecuteScsiCommand ext scb result
    if m.live block then none
    else some (reply.completions.map fun _ => .callsBack block, m.executed block pNext reply)
  | .completion block type garbage =>
    if block ∈ m.commands then
      some (salCommandCompletionCB garbage type block
        { m with commands := m.commands.erase block })
    else none
  | .postIntService results garbage fuel => mvSataScsiPostIntService results garbage fuel m

/-- Nothing is in memory yet. -/
def noBlocks : Memory := { pHead := none, blocks := fun _ => none, commands := [] }

end Mv88fxx81.Sata.Deferred
