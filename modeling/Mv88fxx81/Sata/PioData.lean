import Mv88fxx81.Sata.ChannelStep

/-!
# The data of PIO commands

The words of a PIO command go through the data register of the drive. The drive asks
for them, or offers them, in blocks of a number of sectors, with an interrupt for each
block. The first block of a command that writes is asked for without an interrupt, and
is written when the command is sent.
-/

namespace Mv88fxx81.Sata.Pio

open Mv88fxx81.Sata.Core (NonUdmaProtocol)

/-- `ATA_SECTOR_SIZE_IN_WORDS`. -/
def ataSectorSizeInWords : ℕ := 256

/-- The bits of the status of the drive. -/
def busy (ataStatus : BitVec 8) : Bool := ataStatus.getLsbD 7

def ready (ataStatus : BitVec 8) : Bool := ataStatus.getLsbD 6

def deviceFault (ataStatus : BitVec 8) : Bool := ataStatus.getLsbD 5

def dataRequest (ataStatus : BitVec 8) : Bool := ataStatus.getLsbD 3

def error (ataStatus : BitVec 8) : Bool := ataStatus.getLsbD 0

/-- What a command does: the words that are moved at once, and the call of `completePIOCommand`. -/
inductive PioEvent
  | block (words : List (BitVec 16))
  | complete (failed : Bool)
  deriving DecidableEq, Repr

/-- `MV_NONE_UDMA_COMMAND_PARAMS`, as far as the data are concerned, with the buffer of the command,
the number of words that the drive has supplied, and what has been done. The pointer counts from the
start of the buffer. -/
structure PioState where
  protocolType : NonUdmaProtocol
  bufPtr : ℕ
  count : ℕ
  buffer : ℕ → BitVec 16
  supplied : ℕ
  log : List PioEvent

/-- The registers of a command that are checked when it is sent. -/
structure TaskFile where
  isEXT : Bool
  features : BitVec 16
  sectorCount : BitVec 16
  lbaLow : BitVec 16
  lbaMid : BitVec 16
  lbaHigh : BitVec 16
  deriving DecidableEq, Repr

/-- How the drive answers while a command is sent. -/
structure Sending where
  /-- The adapter is of the second generation or a later one. -/
  generation2 : Bool
  /-- The status before the command. -/
  ataStatus : BitVec 8
  /-- The drive is not busy any more before the time is over. -/
  waitsBusy : Bool
  /-- The drive requests data before the time is over. -/
  waitsDRQ : Bool
  /-- The status before the data. -/
  ataStatusData : BitVec 8
  deriving DecidableEq, Repr

/-- An interrupt of the drive, with the status after the last word has been read. -/
structure Interrupt where
  ataStatus : BitVec 8
  ataStatusAfter : BitVec 8
  deriving DecidableEq, Repr

def PioState.did (s : PioState) (event : PioEvent) : PioState := { s with log := s.log ++ [event] }

/-- The upper bytes of the registers of a command that is not extended are zero. -/
def TaskFile.reserved (regs : TaskFile) : Bool :=
  regs.features &&& 0xff00 = 0 ∧ regs.sectorCount &&& 0xff00 = 0 ∧ regs.lbaLow &&& 0xff00 = 0 ∧
    regs.lbaMid &&& 0xff00 = 0 ∧ regs.lbaHigh &&& 0xff00 = 0

/-- The loop of `sendNoneUdmaCommand` that writes the first sector. -/
def sendLoop : ℕ → PioState → List (BitVec 16) × PioState
  | 0, s => ([], s)
  | i + 1, s =>
    let (words, s') := sendLoop i { s with bufPtr := s.bufPtr + 1 }
    (s.buffer s.bufPtr :: words, s')

/-- The data of `sendNoneUdmaCommand`. -/
def sendData (s : PioState) : PioState :=
  let (words, s) := sendLoop ataSectorSizeInWords s
  { s with count := (s.count + 2 ^ 32 - ataSectorSizeInWords) % 2 ^ 32 }.did (.block words)

/-- `sendNoneUdmaCommand`. -/
def sendNoneUdmaCommand (hw : Sending) (regs : TaskFile) (s : PioState) : Bool × PioState :=
  if ¬ (ready hw.ataStatus ∧ ¬ busy hw.ataStatus) then (false, s)
  else if ¬ regs.isEXT ∧ ¬ regs.reserved then (false, s)
  else if s.protocolType = .pioDataOut then
    if ¬ hw.waitsBusy then (false, s)
    else if hw.generation2 ∧ ¬ hw.waitsDRQ then (false, s)
    else if ¬ (dataRequest hw.ataStatusData ∧ ¬ busy hw.ataStatusData ∧
        ¬ error hw.ataStatusData) then (false, s)
    else (true, sendData s)
  else (true, s)

section

variable (drqDataBlockSize : ℕ) (drive : ℕ → BitVec 16)

/-- The loop of `transferPIOData` that writes. -/
def writeLoop : ℕ → PioState → List (BitVec 16) × PioState
  | 0, s => ([], s)
  | i + 1, s =>
    if s.count = 0 then ([], s)
    else
      let (words, s') := writeLoop i { s with count := s.count - 1, bufPtr := s.bufPtr + 1 }
      (s.buffer s.bufPtr :: words, s')

/-- The loop of `transferPIOData` that reads. -/
def readLoop : ℕ → PioState → List (BitVec 16) × PioState
  | 0, s => ([], s)
  | i + 1, s =>
    if s.count = 0 then ([], s)
    else
      let word := drive s.supplied
      let (words, s') := readLoop i
        { s with
          count := s.count - 1
          bufPtr := s.bufPtr + 1
          buffer := Function.update s.buffer s.bufPtr word
          supplied := s.supplied + 1 }
      (word :: words, s')

/-- `transferPIOData`. -/
def transferPIOData (s : PioState) : Bool × PioState :=
  let dataBlockWords := drqDataBlockSize * ataSectorSizeInWords
  match s.protocolType with
  | .pioDataOut =>
    let (words, s) := writeLoop dataBlockWords s
    (true, s.did (.block words))
  | .pioDataIn =>
    let (words, s) := readLoop drive dataBlockWords s
    (true, s.did (.block words))
  | .nonData => (false, s)

/-- `handlePIOInterrupt`. -/
def handlePIOInterrupt (interrupt : Interrupt) (s : PioState) : PioState :=
  if busy interrupt.ataStatus then s
  else if error interrupt.ataStatus then s.did (.complete true)
  else
    match s.protocolType with
    | .nonData => s.did (.complete false)
    | .pioDataIn =>
      if ready interrupt.ataStatus then
        let (transferred, s) := transferPIOData drqDataBlockSize drive s
        if transferred then
          if s.count = 0 then
            if dataRequest interrupt.ataStatusAfter then s else s.did (.complete false)
          else s
        else s.did (.complete true)
      else s.did (.complete true)
    | .pioDataOut =>
      if ready interrupt.ataStatus ∧ ¬ deviceFault interrupt.ataStatus then
        if s.count = 0 then s.did (.complete false)
        else
          let (transferred, s) := transferPIOData drqDataBlockSize drive s
          if transferred then s else s.did (.complete true)
      else s.did (.complete true)

/-- The command is sent, and the interrupts arrive. -/
def pioRun (hw : Sending) (regs : TaskFile) (interrupts : List Interrupt) (s : PioState) :
    PioState :=
  let (sent, s) := sendNoneUdmaCommand hw regs s
  if sent then
    interrupts.foldl (fun s interrupt => handlePIOInterrupt drqDataBlockSize drive interrupt s) s
  else s

end

end Mv88fxx81.Sata.Pio
