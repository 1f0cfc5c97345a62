import Mathlib.Data.Nat.Notation
import Mathlib.Tactic.IntervalCases
import Mathlib.Tactic.SplitIfs
import Mv88fxx81.Lib.Bytes

/-!
# Command request blocks

A UDMA command is handed to the EDMA in a command request block. The Gen I and
Gen II adapters read it as a list of writes to the registers of the device, and
the Gen IIE adapters as a table of these registers. Each of the two layouts is
written by a function of its own.

The meaning of a block is given by a device. Its registers for the sector count,
the features and the address are two bytes deep: a write moves the byte written
before to the previous content, and only the extended commands read that.
-/

namespace Mv88fxx81.Sata.Core

open Bytes

/-- `MV_EDMA_MODE`. -/
inductive EdmaMode
  | queued
  | notQueued
  | nativeQueuing
  deriving DecidableEq, Repr

/-- `MV_UDMA_TYPE`. -/
inductive UdmaType
  | read
  | write
  deriving DecidableEq, Repr

/-- `MV_UDMA_COMMAND_PARAMS`, without the callback. -/
structure UdmaCommandParams where
  readWrite : UdmaType
  isExt : Bool
  fua : Bool
  lowLbaAddress : BitVec 32
  highLbaAddress : BitVec 16
  numOfSectors : BitVec 16
  prdLowAddr : BitVec 32
  prdHighAddr : BitVec 32
  singleDataRegion : Bool
  byteCount : BitVec 16
  deriving DecidableEq, Repr

/-- What the request entry takes from `MV_QUEUED_COMMAND_ENTRY`. -/
structure CommandTags where
  hostTag : BitVec 8
  deviceTag : BitVec 8
  pmPort : BitVec 8
  deriving DecidableEq, Repr

/-- The registers of the device that a request entry names. -/
inductive AtaReg
  | features
  | sectorCount
  | lbaLow
  | lbaMid
  | lbaHigh
  | device
  | command
  deriving DecidableEq, Repr

/-- `MV_EDMA_ATA_FEATURES_ADDR` to `MV_EDMA_ATA_COMMAND_ADDR`. -/
def AtaReg.addr : AtaReg → BitVec 5
  | .features => 0x11
  | .sectorCount => 0x12
  | .lbaLow => 0x13
  | .lbaMid => 0x14
  | .lbaHigh => 0x15
  | .device => 0x16
  | .command => 0x17

/-- `MV_BIT6`, which selects addressing by LBA in the device register. -/
def deviceLba : BitVec 8 := 0x40

/-- `MV_BIT7`, which asks for forced unit access. -/
def deviceFua : BitVec 8 := 0x80

def ataWriteDma : BitVec 8 := 0xca
def ataWriteDmaExt : BitVec 8 := 0x35
def ataWriteDmaQueued : BitVec 8 := 0xcc
def ataWriteDmaQueuedExt : BitVec 8 := 0x36
def ataWriteFpdmaQueuedExt : BitVec 8 := 0x61
def ataReadDma : BitVec 8 := 0xc8
def ataReadDmaExt : BitVec 8 := 0x25
def ataReadDmaQueued : BitVec 8 := 0xc7
def ataReadDmaQueuedExt : BitVec 8 := 0x26
def ataReadFpdmaQueuedExt : BitVec 8 := 0x60

/-- `MV_DMA_REQUEST_QUEUE_ENTRY`. -/
structure RequestEntry where
  prdLowAddr : BitVec 32
  prdHighAddr : BitVec 32
  controlFlags : BitVec 16
  command : List (BitVec 16)
  deriving DecidableEq, Repr

/-- `MV_EDMA_REQUEST_COMMANDS_NUM`. -/
def requestCommandsNum : ℕ := 11

/-- `WRITE_ATA_COMMAND_REG`. -/
def writeAtaCommandReg {w : ℕ} (data : BitVec w) (reg : AtaReg) (isLast : Bool) : BitVec 16 :=
  (data.setWidth 8).setWidth 16 &&& 0xff ||| (reg.addr.setWidth 16 <<< 8) |||
    if isLast then 0x8000 else 0

/-- The control flags of a Gen I/II request entry. -/
def edmaControlFlags (tags : CommandTags) (p : UdmaCommandParams) : BitVec 16 :=
  (if p.readWrite = .read then 1 else 0) ||| (tags.hostTag.setWidth 16 <<< 1) |||
    (tags.pmPort.setWidth 16 <<< 12)

/-- The command words of a Gen I/II request entry. -/
def edmaCommandWords (mode : EdmaMode) (tags : CommandTags) (p : UdmaCommandParams) :
    List (BitVec 16) :=
  if mode = .queued ∨ mode = .nativeQueuing then
    if p.isExt then
      [ writeAtaCommandReg ((p.numOfSectors &&& 0xFF00) >>> 8) .features false,
        writeAtaCommandReg (p.numOfSectors &&& 0xFF) .features false,
        writeAtaCommandReg ((tags.deviceTag <<< 3) &&& 0xF8) .sectorCount false,
        writeAtaCommandReg ((p.lowLbaAddress &&& 0xFF000000) >>> 24) .lbaLow false,
        writeAtaCommandReg (p.lowLbaAddress &&& 0xFF) .lbaLow false,
        writeAtaCommandReg (p.highLbaAddress &&& 0xFF) .lbaMid false,
        writeAtaCommandReg ((p.lowLbaAddress &&& 0xFF00) >>> 8) .lbaMid false,
        writeAtaCommandReg ((p.highLbaAddress &&& 0xFF00) >>> 8) .lbaHigh false,
        writeAtaCommandReg ((p.lowLbaAddress &&& 0xFF0000) >>> 16) .lbaHigh false,
        if mode = .nativeQueuing ∧ p.fua then
          writeAtaCommandReg (deviceFua ||| deviceLba) .device false
        else writeAtaCommandReg deviceLba .device false,
        writeAtaCommandReg
          (if p.readWrite = .read then
            if mode = .nativeQueuing then ataReadFpdmaQueuedExt else ataReadDmaQueuedExt
          else if mode = .nativeQueuing then ataWriteFpdmaQueuedExt else ataWriteDmaQueuedExt)
          .command true ]
    else
      [ writeAtaCommandReg (p.numOfSectors &&& 0xFF) .features false,
        writeAtaCommandReg ((tags.deviceTag <<< 3) &&& 0xF8) .sectorCount false,
        writeAtaCommandReg (p.lowLbaAddress &&& 0xFF) .lbaLow false,
        writeAtaCommandReg ((p.lowLbaAddress &&& 0xFF00) >>> 8) .lbaMid false,
        writeAtaCommandReg ((p.lowLbaAddress &&& 0xFF0000) >>> 16) .lbaHigh false,
        writeAtaCommandReg
          (deviceLba ||| ((p.lowLbaAddress &&& 0xF000000) >>> 24).setWidth 8) .device false,
        writeAtaCommandReg
          (if p.readWrite = .read then ataReadDmaQueued else ataWriteDmaQueued) .command true ]
  else if p.isExt then
    [ writeAtaCommandReg ((p.numOfSectors &&& 0xFF00) >>> 8) .sectorCount false,
      writeAtaCommandReg (p.numOfSectors &&& 0xFF) .sectorCount false,
      writeAtaCommandReg ((p.lowLbaAddress &&& 0xFF000000) >>> 24) .lbaLow false,
      writeAtaCommandReg (p.lowLbaAddress &&& 0xFF) .lbaLow false,
      writeAtaCommandReg (p.highLbaAddress &&& 0xFF) .lbaMid false,
      writeAtaCommandReg ((p.lowLbaAddress &&& 0xFF00) >>> 8) .lbaMid false,
      writeAtaCommandReg ((p.highLbaAddress &&& 0xFF00) >>> 8) .lbaHigh false,
      writeAtaCommandReg ((p.lowLbaAddress &&& 0xFF0000) >>> 16) .lbaHigh false,
      writeAtaCommandReg deviceLba .device false,
      writeAtaCommandReg
        (if p.readWrite = .read then ataReadDmaExt else ataWriteDmaExt) .command true ]
  else
    [ writeAtaCommandReg (p.numOfSectors &&& 0xFF) .sectorCount false,
      writeAtaCommandReg (p.lowLbaAddress &&& 0xFF) .lbaLow false,
      writeAtaCommandReg ((p.lowLbaAddress &&& 0xFF00) >>> 8) .lbaMid false,
      writeAtaCommandReg ((p.lowLbaAddress &&& 0xFF0000) >>> 16) .lbaHigh false,
      writeAtaCommandReg
        (deviceLba ||| ((p.lowLbaAddress &&& 0xF000000) >>> 24).setWidth 8) .device false,
      writeAtaCommandReg
        (if p.readWrite = .read then ataReadDma else ataWriteDma) .command true ]

/-- `writeEdmaRequestEntry`. What the entry held before stays behind the words written. -/
def writeEdmaRequestEntry (entry : RequestEntry) (mode : EdmaMode) (tags : CommandTags)
    (p : UdmaCommandParams) : RequestEntry :=
  { prdLowAddr := p.prdLowAddr
    prdHighAddr := p.prdHighAddr
    controlFlags := edmaControlFlags tags p
    command := edmaCommandWords mode tags p ++
      entry.command.drop (edmaCommandWords mode tags p).length }

/-- `MV_GEN2E_EDMA_REQUEST_QUEUE_ENTRY`. -/
structure Gen2ERequestEntry where
  prdLowAddr : BitVec 32
  prdHighAddr : BitVec 32
  controlFlags : BitVec 32
  dataRegionByteCount : BitVec 16
  ataCommand : BitVec 8
  ataFeatures : BitVec 8
  ataLbaLow : BitVec 8
  ataLbaMid : BitVec 8
  ataLbaHigh : BitVec 8
  ataDevice : BitVec 8
  ataLbaLowExp : BitVec 8
  ataLbaMidExp : BitVec 8
  ataLbaHighExp : BitVec 8
  ataFeaturesExp : BitVec 8
  ataSectorCount : BitVec 8
  ataSectorCountExp : BitVec 8
  deriving DecidableEq, Repr

/-- The control flags of a Gen IIE request entry. -/
def gen2EControlFlags (tags : CommandTags) (p : UdmaCommandParams) : BitVec 32 :=
  (if p.readWrite = .read then 1 else 0) ||| (tags.deviceTag.setWidth 32 <<< 1) |||
    (tags.pmPort.setWidth 32 <<< 12) ||| (tags.hostTag.setWidth 32 <<< 17) |||
    if p.singleDataRegion then 0x10000 else 0

/-- `writeGen2EEdmaRequestEntry`. The fields that a command does not use keep what the entry held
before. -/
def writeGen2EEdmaRequestEntry (entry : Gen2ERequestEntry) (mode : EdmaMode) (tags : CommandTags)
    (p : UdmaCommandParams) : Gen2ERequestEntry :=
  let entry := { entry with
    prdLowAddr := p.prdLowAddr
    prdHighAddr := p.prdHighAddr
    controlFlags := gen2EControlFlags tags p
    dataRegionByteCount := if p.singleDataRegion then p.byteCount else entry.dataRegionByteCount }
  if mode = .queued ∨ mode = .nativeQueuing then
    if p.isExt then
      { entry with
        ataFeaturesExp := ((p.numOfSectors &&& 0xFF00) >>> 8).setWidth 8
        ataFeatures := (p.numOfSectors &&& 0xFF).setWidth 8
        ataSectorCount := (tags.deviceTag <<< 3) &&& 0xF8
        ataLbaLowExp := ((p.lowLbaAddress &&& 0xFF000000) >>> 24).setWidth 8
        ataLbaLow := (p.lowLbaAddress &&& 0xFF).setWidth 8
        ataLbaMidExp := (p.highLbaAddress &&& 0xFF).setWidth 8
        ataLbaMid := ((p.lowLbaAddress &&& 0xFF00) >>> 8).setWidth 8
        ataLbaHighExp := ((p.highLbaAddress &&& 0xFF00) >>> 8).setWidth 8
        ataLbaHigh := ((p.lowLbaAddress &&& 0xFF0000) >>> 16).setWidth 8
        ataDevice :=
          if mode = .nativeQueuing ∧ p.fua then deviceFua ||| deviceLba else deviceLba
        ataCommand :=
          if p.readWrite = .read then
            if mode = .nativeQueuing then ataReadFpdmaQueuedExt else ataReadDmaQueuedExt
          else if mode = .nativeQueuing then ataWriteFpdmaQueuedExt else ataWriteDmaQueuedExt }
    else
      { entry with
        ataFeatures := (p.numOfSectors &&& 0xFF).setWidth 8
        ataSectorCount := (tags.deviceTag <<< 3) &&& 0xF8
        ataLbaLow := (p.lowLbaAddress &&& 0xFF).setWidth 8
        ataLbaMid := ((p.lowLbaAddress &&& 0xFF00) >>> 8).setWidth 8
        ataLbaHigh := ((p.lowLbaAddress &&& 0xFF0000) >>> 16).setWidth 8
        ataDevice := deviceLba ||| ((p.lowLbaAddress &&& 0xF000000) >>> 24).setWidth 8
        ataCommand := if p.readWrite = .read then ataReadDmaQueued else ataWriteDmaQueued }
  else if p.isExt then
    { entry with
      ataSectorCountExp := ((p.numOfSectors &&& 0xFF00) >>> 8).setWidth 8
      ataSectorCount := (p.numOfSectors &&& 0xFF).setWidth 8
      ataLbaLowExp := ((p.lowLbaAddress &&& 0xFF000000) >>> 24).setWidth 8
      ataLbaLow := (p.lowLbaAddress &&& 0xFF).setWidth 8
      ataLbaMidExp := (p.highLbaAddress &&& 0xFF).setWidth 8
      ataLbaMid := ((p.lowLbaAddress &&& 0xFF00) >>> 8).setWidth 8
      ataLbaHighExp := ((p.highLbaAddress &&& 0xFF00) >>> 8).setWidth 8
      ataLbaHigh := ((p.lowLbaAddress &&& 0xFF0000) >>> 16).setWidth 8
      ataDevice := deviceLba
      ataCommand := if p.readWrite = .read then ataReadDmaExt else ataWriteDmaExt }
  else
    { entry with
      ataSectorCount := (p.numOfSectors &&& 0xFF).setWidth 8
      ataLbaLow := (p.lowLbaAddress &&& 0xFF).setWidth 8
      ataLbaMid := ((p.lowLbaAddress &&& 0xFF00) >>> 8).setWidth 8
      ataLbaHigh := ((p.lowLbaAddress &&& 0xFF0000) >>> 16).setWidth 8
      ataDevice := deviceLba ||| ((p.lowLbaAddress &&& 0xF000000) >>> 24).setWidth 8
      ataCommand := if p.readWrite = .read then ataReadDma else ataWriteDma }

/-- What `mvSataQueueCommand` makes of a UDMA command: there are only extended commands for native
queuing. -/
def acceptUdma (mode : EdmaMode) (p : UdmaCommandParams) : UdmaCommandParams :=
  if mode = .nativeQueuing then { p with isExt := true } else p

/-- A register of two bytes. -/
structure AtaFifo where
  previous : BitVec 8
  current : BitVec 8
  deriving DecidableEq, Repr

/-- The registers of a device. -/
structure AtaRegisters where
  features : AtaFifo
  sectorCount : AtaFifo
  lbaLow : AtaFifo
  lbaMid : AtaFifo
  lbaHigh : AtaFifo
  device : BitVec 8
  command : BitVec 8
  deriving DecidableEq, Repr

/-- Write to a register of two bytes. -/
def AtaFifo.write (fifo : AtaFifo) (data : BitVec 8) : AtaFifo := ⟨fifo.current, data⟩

/-- The register at an address. -/
def AtaReg.ofAddr (addr : BitVec 5) : Option AtaReg :=
  [.features, .sectorCount, .lbaLow, .lbaMid, .lbaHigh, .device, .command].find? fun reg =>
    reg.addr == addr

/-- Write to a register of a device. -/
def AtaRegisters.write (regs : AtaRegisters) (data : BitVec 8) : AtaReg → AtaRegisters
  | .features => { regs with features := regs.features.write data }
  | .sectorCount => { regs with sectorCount := regs.sectorCount.write data }
  | .lbaLow => { regs with lbaLow := regs.lbaLow.write data }
  | .lbaMid => { regs with lbaMid := regs.lbaMid.write data }
  | .lbaHigh => { regs with lbaHigh := regs.lbaHigh.write data }
  | .device => { regs with device := data }
  | .command => { regs with command := data }

/-- The register that a command word names. -/
def wordReg (word : BitVec 16) : Option AtaReg := AtaReg.ofAddr (word.extractLsb' 8 5)

/-- The byte that a command word writes. -/
def wordData (word : BitVec 16) : BitVec 8 := word.extractLsb' 0 8

/-- A command word is marked as the last one. -/
def wordLast (word : BitVec 16) : Bool := word.getLsbD 15

/-- The writes of the command words up to the one that is marked as last. -/
def AtaRegisters.replay (regs : AtaRegisters) : List (BitVec 16) → AtaRegisters
  | [] => regs
  | word :: words =>
    let regs :=
      match wordReg word with
      | some reg => regs.write (wordData word) reg
      | none => regs
    if wordLast word then regs else regs.replay words

/-- The commands that address by 48 bits. -/
def isExtCommand (command : BitVec 8) : Bool :=
  command ∈ [ataReadDmaExt, ataWriteDmaExt, ataReadDmaQueuedExt, ataWriteDmaQueuedExt,
    ataReadFpdmaQueuedExt, ataWriteFpdmaQueuedExt]

/-- The commands that carry a tag in the sector count, and the sector count in the features. -/
def isQueuedCommand (command : BitVec 8) : Bool :=
  command ∈ [ataReadDmaQueued, ataWriteDmaQueued, ataReadDmaQueuedExt, ataWriteDmaQueuedExt,
    ataReadFpdmaQueuedExt, ataWriteFpdmaQueuedExt]

/-- The commands of native queuing. -/
def isFpdmaCommand (command : BitVec 8) : Bool :=
  command ∈ [ataReadFpdmaQueuedExt, ataWriteFpdmaQueuedExt]

/-- A number of sectors, where zero stands for the largest one. -/
def sectorsOf {w : ℕ} (count : BitVec w) : ℕ := if count = 0 then 2 ^ w else count.toNat

/-- A command as the device understands it. -/
structure AtaCommand where
  opcode : BitVec 8
  lba : BitVec 48
  sectors : ℕ
  tag : Option ℕ
  fua : Bool
  deriving DecidableEq, Repr

/-- The command that the registers of a device hold. -/
def AtaRegisters.denote (regs : AtaRegisters) : AtaCommand :=
  let count := if isQueuedCommand regs.command then regs.features else regs.sectorCount
  { opcode := regs.command
    lba :=
      if isExtCommand regs.command then
        regs.lbaHigh.previous ++ regs.lbaMid.previous ++ regs.lbaLow.previous ++
          regs.lbaHigh.current ++ regs.lbaMid.current ++ regs.lbaLow.current
      else
        (regs.device.extractLsb' 0 4 ++ regs.lbaHigh.current ++ regs.lbaMid.current ++
          regs.lbaLow.current).setWidth 48
    sectors :=
      if isExtCommand regs.command then sectorsOf (count.previous ++ count.current)
      else sectorsOf count.current
    tag :=
      if isQueuedCommand regs.command then
        some (regs.sectorCount.current.extractLsb' 3 5).toNat
      else none
    fua := isFpdmaCommand regs.command && regs.device.getLsbD 7 }

/-- Where the data of a command are. -/
inductive DataPointer
  | prdTable (addr : BitVec 64)
  | region (addr : BitVec 64) (byteCount : BitVec 16)
  deriving DecidableEq, Repr

/-- A command as the EDMA understands it. -/
structure EdmaCommand where
  ata : AtaCommand
  direction : UdmaType
  deviceTag : ℕ
  hostTag : ℕ
  pmPort : ℕ
  data : DataPointer
  deriving DecidableEq, Repr

/-- The direction bit of the control flags. -/
def directionOf (bit : Bool) : UdmaType := if bit then .read else .write

/-- The command of a Gen I/II request entry, for a device with the given registers. There is one
tag, for the device and for the host. -/
def RequestEntry.denote (entry : RequestEntry) (regs : AtaRegisters) : EdmaCommand :=
  { ata := (regs.replay entry.command).denote
    direction := directionOf (entry.controlFlags.getLsbD 0)
    deviceTag := (entry.controlFlags.extractLsb' 1 5).toNat
    hostTag := (entry.controlFlags.extractLsb' 1 5).toNat
    pmPort := (entry.controlFlags.extractLsb' 12 4).toNat
    data := .prdTable (entry.prdHighAddr ++ entry.prdLowAddr) }

/-- The registers of a Gen IIE request entry. -/
def Gen2ERequestEntry.registers (entry : Gen2ERequestEntry) : AtaRegisters :=
  { features := ⟨entry.ataFeaturesExp, entry.ataFeatures⟩
    sectorCount := ⟨entry.ataSectorCountExp, entry.ataSectorCount⟩
    lbaLow := ⟨entry.ataLbaLowExp, entry.ataLbaLow⟩
    lbaMid := ⟨entry.ataLbaMidExp, entry.ataLbaMid⟩
    lbaHigh := ⟨entry.ataLbaHighExp, entry.ataLbaHigh⟩
    device := entry.ataDevice
    command := entry.ataCommand }

/-- The command of a Gen IIE request entry. -/
def Gen2ERequestEntry.denote (entry : Gen2ERequestEntry) : EdmaCommand :=
  { ata := entry.registers.denote
    direction := directionOf (entry.controlFlags.getLsbD 0)
    deviceTag := (entry.controlFlags.extractLsb' 1 5).toNat
    hostTag := (entry.controlFlags.extractLsb' 17 7).toNat
    pmPort := (entry.controlFlags.extractLsb' 12 4).toNat
    data :=
      if entry.controlFlags.getLsbD 16 then
        .region (entry.prdHighAddr ++ entry.prdLowAddr) entry.dataRegionByteCount
      else .prdTable (entry.prdHighAddr ++ entry.prdLowAddr) }

/-- The opcode of a command. -/
def requestedOpcode (isExt : Bool) : EdmaMode → UdmaType → BitVec 8
  | .notQueued, .read => if isExt then ataReadDmaExt else ataReadDma
  | .notQueued, .write => if isExt then ataWriteDmaExt else ataWriteDma
  | .queued, .read => if isExt then ataReadDmaQueuedExt else ataReadDmaQueued
  | .queued, .write => if isExt then ataWriteDmaQueuedExt else ataWriteDmaQueued
  | .nativeQueuing, .read => ataReadFpdmaQueuedExt
  | .nativeQueuing, .write => ataWriteFpdmaQueuedExt

/-- The command that is asked for. Only native queuing has forced unit access. -/
def requestedCommand (mode : EdmaMode) (tags : CommandTags) (p : UdmaCommandParams) : EdmaCommand :=
  { ata :=
      { opcode := requestedOpcode p.isExt mode p.readWrite
        lba := p.highLbaAddress ++ p.lowLbaAddress
        sectors :=
          if p.numOfSectors = 0 then if p.isExt then 65536 else 256 else p.numOfSectors.toNat
        tag := if mode = .notQueued then none else some tags.deviceTag.toNat
        fua := p.fua && mode = .nativeQueuing }
    direction := p.readWrite
    deviceTag := tags.deviceTag.toNat
    hostTag := tags.hostTag.toNat
    pmPort := tags.pmPort.toNat
    data :=
      if p.singleDataRegion then .region (p.prdHighAddr ++ p.prdLowAddr) p.byteCount
      else .prdTable (p.prdHighAddr ++ p.prdLowAddr) }

/-- The tags of the pools and the ports of a port multiplier. -/
structure CommandTags.Valid (tags : CommandTags) : Prop where
  hostTag : tags.hostTag.toNat < 128
  deviceTag : tags.deviceTag.toNat < 32
  pmPort : tags.pmPort.toNat < 16

/-- A command that its opcode can carry: a command that is not extended has an address of 28 bits
and at most 256 sectors. -/
def UdmaCommandParams.Fits (p : UdmaCommandParams) : Prop :=
  p.isExt = true ∨
    (p.highLbaAddress = 0 ∧ p.lowLbaAddress.toNat < 2 ^ 28 ∧ p.numOfSectors.toNat ≤ 256)

variable {mode : EdmaMode} {tags : CommandTags} {p : UdmaCommandParams} {w : ℕ}

@[simp] theorem ofAddr_addr (reg : AtaReg) : AtaReg.ofAddr reg.addr = some reg := by
  cases reg <;> rfl

@[simp] theorem wordData_write (data : BitVec w) (reg : AtaReg) (isLast : Bool) :
    wordData (writeAtaCommandReg data reg isLast) = data.setWidth 8 := by
  unfold wordData writeAtaCommandReg
  ext i hi
  cases reg <;> cases isLast <;> interval_cases i <;> simp [AtaReg.addr]

@[simp] theorem wordReg_write (data : BitVec w) (reg : AtaReg) (isLast : Bool) :
    wordReg (writeAtaCommandReg data reg isLast) = some reg := by
  have haddr : (writeAtaCommandReg data reg isLast).extractLsb' 8 5 = reg.addr := by
    unfold writeAtaCommandReg
    ext i hi
    cases reg <;> cases isLast <;> interval_cases i <;> simp [AtaReg.addr]
  rw [wordReg, haddr, ofAddr_addr]

@[simp] theorem wordLast_write (data : BitVec w) (reg : AtaReg) (isLast : Bool) :
    wordLast (writeAtaCommandReg data reg isLast) = isLast := by
  unfold wordLast writeAtaCommandReg
  cases reg <;> cases isLast <;> simp [AtaReg.addr]

theorem byte_low16 (x : BitVec 16) : (x &&& 0xFF).setWidth 8 = x.extractLsb' 0 8 :=
  byte_mask (n := 0) (by decide)

theorem byte_high16 (x : BitVec 16) :
    ((x &&& 0xFF00) >>> 8).setWidth 8 = x.extractLsb' 8 8 :=
  byte_mask (by decide)

theorem byte_zero32 (x : BitVec 32) : (x &&& 0xFF).setWidth 8 = x.extractLsb' 0 8 :=
  byte_mask (n := 0) (by decide)

theorem byte_one32 (x : BitVec 32) :
    ((x &&& 0xFF00) >>> 8).setWidth 8 = x.extractLsb' 8 8 :=
  byte_mask (by decide)

theorem byte_two32 (x : BitVec 32) :
    ((x &&& 0xFF0000) >>> 16).setWidth 8 = x.extractLsb' 16 8 :=
  byte_mask (by decide)

theorem byte_three32 (x : BitVec 32) :
    ((x &&& 0xFF000000) >>> 24).setWidth 8 = x.extractLsb' 24 8 :=
  byte_mask (by decide)

/-- The four bits of an address that a device register takes. -/
theorem device_nibble (x : BitVec 32) :
    (deviceLba ||| ((x &&& 0xF000000) >>> 24).setWidth 8).extractLsb' 0 4 = x.extractLsb' 24 4 := by
  ext i hi
  interval_cases i <;> simp [deviceLba]

/-- The tag in the sector count. -/
theorem tag_sectorCount {x : BitVec 8} (hx : x.toNat < 32) :
    (((x <<< 3) &&& 0xF8).extractLsb' 3 5).toNat = x.toNat := by
  have htag : ((x <<< 3) &&& 0xF8).extractLsb' 3 5 = x.setWidth 5 := by
    ext i hi
    interval_cases i <;> simp
  rw [htag, BitVec.toNat_setWidth]
  exact Nat.mod_eq_of_lt hx

/-- A sector count of 16 bits. -/
theorem bytes_append16 (x : BitVec 16) : x.extractLsb' 8 8 ++ x.extractLsb' 0 8 = x := by
  apply BitVec.eq_of_toNat_eq
  have hx := x.isLt
  simp only [toNat_append_eq, BitVec.extractLsb'_toNat, Nat.shiftRight_eq_div_pow]
  omega

/-- An address of 48 bits. -/
theorem bytes_append48 (x : BitVec 16) (y : BitVec 32) :
    x.extractLsb' 8 8 ++ x.extractLsb' 0 8 ++ y.extractLsb' 24 8 ++ y.extractLsb' 16 8 ++
      y.extractLsb' 8 8 ++ y.extractLsb' 0 8 = x ++ y := by
  apply BitVec.eq_of_toNat_eq
  have hx := x.isLt
  have hy := y.isLt
  simp only [toNat_append_eq, BitVec.extractLsb'_toNat, Nat.shiftRight_eq_div_pow]
  omega

/-- An address of 28 bits. -/
theorem bytes_append28 (x : BitVec 32) :
    x.extractLsb' 24 4 ++ x.extractLsb' 16 8 ++ x.extractLsb' 8 8 ++ x.extractLsb' 0 8 =
      x.extractLsb' 0 28 := by
  apply BitVec.eq_of_toNat_eq
  have hx := x.isLt
  simp only [toNat_append_eq, BitVec.extractLsb'_toNat, Nat.shiftRight_eq_div_pow]
  omega

/-- What a command of the device carries of the command that is asked for. -/
def carriedAta (mode : EdmaMode) (tags : CommandTags) (p : UdmaCommandParams) : AtaCommand :=
  { (requestedCommand mode tags p).ata with
    lba :=
      if p.isExt then p.highLbaAddress ++ p.lowLbaAddress
      else (p.lowLbaAddress.extractLsb' 0 28).setWidth 48
    sectors :=
      if p.isExt then sectorsOf p.numOfSectors else sectorsOf (p.numOfSectors.extractLsb' 0 8) }

/-- The register that takes the sector count. -/
def AtaRegisters.count (regs : AtaRegisters) (mode : EdmaMode) : AtaFifo :=
  if mode = .notQueued then regs.sectorCount else regs.features

/-- The registers hold the bytes of a command, as far as the command uses them. -/
structure AtaRegisters.Holds (regs : AtaRegisters) (mode : EdmaMode) (tags : CommandTags)
    (p : UdmaCommandParams) : Prop where
  command : regs.command = requestedOpcode p.isExt mode p.readWrite
  current : (regs.count mode).current = p.numOfSectors.extractLsb' 0 8 ∧
    regs.lbaLow.current = p.lowLbaAddress.extractLsb' 0 8 ∧
    regs.lbaMid.current = p.lowLbaAddress.extractLsb' 8 8 ∧
    regs.lbaHigh.current = p.lowLbaAddress.extractLsb' 16 8
  previous : p.isExt = true → (regs.count mode).previous = p.numOfSectors.extractLsb' 8 8 ∧
    regs.lbaLow.previous = p.lowLbaAddress.extractLsb' 24 8 ∧
    regs.lbaMid.previous = p.highLbaAddress.extractLsb' 0 8 ∧
    regs.lbaHigh.previous = p.highLbaAddress.extractLsb' 8 8
  tag : mode ≠ .notQueued →
    (regs.sectorCount.current.extractLsb' 3 5).toNat = tags.deviceTag.toNat
  device : p.isExt = false → regs.device.extractLsb' 0 4 = p.lowLbaAddress.extractLsb' 24 4
  fua : mode = .nativeQueuing → regs.device.getLsbD 7 = p.fua

theorem isExtCommand_requested (hext : mode = .nativeQueuing → p.isExt = true) :
    isExtCommand (requestedOpcode p.isExt mode p.readWrite) = p.isExt := by
  cases mode with
  | nativeQueuing =>
    rw [hext rfl]
    cases p.readWrite <;> rfl
  | queued => cases p.readWrite <;> cases p.isExt <;> rfl
  | notQueued => cases p.readWrite <;> cases p.isExt <;> rfl

theorem isQueuedCommand_requested (isExt : Bool) (readWrite : UdmaType) :
    isQueuedCommand (requestedOpcode isExt mode readWrite) = decide (mode ≠ .notQueued) := by
  cases mode <;> cases readWrite <;> cases isExt <;> rfl

theorem isFpdmaCommand_requested (isExt : Bool) (readWrite : UdmaType) :
    isFpdmaCommand (requestedOpcode isExt mode readWrite) = decide (mode = .nativeQueuing) := by
  cases mode <;> cases readWrite <;> cases isExt <;> rfl

/-- Registers that hold the bytes of a command are read by the device as what the command
carries. -/
theorem AtaRegisters.Holds.denote {regs : AtaRegisters} (hregs : regs.Holds mode tags p)
    (hext : mode = .nativeQueuing → p.isExt = true) : regs.denote = carriedAta mode tags p := by
  have hcount : (if isQueuedCommand regs.command then regs.features else regs.sectorCount) =
      regs.count mode := by
    rw [hregs.command, isQueuedCommand_requested]
    unfold AtaRegisters.count
    by_cases hmode : mode = .notQueued
    · simp [hmode]
    · simp [hmode]
  obtain ⟨hcur, hlow, hmid, hhigh⟩ := hregs.current
  have hlba : (if p.isExt then regs.lbaHigh.previous ++ regs.lbaMid.previous ++
      regs.lbaLow.previous ++ regs.lbaHigh.current ++ regs.lbaMid.current ++ regs.lbaLow.current
      else (regs.device.extractLsb' 0 4 ++ regs.lbaHigh.current ++ regs.lbaMid.current ++
        regs.lbaLow.current).setWidth 48) =
      if p.isExt then p.highLbaAddress ++ p.lowLbaAddress
      else (p.lowLbaAddress.extractLsb' 0 28).setWidth 48 := by
    by_cases hisExt : p.isExt = true
    · obtain ⟨-, hlow', hmid', hhigh'⟩ := hregs.previous hisExt
      rw [if_pos hisExt, if_pos hisExt, hlow, hmid, hhigh, hlow', hmid', hhigh', bytes_append48]
    · rw [if_neg hisExt, if_neg hisExt, hregs.device (by simpa using hisExt), hlow, hmid, hhigh,
        bytes_append28]
  have hsectors : (if p.isExt then sectorsOf ((regs.count mode).previous ++
      (regs.count mode).current) else sectorsOf (regs.count mode).current) =
      if p.isExt then sectorsOf p.numOfSectors
      else sectorsOf (p.numOfSectors.extractLsb' 0 8) := by
    by_cases hisExt : p.isExt = true
    · rw [if_pos hisExt, if_pos hisExt, hcur, (hregs.previous hisExt).1, bytes_append16]
    · rw [if_neg hisExt, if_neg hisExt, hcur]
  have htag : (if decide (mode ≠ .notQueued) then
      some (regs.sectorCount.current.extractLsb' 3 5).toNat else none) =
      if mode = .notQueued then none else some tags.deviceTag.toNat := by
    by_cases hmode : mode = .notQueued
    · simp [hmode]
    · simp [hmode, hregs.tag hmode]
  have hfua : (decide (mode = .nativeQueuing) && regs.device.getLsbD 7) =
      (p.fua && decide (mode = .nativeQueuing)) := by
    by_cases hmode : mode = .nativeQueuing
    · rw [hregs.fua hmode]
      simp [hmode]
    · simp [hmode]
  unfold AtaRegisters.denote carriedAta requestedCommand
  dsimp only
  rw [hcount, hregs.command, isExtCommand_requested hext, isQueuedCommand_requested,
    isFpdmaCommand_requested, hlba, hsectors, htag, hfua]

@[simp] theorem replay_write (regs : AtaRegisters) (data : BitVec w) (reg : AtaReg)
    (words : List (BitVec 16)) :
    regs.replay (writeAtaCommandReg data reg false :: words) =
      (regs.write (data.setWidth 8) reg).replay words := by
  simp [AtaRegisters.replay]

@[simp] theorem replay_last (regs : AtaRegisters) (data : BitVec w) (reg : AtaReg)
    (words : List (BitVec 16)) :
    regs.replay (writeAtaCommandReg data reg true :: words) =
      regs.write (data.setWidth 8) reg := by
  simp [AtaRegisters.replay]

/-- The device register of a native queued command asks for forced unit access. -/
theorem device_fua (hmode : mode = .nativeQueuing) :
    (if mode = .nativeQueuing ∧ p.fua = true then deviceFua ||| deviceLba
      else deviceLba).getLsbD 7 = p.fua := by
  subst hmode
  cases p.fua <;> rfl

/-- The command words of a Gen I/II entry leave the bytes of the command in the registers. -/
theorem replay_holds (regs : AtaRegisters) (rest : List (BitVec 16)) (htags : tags.Valid)
    (hext : mode = .nativeQueuing → p.isExt = true) :
    (regs.replay (edmaCommandWords mode tags p ++ rest)).Holds mode tags p := by
  by_cases hqueued : mode = .queued ∨ mode = .nativeQueuing
  · have hmode : mode ≠ .notQueued := by
      rcases hqueued with rfl | rfl
      · decide
      · decide
    by_cases hisExt : p.isExt = true
    · have hdevice : (if mode = .nativeQueuing ∧ p.fua = true then
          writeAtaCommandReg (deviceFua ||| deviceLba) .device false
          else writeAtaCommandReg deviceLba .device false) =
          writeAtaCommandReg (if mode = .nativeQueuing ∧ p.fua = true then
            deviceFua ||| deviceLba else deviceLba) .device false := by
        split_ifs <;> rfl
      simp only [edmaCommandWords, if_pos hqueued, if_pos hisExt, hdevice, List.cons_append,
        replay_write, replay_last, BitVec.setWidth_eq, AtaRegisters.write, AtaFifo.write]
      constructor
      · rw [hisExt]
        rcases hqueued with rfl | rfl
        · cases p.readWrite <;> rfl
        · cases p.readWrite <;> rfl
      · simp only [AtaRegisters.count, if_neg hmode, byte_low16, byte_zero32, byte_one32,
          byte_two32, and_self]
      · intro _
        simp only [AtaRegisters.count, if_neg hmode, byte_low16, byte_high16, byte_three32,
          and_self]
      · intro _
        exact tag_sectorCount htags.deviceTag
      · intro hnot
        rw [hisExt] at hnot
        cases hnot
      · exact device_fua
    · simp only [edmaCommandWords, if_pos hqueued, if_neg hisExt, List.cons_append,
        replay_write, replay_last, BitVec.setWidth_eq, AtaRegisters.write, AtaFifo.write]
      obtain rfl : mode = .queued := hqueued.resolve_right fun h => hisExt (hext h)
      constructor
      · rw [Bool.not_eq_true] at hisExt
        rw [hisExt]
        cases p.readWrite <;> rfl
      · simp only [AtaRegisters.count, if_neg hmode, byte_low16, byte_zero32, byte_one32,
          byte_two32, and_self]
      · intro h
        exact absurd h hisExt
      · intro _
        exact tag_sectorCount htags.deviceTag
      · intro _
        exact device_nibble _
      · intro h
        cases h
  · have hmode : mode = .notQueued := by
      cases mode <;> simp_all
    by_cases hisExt : p.isExt = true
    · simp only [edmaCommandWords, if_neg hqueued, if_pos hisExt, List.cons_append,
        replay_write, replay_last, BitVec.setWidth_eq, AtaRegisters.write, AtaFifo.write]
      subst hmode
      constructor
      · rw [hisExt]
        cases p.readWrite <;> rfl
      · simp only [AtaRegisters.count, if_true, byte_low16, byte_zero32, byte_one32, byte_two32,
          and_self]
      · intro _
        simp only [AtaRegisters.count, if_true, byte_low16, byte_high16, byte_three32, and_self]
      · intro h
        exact absurd rfl h
      · intro hnot
        rw [hisExt] at hnot
        cases hnot
      · intro h
        cases h
    · simp only [edmaCommandWords, if_neg hqueued, if_neg hisExt, List.cons_append,
        replay_write, replay_last, BitVec.setWidth_eq, AtaRegisters.write, AtaFifo.write]
      subst hmode
      constructor
      · rw [Bool.not_eq_true] at hisExt
        rw [hisExt]
        cases p.readWrite <;> rfl
      · simp only [AtaRegisters.count, if_true, byte_low16, byte_zero32, byte_one32, byte_two32,
          and_self]
      · intro h
        exact absurd h hisExt
      · intro h
        exact absurd rfl h
      · intro _
        exact device_nibble _
      · intro h
        cases h

/-- A Gen IIE entry holds what the command words of a Gen I/II entry leave in registers whose
first byte is already the one that the entry keeps. -/
theorem registers_eq_replay (entry : Gen2ERequestEntry) (rest : List (BitVec 16)) :
    ∃ regs : AtaRegisters, (writeGen2EEdmaRequestEntry entry mode tags p).registers =
      regs.replay (edmaCommandWords mode tags p ++ rest) := by
  -- a register that is written once moves its current byte to the previous one
  let moved (previous : BitVec 8) : AtaFifo := ⟨previous, previous⟩
  let features : AtaFifo := if mode = .notQueued then ⟨entry.ataFeaturesExp, entry.ataFeatures⟩
    else moved entry.ataFeaturesExp
  refine ⟨⟨features, moved entry.ataSectorCountExp, moved entry.ataLbaLowExp,
    moved entry.ataLbaMidExp, moved entry.ataLbaHighExp, 0, 0⟩, ?_⟩
  cases mode <;> cases hisExt : p.isExt <;> cases hfua : p.fua <;>
    simp [features, moved, edmaCommandWords, writeGen2EEdmaRequestEntry, hisExt, hfua,
      Gen2ERequestEntry.registers, AtaRegisters.write, AtaFifo.write]

/-- A Gen IIE entry holds the bytes of the command. -/
theorem registers_holds (entry : Gen2ERequestEntry) (htags : tags.Valid)
    (hext : mode = .nativeQueuing → p.isExt = true) :
    (writeGen2EEdmaRequestEntry entry mode tags p).registers.Holds mode tags p := by
  obtain ⟨regs, hsame⟩ := @registers_eq_replay mode tags p entry []
  rw [hsame]
  exact replay_holds regs [] htags hext

/-- A byte below a power of two has no bits from there on. -/
theorem getLsbD_of_lt {x : BitVec 8} {n i : ℕ} (hx : x.toNat < 2 ^ n) (hi : n ≤ i) :
    x.getLsbD i = false := by
  rw [← BitVec.testBit_toNat]
  apply Nat.testBit_lt_two_pow
  exact lt_of_lt_of_le hx (Nat.pow_le_pow_right (by decide) hi)

/-- The control flags of a Gen I/II entry. -/
theorem edmaControlFlags_fields (htags : tags.Valid) (hequal : tags.hostTag = tags.deviceTag) :
    directionOf ((edmaControlFlags tags p).getLsbD 0) = p.readWrite ∧
      ((edmaControlFlags tags p).extractLsb' 1 5).toNat = tags.deviceTag.toNat ∧
      ((edmaControlFlags tags p).extractLsb' 12 4).toNat = tags.pmPort.toNat := by
  refine ⟨?_, ?_, ?_⟩
  · unfold edmaControlFlags
    cases p.readWrite <;> simp [directionOf]
  · have htag : (edmaControlFlags tags p).extractLsb' 1 5 = tags.deviceTag.setWidth 5 := by
      unfold edmaControlFlags
      rw [hequal]
      ext i hi
      cases p.readWrite <;> interval_cases i <;> simp
    rw [htag, BitVec.toNat_setWidth]
    exact Nat.mod_eq_of_lt htags.deviceTag
  · have hport : (edmaControlFlags tags p).extractLsb' 12 4 = tags.pmPort.setWidth 4 := by
      unfold edmaControlFlags
      ext i hi
      cases p.readWrite <;> interval_cases i <;> simp
    rw [hport, BitVec.toNat_setWidth]
    exact Nat.mod_eq_of_lt htags.pmPort

/-- The control flags of a Gen IIE entry. -/
theorem gen2EControlFlags_fields (htags : tags.Valid) :
    directionOf ((gen2EControlFlags tags p).getLsbD 0) = p.readWrite ∧
      ((gen2EControlFlags tags p).extractLsb' 1 5).toNat = tags.deviceTag.toNat ∧
      ((gen2EControlFlags tags p).extractLsb' 12 4).toNat = tags.pmPort.toNat ∧
      ((gen2EControlFlags tags p).extractLsb' 17 7).toNat = tags.hostTag.toNat ∧
      (gen2EControlFlags tags p).getLsbD 16 = p.singleDataRegion := by
  have hport : ∀ i, 4 ≤ i → tags.pmPort.getLsbD i = false :=
    fun i hi => getLsbD_of_lt htags.pmPort hi
  refine ⟨?_, ?_, ?_, ?_, ?_⟩
  · unfold gen2EControlFlags
    cases p.readWrite <;> cases p.singleDataRegion <;> simp [directionOf]
  · have htag : (gen2EControlFlags tags p).extractLsb' 1 5 = tags.deviceTag.setWidth 5 := by
      unfold gen2EControlFlags
      ext i hi
      cases p.readWrite <;> cases p.singleDataRegion <;> interval_cases i <;> simp
    rw [htag, BitVec.toNat_setWidth]
    exact Nat.mod_eq_of_lt htags.deviceTag
  · have hport : (gen2EControlFlags tags p).extractLsb' 12 4 = tags.pmPort.setWidth 4 := by
      unfold gen2EControlFlags
      ext i hi
      cases p.readWrite <;> cases p.singleDataRegion <;> interval_cases i <;> simp
    rw [hport, BitVec.toNat_setWidth]
    exact Nat.mod_eq_of_lt htags.pmPort
  · have htag : (gen2EControlFlags tags p).extractLsb' 17 7 = tags.hostTag.setWidth 7 := by
      unfold gen2EControlFlags
      ext i hi
      have hzero := hport (5 + i) (by omega)
      cases p.readWrite <;> cases p.singleDataRegion <;> interval_cases i <;> simp_all
    rw [htag, BitVec.toNat_setWidth]
    exact Nat.mod_eq_of_lt htags.hostTag
  · have hzero := hport 4 le_rfl
    unfold gen2EControlFlags
    cases p.readWrite <;> cases p.singleDataRegion <;> simp_all

/-- An address is one of 28 bits. -/
theorem lba28_iff (x : BitVec 16) (y : BitVec 32) :
    x ++ y = (y.extractLsb' 0 28).setWidth 48 ↔ x = 0 ∧ y.toNat < 2 ^ 28 := by
  have hy := y.isLt
  have hx : x = 0 ↔ x.toNat = 0 := by
    rw [← BitVec.toNat_inj]
    rfl
  rw [← BitVec.toNat_inj, toNat_append_eq, BitVec.toNat_setWidth, BitVec.extractLsb'_toNat,
    Nat.shiftRight_zero, hx]
  omega

/-- A number of sectors is one of eight bits, where zero stands for 256. -/
theorem sectors8_iff (x : BitVec 16) :
    (if x = 0 then 256 else x.toNat) = sectorsOf (x.extractLsb' 0 8) ↔ x.toNat ≤ 256 := by
  have hlt := x.isLt
  have hx : x = 0 ↔ x.toNat = 0 := by
    rw [← BitVec.toNat_inj]
    rfl
  have hbyte : x.extractLsb' 0 8 = 0 ↔ x.toNat % 256 = 0 := by
    rw [← BitVec.toNat_inj, BitVec.extractLsb'_toNat]
    rfl
  unfold sectorsOf
  simp only [hx, hbyte, BitVec.extractLsb'_toNat, Nat.shiftRight_zero]
  split_ifs <;> omega

/-- The device is asked for what the command carries when the command fits. -/
theorem requested_eq_carried_iff :
    (requestedCommand mode tags p).ata = carriedAta mode tags p ↔ p.Fits := by
  have hparts : (requestedCommand mode tags p).ata = carriedAta mode tags p ↔
      (requestedCommand mode tags p).ata.lba = (carriedAta mode tags p).lba ∧
      (requestedCommand mode tags p).ata.sectors = (carriedAta mode tags p).sectors := by
    constructor
    · intro h
      rw [h]
      exact ⟨rfl, rfl⟩
    · rintro ⟨hlba, hsectors⟩
      unfold carriedAta at hlba hsectors ⊢
      dsimp only at hlba hsectors
      rw [← hlba, ← hsectors]
  rw [hparts]
  unfold UdmaCommandParams.Fits carriedAta requestedCommand
  dsimp only
  by_cases hisExt : p.isExt = true
  · simp only [hisExt, if_true, true_and, true_or, iff_true]
    rfl
  · simp only [hisExt, if_false, false_or, Bool.false_eq_true]
    rw [lba28_iff, sectors8_iff, and_assoc]

/-- Only the last command word is marked as last. -/
theorem edmaCommandWords_marks :
    ∃ n < requestCommandsNum, (edmaCommandWords mode tags p).map wordLast =
      List.replicate n false ++ [true] := by
  unfold edmaCommandWords
  by_cases hqueued : mode = .queued ∨ mode = .nativeQueuing
  · rw [if_pos hqueued]
    by_cases hisExt : p.isExt = true
    · rw [if_pos hisExt]
      refine ⟨10, by decide, ?_⟩
      simp only [List.map_cons, apply_ite wordLast, wordLast_write, ite_self, List.map_nil]
      rfl
    · rw [if_neg hisExt]
      refine ⟨6, by decide, ?_⟩
      simp only [List.map_cons, wordLast_write, List.map_nil]
      rfl
  · rw [if_neg hqueued]
    by_cases hisExt : p.isExt = true
    · rw [if_pos hisExt]
      refine ⟨9, by decide, ?_⟩
      simp only [List.map_cons, wordLast_write, List.map_nil]
      rfl
    · rw [if_neg hisExt]
      refine ⟨5, by decide, ?_⟩
      simp only [List.map_cons, wordLast_write, List.map_nil]
      rfl

/-- A Gen I/II entry has at most as many command words as there is room for, and the last one of
them is the only one that is marked as last. -/
theorem edmaCommandWords_last (mode : EdmaMode) (tags : CommandTags) (p : UdmaCommandParams) :
    (edmaCommandWords mode tags p).length ≤ requestCommandsNum ∧
      ∀ i word, (edmaCommandWords mode tags p)[i]? = some word →
        (wordLast word = true ↔ i + 1 = (edmaCommandWords mode tags p).length) := by
  obtain ⟨n, hn, hmarks⟩ : ∃ n < requestCommandsNum, (edmaCommandWords mode tags p).map wordLast =
      List.replicate n false ++ [true] := edmaCommandWords_marks
  have hlength : (edmaCommandWords mode tags p).length = n + 1 := by
    rw [← List.length_map wordLast, hmarks]
    simp
  refine ⟨by omega, ?_⟩
  intro i word hword
  have hlt := (List.getElem?_eq_some_iff.mp hword).1
  have hmark : ((edmaCommandWords mode tags p).map wordLast)[i]? = some (wordLast word) := by
    rw [List.getElem?_map, hword]
    rfl
  rw [hmarks] at hmark
  rw [hlength]
  by_cases hi : i < n
  · rw [List.getElem?_append_left (by simpa using hi), List.getElem?_replicate, if_pos hi] at hmark
    rw [← Option.some.inj hmark]
    simp only [Bool.false_eq_true, false_iff]
    omega
  · obtain rfl : i = n := by omega
    rw [List.getElem?_append_right (by simp)] at hmark
    simp only [List.length_replicate, Nat.sub_self, List.getElem?_cons_zero] at hmark
    rw [← Option.some.inj hmark]
    simp

/-- A Gen IIE entry is read as what the command carries. -/
theorem gen2E_denote (entry : Gen2ERequestEntry) (htags : tags.Valid)
    (hext : mode = .nativeQueuing → p.isExt = true) :
    (writeGen2EEdmaRequestEntry entry mode tags p).denote =
      { requestedCommand mode tags p with ata := carriedAta mode tags p } := by
  obtain ⟨hdirection, hdevice, hport, hhost, hregion⟩ := gen2EControlFlags_fields (p := p) htags
  have hflags : (writeGen2EEdmaRequestEntry entry mode tags p).controlFlags =
      gen2EControlFlags tags p := by
    unfold writeGen2EEdmaRequestEntry
    dsimp only
    split_ifs <;> rfl
  have hlow : (writeGen2EEdmaRequestEntry entry mode tags p).prdLowAddr = p.prdLowAddr := by
    unfold writeGen2EEdmaRequestEntry
    dsimp only
    split_ifs <;> rfl
  have hhigh : (writeGen2EEdmaRequestEntry entry mode tags p).prdHighAddr = p.prdHighAddr := by
    unfold writeGen2EEdmaRequestEntry
    dsimp only
    split_ifs <;> rfl
  have hbytes : p.singleDataRegion = true →
      (writeGen2EEdmaRequestEntry entry mode tags p).dataRegionByteCount = p.byteCount := by
    intro hsingle
    unfold writeGen2EEdmaRequestEntry
    dsimp only
    split_ifs <;> rfl
  unfold Gen2ERequestEntry.denote
  rw [(registers_holds entry htags hext).denote hext, hflags, hdirection, hdevice, hport, hhost,
    hregion, hlow, hhigh]
  unfold requestedCommand
  dsimp only
  by_cases hsingle : p.singleDataRegion = true
  · rw [if_pos hsingle, if_pos hsingle, hbytes hsingle]
  · rw [if_neg hsingle, if_neg hsingle]

/-- A Gen I/II entry is read as what the command carries, when there is one tag and the data are
described by a table. -/
theorem edma_denote (entry : RequestEntry) (regs : AtaRegisters) (htags : tags.Valid)
    (hext : mode = .nativeQueuing → p.isExt = true) (hequal : tags.hostTag = tags.deviceTag)
    (hsingle : p.singleDataRegion = false) :
    (writeEdmaRequestEntry entry mode tags p).denote regs =
      { requestedCommand mode tags p with ata := carriedAta mode tags p } := by
  obtain ⟨hdirection, hdevice, hport⟩ := edmaControlFlags_fields (p := p) htags hequal
  unfold RequestEntry.denote writeEdmaRequestEntry
  dsimp only
  rw [(replay_holds regs _ htags hext).denote hext, hdirection, hdevice, hport]
  unfold requestedCommand
  dsimp only
  rw [hsingle, hequal]
  rfl

theorem acceptUdma_isExt (mode : EdmaMode) (p : UdmaCommandParams) :
    mode = .nativeQueuing → (acceptUdma mode p).isExt = true := by
  intro hmode
  unfold acceptUdma
  rw [if_pos hmode]

theorem acceptUdma_singleDataRegion (mode : EdmaMode) (p : UdmaCommandParams) :
    (acceptUdma mode p).singleDataRegion = p.singleDataRegion := by
  unfold acceptUdma
  split_ifs <;> rfl

/-- The encodings of a UDMA command agree. On the Gen I/II adapters the host tag is the device tag,
and a command has a table of its data; then the two entries are read as the same command, whatever
the entries and the device held before. It is the command that is asked for exactly when this one is
extended, or has an address of 28 bits and at most 256 sectors. A Gen I/II entry has at most eleven
command words, and the last one of them is the only one that is marked as last. -/
theorem crqb_encodings (mode : EdmaMode) (p : UdmaCommandParams) (htags : tags.Valid) :
    (tags.hostTag = tags.deviceTag → p.singleDataRegion = false → ∀ entry entry' regs,
      (writeEdmaRequestEntry entry mode tags (acceptUdma mode p)).denote regs =
        (writeGen2EEdmaRequestEntry entry' mode tags (acceptUdma mode p)).denote) ∧
    (∀ entry, (writeGen2EEdmaRequestEntry entry mode tags (acceptUdma mode p)).denote =
      requestedCommand mode tags (acceptUdma mode p) ↔ (acceptUdma mode p).Fits) ∧
    (edmaCommandWords mode tags (acceptUdma mode p)).length ≤ requestCommandsNum ∧
    ∀ i word, (edmaCommandWords mode tags (acceptUdma mode p))[i]? = some word →
      (wordLast word = true ↔
        i + 1 = (edmaCommandWords mode tags (acceptUdma mode p)).length) := by
  have hext := acceptUdma_isExt mode p
  refine ⟨?_, ?_, edmaCommandWords_last mode tags (acceptUdma mode p)⟩
  · intro hequal hsingle entry entry' regs
    rw [← acceptUdma_singleDataRegion mode p] at hsingle
    rw [edma_denote entry regs htags hext hequal hsingle, gen2E_denote entry' htags hext]
  · intro entry
    have hfits : (requestedCommand mode tags (acceptUdma mode p)).ata =
        carriedAta mode tags (acceptUdma mode p) ↔ (acceptUdma mode p).Fits :=
      requested_eq_carried_iff
    rw [gen2E_denote entry htags hext, ← hfits]
    constructor
    · intro h
      exact (congrArg EdmaCommand.ata h).symm
    · intro h
      rw [← h]

/-- A native queued write with forced unit access at an address of 48 bits, with the tag 30. -/
theorem crqb_encodings_native :
    (writeEdmaRequestEntry ⟨0, 0, 0, []⟩ .nativeQueuing ⟨30, 30, 0⟩
        ⟨.write, true, true, 0x89abcdef, 0x4567, 0, 0x1000, 0, false, 0⟩).denote
          ⟨⟨0, 0⟩, ⟨0, 0⟩, ⟨0, 0⟩, ⟨0, 0⟩, ⟨0, 0⟩, 0, 0⟩ =
      (writeGen2EEdmaRequestEntry ⟨0, 0, 0, 0, 0, 0, 0, 0, 0, 0, 0, 0, 0, 0, 0, 0⟩ .nativeQueuing
        ⟨30, 30, 0⟩ ⟨.write, true, true, 0x89abcdef, 0x4567, 0, 0x1000, 0, false, 0⟩).denote := by
  have htags : CommandTags.Valid ⟨30, 30, 0⟩ := ⟨by decide, by decide, by decide⟩
  exact (crqb_encodings .nativeQueuing
    ⟨.write, true, true, 0x89abcdef, 0x4567, 0, 0x1000, 0, false, 0⟩ htags).1 rfl rfl _ _ _

/-- A read that is not extended loses the bits of its address from the 28th one on: for both
encoders, a read of the sector 2²⁸ reads the first sector. -/
theorem crqb_lba28_truncated :
    ((writeEdmaRequestEntry ⟨0, 0, 0, []⟩ .notQueued ⟨0, 0, 0⟩
        ⟨.read, false, false, 0x10000000, 0, 1, 0x1000, 0, false, 0⟩).denote
          ⟨⟨0, 0⟩, ⟨0, 0⟩, ⟨0, 0⟩, ⟨0, 0⟩, ⟨0, 0⟩, 0, 0⟩).ata.lba = 0 ∧
      (writeGen2EEdmaRequestEntry ⟨0, 0, 0, 0, 0, 0, 0, 0, 0, 0, 0, 0, 0, 0, 0, 0⟩
        .notQueued ⟨0, 0, 0⟩
        ⟨.read, false, false, 0x10000000, 0, 1, 0x1000, 0, false, 0⟩).denote.ata.lba = 0 ∧
      (requestedCommand .notQueued ⟨0, 0, 0⟩
        ⟨.read, false, false, 0x10000000, 0, 1, 0x1000, 0, false, 0⟩).ata.lba = 0x10000000 := by
  refine ⟨?_, ?_, ?_⟩
  · decide
  · decide
  · decide

end Mv88fxx81.Sata.Core
