import Mathlib.Data.Fin.Basic
import Mv88fxx81.Lib.CheckedWords
import Mv88fxx81.Lib.Literals

/-!
# The parameters of the memory banks

A memory module carries a small chip that describes it: its dimensions, its timings and the
latencies it supports. The functions below read the description of a module and turn it into the
parameters of its banks.

The bytes of the chip serve as divisors, as shift counts and as factors. An operation the
language leaves undefined, or whose result does not fit a word, is a fault here.
-/

namespace Mv88fxx81.Dram

open CheckedWords

/-- The values of `MV_STATUS` that the functions of the memory return. -/
inductive MvStatus
  | ok
  | error
  | fail
  | badParam
  deriving DecidableEq, Repr

/-- `MV_MEMORY_TYPE`. -/
inductive MemoryType
  | sdram
  | ddr1
  | ddr2
  deriving DecidableEq, Repr

/-- The content of the chip of a module, `SPD_SIZE` bytes. -/
abbrev Spd := Fin 128 → BitVec 8

/-- `MV_DIMM_INFO`, without the copy of the content. -/
structure DimmInfo where
  memoryType : MemoryType
  numOfRowAddr : BitVec 32
  numOfColAddr : BitVec 32
  numOfModuleBanks : BitVec 32
  dataWidth : BitVec 32
  errorCheckType : BitVec 32
  sdramWidth : BitVec 32
  errorCheckDataWidth : BitVec 32
  burstLengthSupported : BitVec 32
  numOfBanksOnEachDevice : BitVec 32
  suportedCasLatencies : BitVec 32
  refreshInterval : BitVec 32
  dimmBankDensity : BitVec 32
  dimmTypeInfo : BitVec 32
  dimmAttributes : BitVec 32
  minCycleTimeAtMaxCasLatPs : BitVec 32
  minCycleTimeAtMaxCasLatMinus1Ps : BitVec 32
  minCycleTimeAtMaxCasLatMinus2Ps : BitVec 32
  minRowPrechargeTime : BitVec 32
  minRowActiveToRowActive : BitVec 32
  minRasToCasDelay : BitVec 32
  minRasPulseWidth : BitVec 32
  minWriteRecoveryTime : BitVec 32
  minWriteToReadCmdDelay : BitVec 32
  minReadToPrechCmdDelay : BitVec 32
  minRefreshToActiveCmd : BitVec 32
  size : BitVec 32
  deviceDensity : BitVec 32
  numberOfDevices : BitVec 32

/-- `MV_DRAM_BANK_INFO`. The record of an absent bank is all zero. -/
structure DramBankInfo where
  memoryType : MemoryType := .sdram
  numOfRowAddr : BitVec 32 := 0
  numOfColAddr : BitVec 32 := 0
  dataWidth : BitVec 32 := 0
  errorCheckType : BitVec 32 := 0
  sdramWidth : BitVec 32 := 0
  errorCheckDataWidth : BitVec 32 := 0
  burstLengthSupported : BitVec 32 := 0
  numOfBanksOnEachDevice : BitVec 32 := 0
  suportedCasLatencies : BitVec 32 := 0
  refreshInterval : BitVec 32 := 0
  minCycleTimeAtMaxCasLatPs : BitVec 32 := 0
  minCycleTimeAtMaxCasLatMinus1Ps : BitVec 32 := 0
  minCycleTimeAtMaxCasLatMinus2Ps : BitVec 32 := 0
  minRowPrechargeTime : BitVec 32 := 0
  minRowActiveToRowActive : BitVec 32 := 0
  minRasToCasDelay : BitVec 32 := 0
  minRasPulseWidth : BitVec 32 := 0
  minWriteRecoveryTime : BitVec 32 := 0
  minWriteToReadCmdDelay : BitVec 32 := 0
  minReadToPrechCmdDelay : BitVec 32 := 0
  minRefreshToActiveCmd : BitVec 32 := 0
  size : BitVec 32 := 0
  deviceDensity : BitVec 32 := 0
  numberOfDevices : BitVec 32 := 0
  registeredAddrAndControlInputs : Bool := false

/-- `cas2ps`. -/
def cas2ps (spdByte : BitVec 8) : BitVec 32 :=
  let ns := (spdByte >>> 4 &&& 0x0f).setWidth 32
  let ns10 := (spdByte &&& 0x0f).setWidth 32
  let ns10 : BitVec 32 :=
    if ns10 < 10 then ns10 * 10
    else if ns10 = 10 then 25
    else if ns10 = 11 then 33
    else if ns10 = 12 then 66
    else if ns10 = 13 then 75
    else ns10
  ns * 1000 + ns10 * 10

/-- The type of a module, for byte `DIMM_MEM_TYPE`. -/
def memoryType? (byte : BitVec 8) : Option MemoryType :=
  if byte = 0x4 then some .sdram
  else if byte = 0x7 then some .ddr1
  else if byte = 0x8 then some .ddr2
  else none

/-- The megabytes that the bits of byte `DIMM_BANK_DENSITY` stand for, from bit 0 on. -/
def MemoryType.densities : MemoryType → List (BitVec 32)
  | .sdram => [1024, 8, 16, 32, 64, 128, 256, 512]
  | .ddr1 => [1024, 2048, 16, 32, 64, 128, 256, 512]
  | .ddr2 => [1024, 2048, 4096, 8192, 16384, 128, 256, 512]

/-- The chain of tests for the size of a bank: the value of the first bit that is set. -/
def densityFrom (density : BitVec 32) : ℕ → List (BitVec 32) → BitVec 32
  | _, [] => 0
  | bit, size :: sizes => if density.getLsbD bit then size else densityFrom density (bit + 1) sizes

/-- The size of a bank in megabytes. -/
def bankSize (memoryType : MemoryType) (density : BitVec 32) : BitVec 32 :=
  densityFrom density 0 memoryType.densities

/-- The number of banks of a module, which is encoded differently for DDR2. -/
def moduleBanks (memoryType : MemoryType) (data : Spd) : BitVec 32 :=
  if memoryType = .ddr2 then ((data 5).setWidth 32 &&& 0x7) + 1 else (data 5).setWidth 32

/-- The record of a module with its computed parameters. The type information is read for DDR2
only. -/
def dimmInfoOf (memoryType : MemoryType) (data : Spd)
    (size deviceDensity numberOfDevices : BitVec 32) : DimmInfo where
  memoryType := memoryType
  numOfRowAddr := (data 3).setWidth 32
  numOfColAddr := (data 4).setWidth 32
  numOfModuleBanks := moduleBanks memoryType data
  dataWidth := (data 6).setWidth 32
  errorCheckType := (data 11).setWidth 32
  sdramWidth := (data 13).setWidth 32
  errorCheckDataWidth := (data 14).setWidth 32
  burstLengthSupported := (data 16).setWidth 32
  numOfBanksOnEachDevice := (data 17).setWidth 32
  suportedCasLatencies := (data 18).setWidth 32
  refreshInterval := (data 12).setWidth 32
  dimmBankDensity := (data 31).setWidth 32
  dimmTypeInfo := if memoryType = .ddr2 then (data 20).setWidth 32 else 0
  dimmAttributes := (data 21).setWidth 32
  minCycleTimeAtMaxCasLatPs := cas2ps (data 9)
  minCycleTimeAtMaxCasLatMinus1Ps := cas2ps (data 23)
  minCycleTimeAtMaxCasLatMinus2Ps := cas2ps (data 25)
  minRowPrechargeTime := (data 27).setWidth 32
  minRowActiveToRowActive := (data 28).setWidth 32
  minRasToCasDelay := (data 29).setWidth 32
  minRasPulseWidth := (data 30).setWidth 32
  minWriteRecoveryTime := (data 36).setWidth 32
  minWriteToReadCmdDelay := (data 37).setWidth 32
  minReadToPrechCmdDelay := (data 38).setWidth 32
  minRefreshToActiveCmd := (data 42).setWidth 32
  size := size
  deviceDensity := deviceDensity
  numberOfDevices := numberOfDevices

/-- `dimmSpdGet`, for the content that is read, if any. A wrong checksum has no consequence. -/
def dimmSpdGet : Option Spd → Checked (Except MvStatus DimmInfo)
  | none => pure (.error .fail)
  | some data =>
    match memoryType? (data 2) with
    | none => pure (.error .error)
    | some memoryType => do
      let density ← shiftLeft 1 ((data 3).setWidth 32 + (data 4).setWidth 32 - 20)
      let banksDensity ← mul density ((data 17).setWidth 32)
      let deviceDensity ← mul banksDensity ((data 13).setWidth 32)
      let devicesOfBank ← div ((data 6).setWidth 32) ((data 13).setWidth 32)
      let numberOfDevices ← mul devicesOfBank (moduleBanks memoryType data)
      let size ← mul (bankSize memoryType ((data 31).setWidth 32)) (moduleBanks memoryType data)
      return .ok (dimmInfoOf memoryType data size deviceDensity numberOfDevices)

/-- Whether a module is registered: a bit of its attributes or, for DDR2, two bits of its type. -/
def DimmInfo.registered (dimm : DimmInfo) : Bool :=
  match dimm.memoryType with
  | .sdram | .ddr1 => dimm.dimmAttributes.getLsbD 1
  | .ddr2 => dimm.dimmTypeInfo.getLsbD 0 || dimm.dimmTypeInfo.getLsbD 4

/-- The record of a bank with the parameters of its module. -/
def bankInfoOf (dimm : DimmInfo) (size numberOfDevices : BitVec 32) : DramBankInfo where
  memoryType := dimm.memoryType
  numOfRowAddr := dimm.numOfRowAddr
  numOfColAddr := dimm.numOfColAddr
  dataWidth := dimm.dataWidth
  errorCheckType := dimm.errorCheckType
  sdramWidth := dimm.sdramWidth
  errorCheckDataWidth := dimm.errorCheckDataWidth
  numOfBanksOnEachDevice := dimm.numOfBanksOnEachDevice
  suportedCasLatencies := dimm.suportedCasLatencies
  refreshInterval := dimm.refreshInterval
  minCycleTimeAtMaxCasLatPs := dimm.minCycleTimeAtMaxCasLatPs
  minCycleTimeAtMaxCasLatMinus1Ps := dimm.minCycleTimeAtMaxCasLatMinus1Ps
  minCycleTimeAtMaxCasLatMinus2Ps := dimm.minCycleTimeAtMaxCasLatMinus2Ps
  minRowPrechargeTime := dimm.minRowPrechargeTime
  minRowActiveToRowActive := dimm.minRowActiveToRowActive
  minRasToCasDelay := dimm.minRasToCasDelay
  minRasPulseWidth := dimm.minRasPulseWidth
  minWriteRecoveryTime := dimm.minWriteRecoveryTime
  minWriteToReadCmdDelay := dimm.minWriteToReadCmdDelay
  minReadToPrechCmdDelay := dimm.minReadToPrechCmdDelay
  minRefreshToActiveCmd := dimm.minRefreshToActiveCmd
  size := size
  deviceDensity := dimm.deviceDensity
  numberOfDevices := numberOfDevices
  registeredAddrAndControlInputs := dimm.registered

/-- `cpyDimm2BankInfo`. -/
def cpyDimm2BankInfo (dimm : DimmInfo) : Checked DramBankInfo := do
  let size ← div dimm.size dimm.numOfModuleBanks
  let numberOfDevices ← div dimm.numberOfDevices dimm.numOfModuleBanks
  return bankInfoOf dimm size numberOfDevices

/-- The module of a bank. -/
def dimmOf (bankNum : Fin 4) : Fin 2 := ⟨bankNum / 2, by omega⟩

/-- `mvDramBankInfoGet`: the parameters of a bank, if it exists. Two banks share a module. -/
def mvDramBankInfoGet (dimms : Fin 2 → Option Spd) (bankNum : Fin 4) :
    Checked (Option DramBankInfo) := do
  match ← dimmSpdGet (dimms (dimmOf bankNum)) with
  | .error _ => return none
  | .ok dimmInfo =>
    if dimmInfo.numOfModuleBanks = 1 ∧ (bankNum : ℕ) % 2 = 1 then return none
    else
      let pBankInfo ← cpyDimm2BankInfo dimmInfo
      return some pBankInfo

/-- The records of the banks. That of an absent one is all zero. -/
def recordsOf (banks : Fin 4 → Option DramBankInfo) (bankNum : Fin 4) : DramBankInfo :=
  (banks bankNum).getD {}

/-! ### What is read -/

theorem dimmSpdGet_eq_ok {content : Option Spd} {dimm : DimmInfo}
    (hget : dimmSpdGet content = .ok (.ok dimm)) :
    ∃ data memoryType size deviceDensity numberOfDevices, content = some data ∧
      memoryType? (data 2) = some memoryType ∧
      dimm = dimmInfoOf memoryType data size deviceDensity numberOfDevices := by
  cases content with
  | none => cases hget
  | some data =>
    unfold dimmSpdGet at hget
    dsimp only at hget
    cases hmemory : memoryType? (data 2) with
    | none =>
      rw [hmemory] at hget
      cases hget
    | some memoryType =>
      rw [hmemory] at hget
      obtain ⟨density, -, hget⟩ := bind_eq_ok.mp hget
      obtain ⟨banksDensity, -, hget⟩ := bind_eq_ok.mp hget
      obtain ⟨deviceDensity, -, hget⟩ := bind_eq_ok.mp hget
      obtain ⟨devicesOfBank, -, hget⟩ := bind_eq_ok.mp hget
      obtain ⟨numberOfDevices, -, hget⟩ := bind_eq_ok.mp hget
      obtain ⟨size, -, hget⟩ := bind_eq_ok.mp hget
      cases hget
      exact ⟨data, memoryType, size, deviceDensity, numberOfDevices, rfl, hmemory, rfl⟩

/-- The parameters of a bank come from the content of its module. -/
theorem mvDramBankInfoGet_content {dimms : Fin 2 → Option Spd} {bankNum : Fin 4}
    {bank : DramBankInfo} (hget : mvDramBankInfoGet dimms bankNum = .ok (some bank)) :
    ∃ data memoryType dimmSize deviceDensity devicesOfDimm size numberOfDevices,
      dimms (dimmOf bankNum) = some data ∧ memoryType? (data 2) = some memoryType ∧
      bank = bankInfoOf (dimmInfoOf memoryType data dimmSize deviceDensity devicesOfDimm)
        size numberOfDevices := by
  unfold mvDramBankInfoGet at hget
  obtain ⟨result, hdimm, hget⟩ := bind_eq_ok.mp hget
  cases result with
  | error status => cases hget
  | ok dimm =>
    obtain ⟨data, memoryType, dimmSize, deviceDensity, devicesOfDimm, hdata, hmemory, rfl⟩ :=
      dimmSpdGet_eq_ok hdimm
    dsimp only at hget
    by_cases hodd : (dimmInfoOf memoryType data dimmSize deviceDensity
        devicesOfDimm).numOfModuleBanks = 1 ∧ (bankNum : ℕ) % 2 = 1
    · rw [if_pos hodd] at hget
      cases hget
    · rw [if_neg hodd] at hget
      obtain ⟨copied, hcopy, hget⟩ := bind_eq_ok.mp hget
      obtain ⟨size, -, hcopy⟩ := bind_eq_ok.mp hcopy
      obtain ⟨numberOfDevices, -, hcopy⟩ := bind_eq_ok.mp hcopy
      cases hcopy
      cases hget
      exact ⟨data, memoryType, dimmSize, deviceDensity, devicesOfDimm, size, numberOfDevices,
        hdata, hmemory, rfl⟩

end Mv88fxx81.Dram
