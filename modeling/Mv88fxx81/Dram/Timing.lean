import Mv88fxx81.Dram.BankInfo

/-!
# The timing registers of the memory controller

From the parameters of the four banks the controller gets its timing registers. A parameter that
holds for all banks is the largest of the banks' values. It is turned into clock cycles, rounded
up, and written into its field less one. The registers the functions read are arguments.
-/

namespace Mv88fxx81.Dram

/-- `MV_MAX`. -/
def mvMax (a b : BitVec 32) : BitVec 32 := if b < a then a else b

/-- `SDRAM_DTYPE_DDR2` in `SDRAM_CONFIG_REG`. -/
def isDdr2 (sdramConfigReg : BitVec 32) : Bool := sdramConfigReg &&& (1 : BitVec 32) <<< 16 ≠ 0

/-- The scan of the banks for the maximum of a timing value. -/
def scanMax (pBankInfo : Fin 4 → DramBankInfo) (value : DramBankInfo → BitVec 32) : BitVec 32 :=
  (List.finRange 4).foldl (fun timing bankNum => mvMax timing (value (pBankInfo bankNum))) 0

/-- The clock cycles of a time in ns, rounded up, for a clock in MHz. -/
def clockCycles (busClk time : BitVec 32) : BitVec 32 :=
  busClk * time / 1000 + if busClk * time % 1000 ≠ 0 then 1 else 0

/-- The timing values that are different for DDR1 and DDR2. -/
structure WriteTimings where
  tWr : BitVec 32
  tWtr : BitVec 32
  tRtp : BitVec 32

/-- A turn of the scan of DDR2 banks. The value of the last one is the maximum of the one before
and the value of the bank. -/
def WriteTimings.scan (timings : WriteTimings) (bank : DramBankInfo) : WriteTimings :=
  let tWr := mvMax timings.tWr bank.minWriteRecoveryTime
  let tWtr := mvMax timings.tWtr bank.minWriteToReadCmdDelay
  let tRtp := mvMax tWtr bank.minReadToPrechCmdDelay
  ⟨tWr, tWtr, tRtp⟩

/-- The timing values of DDR2 banks, in cycles. -/
def ddr2Timings (pBankInfo : Fin 4 → DramBankInfo) (busClk : BitVec 32) : WriteTimings :=
  let timings := (List.finRange 4).foldl
    (fun (timings : WriteTimings) bankNum => timings.scan (pBankInfo bankNum)) ⟨0, 0, 0⟩
  { tWr := clockCycles busClk (timings.tWr >>> 2)
    tWtr := clockCycles busClk (timings.tWtr >>> 2)
    tRtp := clockCycles busClk (timings.tRtp >>> 2) }

/-- The timing values of DDR1 banks, in cycles, with `SDRAM_TWR` and `DDR1_CL_1_5`. -/
def ddr1Timings (minCas busClk : BitVec 32) : WriteTimings where
  tWr := clockCycles busClk 15
  tWtr := if busClk = 200 ∨ (busClk = 100 ∧ minCas = 0x02) then 2 else 1
  tRtp := 2

/-- `sdramTimeCtrlLowRegCalc`. -/
def sdramTimeCtrlLowRegCalc (sdramConfigReg : BitVec 32) (pBankInfo : Fin 4 → DramBankInfo)
    (minCas busClk : BitVec 32) : BitVec 32 :=
  let busClk := busClk / 1000000
  let tRp := clockCycles busClk (scanMax pBankInfo DramBankInfo.minRowPrechargeTime >>> 2)
  let tRrd := clockCycles busClk (scanMax pBankInfo DramBankInfo.minRowActiveToRowActive >>> 2)
  let tRcd := clockCycles busClk (scanMax pBankInfo DramBankInfo.minRasToCasDelay >>> 2)
  let tRas := clockCycles busClk (scanMax pBankInfo DramBankInfo.minRasPulseWidth)
  let timings := if isDdr2 sdramConfigReg then ddr2Timings pBankInfo busClk
    else ddr1Timings minCas busClk
  (tRp - 1) <<< 8 ||| (tRrd - 1) <<< 24 ||| (tRcd - 1) <<< 4 ||| (tRas - 1) <<< 20 |||
    (timings.tWr - 1) <<< 12 ||| (timings.tWtr - 1) <<< 16 ||| (timings.tRtp - 1) <<< 28

/-- The time of a refresh command in ns. -/
def refreshCommandTime (sdramConfigReg : BitVec 32) (pBankInfo : Fin 4 → DramBankInfo)
    (busClk : BitVec 32) : BitVec 32 :=
  if isDdr2 sdramConfigReg then scanMax pBankInfo DramBankInfo.minRefreshToActiveCmd
  else if (pBankInfo 0).deviceDensity = 0x40000000 then 120
  else if busClk = 200 then 70
  else 75

/-- `sdramTimeCtrlHighRegCalc`, with the constants `SDRAM_TR2R_CYC`, `SDRAM_TR2WW2R_CYC` and
`SDRAM_TW2W_CYC`. -/
def sdramTimeCtrlHighRegCalc (sdramConfigReg : BitVec 32) (pBankInfo : Fin 4 → DramBankInfo)
    (busClk : BitVec 32) : BitVec 32 :=
  let busClk := busClk / 1000000
  let tRfc := clockCycles busClk (refreshCommandTime sdramConfigReg pBankInfo busClk)
  ((tRfc - 1) &&& 0xf) <<< 0 ||| (1 - 1 : BitVec 32) <<< 4 ||| (1 - 1 : BitVec 32) <<< 6 |||
    (tRfc - 1) >>> 4 <<< 8 ||| (1 : BitVec 32) <<< 10

/-- The refresh interval of a bank in ns, for the code in its parameters. -/
def refreshInterval? (bank : DramBankInfo) : Option (BitVec 32) :=
  let code := bank.refreshInterval &&& 0xf
  if code = 0 then some 15625
  else if code = 1 then some 3900
  else if code = 2 then some 7800
  else if code = 3 then some 31300
  else if code = 4 then some 62500
  else if code = 5 then some 125000
  else none

/-- `SDRAM_REFRESH_MAX`, which is `SDRAM_REFRESH_MASK` too. -/
def sdramRefreshMax : BitVec 32 := 0x3000

/-- The field for the width of the devices of a bank. -/
def deviceField? (bank : DramBankInfo) : Option (BitVec 32) :=
  if bank.sdramWidth = 8 then some ((2 : BitVec 32) <<< 20)
  else if bank.sdramWidth = 16 then some ((1 : BitVec 32) <<< 20)
  else none

/-- `SDRAM_CONFIG_DV`: `SDRAM_PERR_WRITE`, `SDRAM_SRMODE` and `SDRAM_SRCLK_GATED`. -/
def sdramConfigDv : BitVec 32 :=
  (1 : BitVec 32) <<< 18 ||| (1 : BitVec 32) <<< 24 ||| (1 : BitVec 32) <<< 25

/-- `sdramConfigRegCalc`, which fails for a refresh interval or a width it does not know. -/
def sdramConfigRegCalc (sdramConfigReg : BitVec 32) (pBankInfo : DramBankInfo)
    (busClk : BitVec 32) : Option (BitVec 32) :=
  let busClk := busClk / 1000000
  let sdramConfig := sdramConfigReg
  match refreshInterval? pBankInfo with
  | none => none
  | some refreshPeriod =>
    let refreshPeriod := busClk * refreshPeriod / 1000
    let refreshPeriod := if sdramRefreshMax < refreshPeriod then sdramRefreshMax else refreshPeriod
    let sdramConfig := sdramConfig &&& ~~~sdramRefreshMax
    let sdramConfig := sdramConfig ||| refreshPeriod &&& sdramRefreshMax
    let sdramConfig :=
      if pBankInfo.registeredAddrAndControlInputs then sdramConfig ||| (1 : BitVec 32) <<< 17
      else sdramConfig
    let sdramConfig := sdramConfig &&& ~~~((3 : BitVec 32) <<< 20)
    match deviceField? pBankInfo with
    | none => none
    | some field => some (sdramConfig ||| field ||| sdramConfigDv)

end Mv88fxx81.Dram
