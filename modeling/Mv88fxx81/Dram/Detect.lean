import Mv88fxx81.Dram.CasLatency
import Mv88fxx81.Dram.ModeRegs
import Mv88fxx81.Soc.AddrDec

/-!
# The detection of the memory

The banks are read one after the other. A bank that exists gets a window behind those of the banks
before it. The window of bank 0 is left alone, since the code may run from it: its new size is
saved in a buffer, from which another routine takes it later. Then the values of the controller's
registers are prepared in further buffers.
-/

namespace Mv88fxx81.Dram

open CheckedWords
open Soc (AddrWin CpuRegs DecRegs DramWindow Target ctrlSizeToReg isNotAlign
  mvCpuIfTargetWinEnable mvCtrlAddrDecToReg mvDramIfWinSet noSize sdramIfWinOverlap sizeAlignment)

/-- The registers of the detection: the windows, the registers of the controller that are read, and
the buffers `DRAM_BUF_REG0` to `DRAM_BUF_REG10`. -/
structure DramRegs where
  cpu : CpuRegs
  sdramConfig : BitVec 32
  sdramMode : BitVec 32
  dunitCtrl : BitVec 32
  addrCtrl : BitVec 32
  buf : Fin 11 → BitVec 32

/-- A value is written to a buffer. -/
def DramRegs.store (regs : DramRegs) (i : Fin 11) (value : BitVec 32) : DramRegs :=
  { regs with buf := Function.update regs.buf i value }

/-- The status of `mvDramIfWinSet`. -/
def dramIfWinSetStatus (r : CpuRegs) (cs : Fin 4) (win : AddrWin) : MvStatus :=
  if sdramIfWinOverlap r cs win = some true then .badParam
  else if isNotAlign win.baseLow win.size then .error
  else if mvCtrlAddrDecToReg win = none then .badParam
  else .ok

/-- What the scan of the banks has come to. -/
structure Scan where
  banks : Fin 4 → Option DramBankInfo
  base : BitVec 32
  regs : DramRegs

/-- The width of the controller's data bus. -/
def deviceWidth (sdramConfigReg : BitVec 32) : BitVec 32 :=
  if sdramConfigReg &&& (3 : BitVec 32) <<< 14 = (1 : BitVec 32) <<< 14 then 16 else 32

/-- The size of the window of a bank. Its size is in megabytes, and the width of the first bank's
module counts. -/
def windowSize (sdramConfigReg : BitVec 32) (first bank : DramBankInfo) : Checked (BitVec 32) := do
  let dimmW := first.dataWidth - first.dataWidth % 16
  let ratio ← div dimmW (deviceWidth sdramConfigReg)
  let size ← shiftLeft bank.size 20
  div size ratio

/-- The window of a bank: a buffer for that of bank 0, else the registers. -/
def placeBank (i : Fin 4) (size : BitVec 32) (s : Scan) : MvStatus × Scan :=
  if i = 0 then
    let sizeToReg := ctrlSizeToReg size sizeAlignment
    if sizeToReg = noSize then (.badParam, s)
    else
      (.ok, { s with base := s.base + size, regs := s.regs.store 0 (sizeToReg <<< 16 ||| 1) })
  else
    let win : AddrWin := ⟨s.base, size⟩
    if dramIfWinSetStatus s.regs.cpu i win = .ok then
      (.ok, { s with
        base := s.base + size
        regs := { s.regs with cpu := mvDramIfWinSet s.regs.cpu i win true } })
    else (.error, s)

/-- A turn of the scan of the banks. -/
def scanBank (dimms : Fin 2 → Option Spd) (i : Fin 4) (s : Scan) : Checked (MvStatus × Scan) := do
  match ← mvDramBankInfoGet dimms i with
  | none =>
    return (if i = 0 then .error else .ok, { s with banks := Function.update s.banks i none })
  | some bank =>
    let s := { s with banks := Function.update s.banks i (some bank) }
    let first := recordsOf s.banks 0
    if bank.memoryType = .sdram then return (.error, s)
    else if bank.registeredAddrAndControlInputs ≠ first.registeredAddrAndControlInputs then
      return (.error, s)
    else
      let size ← windowSize s.regs.sdramConfig first bank
      return placeBank i size s

/-- The scan of the banks, up to the first that fails. -/
def scanBanks (dimms : Fin 2 → Option Spd) : List (Fin 4) → Scan → Checked (MvStatus × Scan)
  | [], s => pure (.ok, s)
  | i :: rest, s => do
    let (status, s) ← scanBank dimms i s
    if status = .ok then scanBanks dimms rest s else return (status, s)

/-- `sdramDDr2OdtConfig`. -/
def sdramDDr2OdtConfig (regs : DramRegs) (pBankInfo : Fin 4 → DramBankInfo) : DramRegs :=
  match odtSettings? (populateBanks pBankInfo) with
  | none => regs
  | some odt => ((regs.store 7 odt.odtCtrlLow).store 8 odt.odtCtrlHigh).store 9 odt.dunitOdtCtrl

/-- The latency the detection goes on with when none is found. -/
def usedLatency (minCas : BitVec 32) : BitVec 32 :=
  let minCas := (minCas.setWidth 8).setWidth 32
  if minCas = 0 then 0x10 else minCas

/-- A value is checked for the one that stands for a failure. -/
def checked (value : BitVec 32) : Option (BitVec 32) :=
  if value = 0xffffffff then none else some value

/-- A value that could be computed goes to its buffer before the others are computed. -/
def prepare (regs : DramRegs) (i : Fin 11) (value? : Option (BitVec 32))
    (next : DramRegs → MvStatus × DramRegs) : MvStatus × DramRegs :=
  match value? with
  | none => (.error, regs)
  | some value => next (regs.store i value)

/-- The values of the controller's registers, in the buffers. -/
def prepareRegs (regs : DramRegs) (pBankInfo : Fin 4 → DramBankInfo) (minCas busClk : BitVec 32) :
    MvStatus × DramRegs :=
  prepare regs 1 (sdramConfigRegCalc regs.sdramConfig (pBankInfo 0) busClk) fun regs =>
  prepare regs 2 (sdramModeRegCalc regs.sdramConfig regs.sdramMode minCas) fun regs =>
  prepare regs 10 (sdramExtModeRegCalc regs.sdramConfig pBankInfo) fun regs =>
  prepare regs 3 (dunitCtrlLowRegCalc regs.sdramConfig regs.dunitCtrl (pBankInfo 0) minCas)
    fun regs =>
  prepare regs 4 (sdramAddrCtrlRegCalc regs.addrCtrl (pBankInfo 0)) fun regs =>
  prepare regs 5 (checked (sdramTimeCtrlLowRegCalc regs.sdramConfig pBankInfo minCas busClk))
    fun regs =>
  prepare regs 6 (checked (sdramTimeCtrlHighRegCalc regs.sdramConfig pBankInfo busClk)) fun regs =>
  (.ok, if isDdr2 regs.sdramConfig then sdramDDr2OdtConfig regs pBankInfo else regs)

/-- The windows of the banks other than bank 0 are closed. -/
def closeBanks (r : CpuRegs) : CpuRegs :=
  [Target.sdramCs1, Target.sdramCs2, Target.sdramCs3].foldl
    (fun r target => (mvCpuIfTargetWinEnable r (some target) false).2) r

/-- `mvDramIfDetect`, for the contents of the modules and the clock of the board. -/
def mvDramIfDetect (dimms : Fin 2 → Option Spd) (busClk forcedCl : BitVec 32) (regs : DramRegs) :
    Checked (MvStatus × DramRegs) := do
  if busClk = 0 then return (.error, regs)
  else
    let (status, s) ← scanBanks dimms [0, 1, 2, 3]
      ⟨fun _ => none, 0, { regs with cpu := closeBanks regs.cpu }⟩
    if status ≠ .ok then return (status, s.regs)
    else
      let first := representative (recordsOf s.banks 0) s.banks
      let minCas ← minCasCalc s.regs.sdramConfig first busClk forcedCl
      return prepareRegs s.regs (Function.update (recordsOf s.banks) 0 first) (usedLatency minCas)
        busClk

end Mv88fxx81.Dram
