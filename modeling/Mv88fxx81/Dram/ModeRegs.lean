import Mv88fxx81.Dram.Timing

/-!
# The other registers of the memory controller

The latency goes into the mode register of the devices and, with the registered property of the
modules, into the control register of the unit. The size of a device goes into the address control
register. For DDR2 the set of populated banks decides on the terminations.
-/

namespace Mv88fxx81.Dram

/-- The field of a latency in the mode register, for DDR2 or DDR1. -/
def latencyField? (ddr2 : Bool) (minCas : BitVec 32) : Option (BitVec 32) :=
  if ddr2 then
    if minCas = 0x08 then some (3 <<< 4)
    else if minCas = 0x10 then some (4 <<< 4)
    else if minCas = 0x20 then some (5 <<< 4)
    else none
  else
    if minCas = 0x02 then some (5 <<< 4)
    else if minCas = 0x04 then some (2 <<< 4)
    else if minCas = 0x08 then some (6 <<< 4)
    else if minCas = 0x10 then some (3 <<< 4)
    else if minCas = 0x40 then some (4 <<< 4)
    else none

/-- `sdramModeRegCalc`, with `DDR2_MODE_REG_DV` and `DDR1_MODE_REG_DV`. -/
def sdramModeRegCalc (sdramConfigReg sdramModeReg minCas : BitVec 32) : Option (BitVec 32) :=
  let sdramMode := sdramModeReg &&& ~~~((7 : BitVec 32) <<< 4)
  match latencyField? (isDdr2 sdramConfigReg) minCas with
  | none => none
  | some field => some (sdramMode ||| field ||| if isDdr2 sdramConfigReg then 0x400 else 0)

/-- The populated banks in binary form. -/
def populateBanks (pBankInfo : Fin 4 → DramBankInfo) : BitVec 32 :=
  (List.finRange 4).foldl
    (fun present bankNum =>
      if (pBankInfo bankNum).size ≠ 0 then present ||| (1 : BitVec 32) <<< (bankNum : ℕ)
      else present) 0

/-- The settings for a set of populated banks: the extended mode, and the two termination registers
with that of the unit. -/
structure OdtSettings where
  extMode : BitVec 32
  odtCtrlLow : BitVec 32
  odtCtrlHigh : BitVec 32
  dunitOdtCtrl : BitVec 32

/-- The settings for the sets of banks that are supported. -/
def odtSettings? (present : BitVec 32) : Option OdtSettings :=
  if present = 0x1 then some ⟨0x440, 0x00010000, 0x2, 0xa01⟩
  else if present = 0x3 then some ⟨0x440, 0x00030000, 0x2, 0xa03⟩
  else if present = 0x5 then some ⟨0x404, 0x01040104, 0x22, 0xe05⟩
  else if present = 0x7 then some ⟨0x404, 0x03040304, 0x22, 0xe07⟩
  else if present = 0xd then some ⟨0x404, 0x010c010c, 0x22, 0xe0d⟩
  else if present = 0xf then some ⟨0x404, 0x030c030c, 0x22, 0xe0f⟩
  else none

/-- `sdramExtModeRegCalc`. -/
def sdramExtModeRegCalc (sdramConfigReg : BitVec 32) (pBankInfo : Fin 4 → DramBankInfo) :
    Option (BitVec 32) :=
  if isDdr2 sdramConfigReg then
    (odtSettings? (populateBanks pBankInfo)).map OdtSettings.extMode
  else some 0

/-- The delay for a latency, for modules that are not registered. Registered ones take one more. -/
def burstDelay? (ddr2 : Bool) (minCas : BitVec 32) : Option (BitVec 32) :=
  if ddr2 then
    if minCas = 0x08 then some 0x4
    else if minCas = 0x10 then some 0x5
    else none
  else
    if minCas = 0x02 ∨ minCas = 0x04 then some 0x3
    else if minCas = 0x08 ∨ minCas = 0x10 then some 0x4
    else if minCas = 0x40 then some 0x5
    else none

/-- `dunitCtrlLowRegCalc`. -/
def dunitCtrlLowRegCalc (sdramConfigReg dunitCtrlReg : BitVec 32) (pBankInfo : DramBankInfo)
    (minCas : BitVec 32) : Option (BitVec 32) :=
  let dunitCtrlLow := dunitCtrlReg &&& ~~~((0xf : BitVec 32) <<< 24)
  match burstDelay? (isDdr2 sdramConfigReg) minCas with
  | none => none
  | some delay =>
    let delay := if pBankInfo.registeredAddrAndControlInputs then delay + 1 else delay
    some (dunitCtrlLow ||| delay <<< 24)

/-- `sdramAddrCtrlRegCalc`, for the densities of devices in Mbit. -/
def sdramAddrCtrlRegCalc (addrCtrlReg : BitVec 32) (pBankInfo : DramBankInfo) :
    Option (BitVec 32) :=
  let addrCtrl := addrCtrlReg &&& ~~~((3 : BitVec 32) <<< 4)
  if pBankInfo.deviceDensity = 128 then some (addrCtrl ||| (0 : BitVec 32) <<< 4)
  else if pBankInfo.deviceDensity = 256 then some (addrCtrl ||| (1 : BitVec 32) <<< 4)
  else if pBankInfo.deviceDensity = 512 then some (addrCtrl ||| (2 : BitVec 32) <<< 4)
  else none

end Mv88fxx81.Dram
