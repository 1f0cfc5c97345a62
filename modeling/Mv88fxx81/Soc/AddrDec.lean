import Mathlib.Algebra.Group.Nat.Defs
import Mathlib.Data.Fin.Basic
import Mathlib.Logic.Function.Basic
import Mathlib.Order.CompletePartialOrder
import Mathlib.Order.Interval.Set.Basic
import Mv88fxx81.Lib.Literals

/-!
# Address windows

The units of the controller reach their targets through address windows. A window
is a base and a size in the registers of the unit, with the attributes of its
target. Before a window is opened it is compared with the windows that are open.
This file models the windows of the processor: the ones of the memory and the ones
of the bridge to the internal bus.

Of a register only the fields of the windows are kept.
-/

namespace Mv88fxx81.Soc

/-- `MV_ADDR_WIN`, without the upper half of the base, which is never looked at. -/
structure AddrWin where
  baseLow : BitVec 32
  size : BitVec 32
  deriving DecidableEq, Repr

/-- The bytes of a window. The size of a window of 4 GB does not fit and reads as zero. -/
def AddrWin.bytes (win : AddrWin) : ℕ := if win.size = 0 then 2 ^ 32 else win.size.toNat

/-- The addresses of a window. -/
def AddrWin.addresses (win : AddrWin) : Set ℕ :=
  Set.Ico win.baseLow.toNat (win.baseLow.toNat + win.bytes)

/-- `ctrlWinOverlapTest`. -/
def ctrlWinOverlapTest (pAddrWin1 pAddrWin2 : AddrWin) : Bool :=
  if 0xffffffff - pAddrWin1.baseLow < pAddrWin1.size - 1 ∨
      0xffffffff - pAddrWin2.baseLow < pAddrWin2.size - 1 then true
  else
    let winBase1 := pAddrWin1.baseLow
    let winBase2 := pAddrWin2.baseLow
    let winTop1 := winBase1 + pAddrWin1.size - 1
    let winTop2 := winBase2 + pAddrWin2.size - 1
    decide ((winBase1 ≤ winTop2 ∧ winTop2 ≤ winTop1) ∨ (winBase1 ≤ winBase2 ∧ winBase2 ≤ winTop1))

/-- `MV_IS_NOT_ALIGN`. -/
def isNotAlign (number align : BitVec 32) : Bool := number &&& (align - 1) ≠ 0

/-- The value that stands for an invalid size. -/
def noSize : BitVec 32 := 0xffffffff

/-- The loop that shifts out the ones at the end of a number. -/
def dropOnes : ℕ → BitVec 32 → BitVec 32
  | 0, number => number
  | fuel + 1, number => if number &&& 1 = 1 then dropOnes fuel (number >>> 1) else number

/-- The loop that shifts a size by the ones of an alignment. -/
def shiftByOnes (shift : BitVec 32 → BitVec 32) : ℕ → BitVec 32 → BitVec 32 → BitVec 32 × BitVec 32
  | 0, size, alignment => (size, alignment)
  | fuel + 1, size, alignment =>
    if alignment &&& 1 = 1 then shiftByOnes shift fuel (shift size) (alignment >>> 1)
    else (size, alignment)

/-- `ctrlSizeToReg`. -/
def ctrlSizeToReg (size alignment : BitVec 32) : BitVec 32 :=
  if size = 0 ∨ isNotAlign size alignment then noSize
  else
    let (size, alignment) := shiftByOnes (· >>> 1) 32 size (alignment - 1)
    if alignment ≠ 0 then noSize
    else
      let size := size - 1
      if dropOnes 32 size ≠ 0 then noSize else size

/-- `ctrlRegToSize`. -/
def ctrlRegToSize (regSize alignment : BitVec 32) : BitVec 32 :=
  if dropOnes 32 regSize ≠ 0 then noSize
  else if dropOnes 32 (alignment - 1) ≠ 0 then noSize
  else (shiftByOnes (· <<< 1) 32 (regSize + 1) (alignment - 1)).1

/-- The alignment of bases and sizes. -/
def sizeAlignment : BitVec 32 := 0x10000

/-- The base and the size of a window in the registers, in units of 64 KB. -/
structure DecRegs where
  baseReg : BitVec 16
  sizeReg : BitVec 16
  deriving DecidableEq, Repr

/-- `mvCtrlAddrDecToReg`. -/
def mvCtrlAddrDecToReg (win : AddrWin) : Option DecRegs :=
  let sizeToReg := ctrlSizeToReg win.size sizeAlignment
  if sizeToReg = noSize then none
  else some ⟨(win.baseLow >>> 16).setWidth 16, sizeToReg.setWidth 16⟩

/-- `mvCtrlRegToAddrDec`. -/
def mvCtrlRegToAddrDec (regs : DecRegs) : AddrWin :=
  ⟨regs.baseReg.setWidth 32 <<< 16, ctrlRegToSize (regs.sizeReg.setWidth 32) sizeAlignment⟩

/-- `MV_TARGET`. -/
inductive Target
  | sdramCs0
  | sdramCs1
  | sdramCs2
  | sdramCs3
  | pex0Mem
  | pex0Io
  | pci0Mem
  | pci0Io
  | interRegs
  | deviceCs0
  | deviceCs1
  | deviceCs2
  | devBoocs
  | cryptEng
  deriving DecidableEq, Repr

/-- The targets in their order. -/
def Target.all : List Target :=
  [.sdramCs0, .sdramCs1, .sdramCs2, .sdramCs3, .pex0Mem, .pex0Io, .pci0Mem, .pci0Io, .interRegs,
    .deviceCs0, .deviceCs1, .deviceCs2, .devBoocs, .cryptEng]

/-- `MV_TARGET_IS_DRAM`, with the number of the chip select. -/
def Target.dram? : Target → Option (Fin 4)
  | .sdramCs0 => some 0
  | .sdramCs1 => some 1
  | .sdramCs2 => some 2
  | .sdramCs3 => some 3
  | _ => none

/-- `MV_TARGET_ATTRIB`. -/
structure TargetAttrib where
  attrib : BitVec 8
  targetId : BitVec 8
  deriving DecidableEq, Repr

/-- `mvCtrlAttribGet`, which reads `mvTargetDefaultsArray`. -/
def mvCtrlAttribGet : Target → TargetAttrib
  | .sdramCs0 => ⟨0x0e, 0⟩
  | .sdramCs1 => ⟨0x0d, 0⟩
  | .sdramCs2 => ⟨0x0b, 0⟩
  | .sdramCs3 => ⟨0x07, 0⟩
  | .pex0Mem => ⟨0x59, 4⟩
  | .pex0Io => ⟨0x51, 4⟩
  | .pci0Mem => ⟨0x59, 3⟩
  | .pci0Io => ⟨0x51, 3⟩
  | .interRegs => ⟨0xff, 0xff⟩
  | .deviceCs0 => ⟨0x1e, 1⟩
  | .deviceCs1 => ⟨0x1d, 1⟩
  | .deviceCs2 => ⟨0x1b, 1⟩
  | .devBoocs => ⟨0x0f, 1⟩
  | .cryptEng => ⟨0x00, 9⟩

/-- `mvCtrlTargetGet`. -/
def mvCtrlTargetGet (targetAttrib : TargetAttrib) : Option Target :=
  Target.all.find? fun target => mvCtrlAttribGet target = targetAttrib

/-- `MV_STATUS`. -/
inductive MvStatus
  | ok
  | error
  | badParam
  | noSuch
  | notSupported
  deriving DecidableEq, Repr

/-- The registers of a window of the memory. -/
structure DramWindow where
  regs : DecRegs
  enable : Bool
  deriving DecidableEq, Repr

/-- The registers of a window of the bridge. -/
structure AhbWindow where
  regs : DecRegs
  attrib : BitVec 8
  targetId : BitVec 4
  enable : Bool
  deriving DecidableEq, Repr

/-- `MV_AHB_TO_MBUS_INTREG_WIN`, the window of the internal registers. -/
def intRegWin : ℕ := 8

/-- `INTER_REGS_SIZE`. -/
def interRegsSize : BitVec 32 := 0x100000

/-- The registers of the windows of the processor. The window of the internal registers has a base
only. -/
structure CpuRegs where
  dram : Fin 4 → DramWindow
  ahb : Fin 8 → AhbWindow
  interRegs : BitVec 16

/-- What is read of a window. -/
structure DecWin where
  addrWin : AddrWin
  target : Option Target
  enable : Bool
  deriving DecidableEq, Repr

/-- `mvDramIfWinGet`. -/
def mvDramIfWinGet (r : CpuRegs) (cs : Fin 4) : Option DecWin :=
  let win := mvCtrlRegToAddrDec (r.dram cs).regs
  if win.size = noSize then none else some ⟨win, none, (r.dram cs).enable⟩

/-- `mvAhbToMbusWinGet`. -/
def mvAhbToMbusWinGet (r : CpuRegs) (winNum : ℕ) : Option DecWin :=
  if h : winNum < 8 then
    let window := r.ahb ⟨winNum, h⟩
    let win := mvCtrlRegToAddrDec window.regs
    if win.size = noSize then none
    else
      some ⟨win, mvCtrlTargetGet ⟨window.attrib, window.targetId.setWidth 8⟩, window.enable⟩
  else if winNum = intRegWin then
    some ⟨⟨r.interRegs.setWidth 32 <<< 16, interRegsSize⟩, some .interRegs, true⟩
  else none

/-- The loop of `mvAhbToMbusWinTargetGet`. A window that cannot be read ends it. -/
def findWin (r : CpuRegs) (target : Target) : List ℕ → Option ℕ
  | [] => none
  | winNum :: winNums =>
    match mvAhbToMbusWinGet r winNum with
    | none => none
    | some decWin =>
      if decWin.enable ∧ decWin.target = some target then some winNum
      else findWin r target winNums

/-- `mvAhbToMbusWinTargetGet`. -/
def mvAhbToMbusWinTargetGet (r : CpuRegs) (target : Target) : Option ℕ :=
  if target = .interRegs then some intRegWin else findWin r target (List.range 8)

/-- `mvCpuIfTargetWinGet`, with the number of the window. -/
def mvCpuIfTargetWinGet (r : CpuRegs) (target : Target) : Except MvStatus DecWin :=
  match target.dram? with
  | some cs =>
    match mvDramIfWinGet r cs with
    | none => .error .error
    | some decWin => .ok decWin
  | none =>
    match mvAhbToMbusWinTargetGet r target with
    | none => .error .noSuch
    | some winNum =>
      match mvAhbToMbusWinGet r winNum with
      | none => .error .error
      | some decWin => .ok decWin

/-- `cpuTargetWinOverlap`. -/
def cpuTargetWinOverlap (r : CpuRegs) (target : Target) (win : AddrWin) : Bool :=
  Target.all.any fun targetNum =>
    if targetNum = target then false
    else
      match mvCpuIfTargetWinGet r targetNum with
      | .error .noSuch => false
      | .error _ => true
      | .ok decWin => decWin.enable && ctrlWinOverlapTest win decWin.addrWin

/-- The loop of `sdramIfWinOverlap`, which fails when a window cannot be read. -/
def sdramLoop (r : CpuRegs) (cs : Fin 4) (win : AddrWin) : List (Fin 4) → Option Bool
  | [] => some false
  | cs' :: rest =>
    if cs' = cs then sdramLoop r cs win rest
    else
      match mvDramIfWinGet r cs' with
      | none => none
      | some decWin =>
        if ¬ decWin.enable then sdramLoop r cs win rest
        else if ctrlWinOverlapTest win decWin.addrWin then some true
        else sdramLoop r cs win rest

/-- `sdramIfWinOverlap`. -/
def sdramIfWinOverlap (r : CpuRegs) (cs : Fin 4) (win : AddrWin) : Option Bool :=
  sdramLoop r cs win [0, 1, 2, 3]

/-- `mvDramIfWinSet`. -/
def mvDramIfWinSet (r : CpuRegs) (cs : Fin 4) (win : AddrWin) (enable : Bool) : CpuRegs :=
  if sdramIfWinOverlap r cs win = some true then r
  else if isNotAlign win.baseLow win.size then r
  else
    match mvCtrlAddrDecToReg win with
    | none => r
    | some regs => { r with dram := Function.update r.dram cs ⟨regs, enable⟩ }

/-- `mvDramIfWinEnable`. -/
def mvDramIfWinEnable (r : CpuRegs) (cs : Fin 4) (enable : Bool) : MvStatus × CpuRegs :=
  if enable then
    match mvDramIfWinGet r cs with
    | none => (.error, r)
    | some decWin =>
      if sdramIfWinOverlap r cs decWin.addrWin = some false then
        (.ok, { r with dram := Function.update r.dram cs { r.dram cs with enable := true } })
      else (.error, r)
  else (.ok, { r with dram := Function.update r.dram cs { r.dram cs with enable := false } })

/-- `mvAhbToMbusWinEnable`. The window of the internal registers is always open. -/
def mvAhbToMbusWinEnable (r : CpuRegs) (winNum : ℕ) (enable : Bool) : MvStatus × CpuRegs :=
  if h : winNum < 8 then
    (.ok, { r with
      ahb := Function.update r.ahb ⟨winNum, h⟩ { r.ahb ⟨winNum, h⟩ with enable := enable } })
  else if winNum = intRegWin then (if enable then .ok else .error, r)
  else (.error, r)

/-- `mvAhbToMbusWinSet`. A target that is wider than its field reaches into the attributes. -/
def mvAhbToMbusWinSet (r : CpuRegs) (winNum : ℕ) (win : AddrWin) (enable : Bool) (target : Target) :
    MvStatus × CpuRegs :=
  if 8 < winNum then (.error, r)
  else if isNotAlign win.baseLow win.size then (.error, r)
  else
    match mvCtrlAddrDecToReg win with
    | none => (.error, r)
    | some regs =>
      let targetAttribs := mvCtrlAttribGet target
      if h : winNum < 8 then
        let window : AhbWindow :=
          ⟨regs, targetAttribs.attrib ||| targetAttribs.targetId >>> 4,
            targetAttribs.targetId.setWidth 4, enable⟩
        (.ok, { r with ahb := Function.update r.ahb ⟨winNum, h⟩ window })
      else (.ok, { r with interRegs := regs.baseReg })

/-- `MV_CPU_DEC_WIN`. -/
structure CpuDecWin where
  addrWin : AddrWin
  enable : Bool
  winNum : ℕ
  deriving DecidableEq, Repr

/-- `mvCpuIfTargetWinSet`. There is no target for a number from `MAX_TARGETS` on. The call reports
an error for every window of the memory. -/
def mvCpuIfTargetWinSet (r : CpuRegs) (target : Option Target) (decWin : CpuDecWin) :
    MvStatus × CpuRegs :=
  match target with
  | none => (.error, r)
  | some target =>
    if cpuTargetWinOverlap r target decWin.addrWin then (.badParam, r)
    else
      match target.dram? with
      | some cs => (.error, mvDramIfWinSet r cs decWin.addrWin decWin.enable)
      | none =>
        let existingWinNum := mvAhbToMbusWinTargetGet r target
        let r :=
          match existingWinNum with
          | none => r
          | some existing =>
            if existing ≠ decWin.winNum ∧ decWin.enable then
              (mvAhbToMbusWinEnable r existing false).2
            else r
        match mvAhbToMbusWinSet r decWin.winNum decWin.addrWin decWin.enable target with
        | (.ok, r) => (.ok, r)
        | (_, r) => (.error, r)

/-- `mvCpuIfTargetWinEnable`. -/
def mvCpuIfTargetWinEnable (r : CpuRegs) (target : Option Target) (enable : Bool) :
    MvStatus × CpuRegs :=
  match target with
  | none => (.error, r)
  | some target =>
    match mvCpuIfTargetWinGet r target with
    | .error .noSuch => (if enable then .error else .ok, r)
    | .error _ => (.error, r)
    | .ok decWin =>
      if enable ∧ cpuTargetWinOverlap r target decWin.addrWin then (.error, r)
      else
        match target.dram? with
        | some cs =>
          match mvDramIfWinEnable r cs enable with
          | (.ok, r) => (.ok, r)
          | (_, r) => (.error, r)
        | none =>
          match mvAhbToMbusWinTargetGet r target with
          | none => (if enable then .error else .ok, r)
          | some winNum =>
            match mvAhbToMbusWinEnable r winNum enable with
            | (.ok, r) => (.ok, r)
            | (_, r) => (.error, r)

end Mv88fxx81.Soc
