import Mathlib.Data.BitVec
import Mathlib.Logic.Function.Basic
import Mathlib.Tactic.Common

/-!
# The base address registers of a function

`pciDetectDeviceBars` reads the base address registers of a function one after the other. To learn
the size of a window it writes ones to the register and reads back which of them are kept.
-/

namespace Mv88fxx81.Pci

/-! ### Configuration space -/

/-- The values of the registers of a function, by their offsets. -/
abbrev ConfigSpace := ℕ → BitVec 32

/-- `mvPciIfConfigWrite`: the bits that are not writable are kept. -/
def configWrite (writable cfg : ConfigSpace) (regOff : ℕ) (data : BitVec 32) : ConfigSpace :=
  Function.update cfg regOff (cfg regOff &&& ~~~writable regOff ||| data &&& writable regOff)

/-- `PCI_MEMORY_BAR_BASE_ADDR`. -/
def barBaseAddrReg (barNum : ℕ) : ℕ := 0x10 + barNum * 4

/-- `PBBLR_IOSPACE`. -/
def ioSpace : BitVec 32 := 1

/-- `PBBLR_TYPE_MASK`. -/
def typeMask : BitVec 32 := 6

/-- `PBBLR_TYPE_64BIT_ADDR`. -/
def type64bit : BitVec 32 := 4

/-- `PBBLR_PREFETCH_EN`. -/
def prefetchEn : BitVec 32 := 8

/-- `PBBLR_MEM_BASE_MASK`. -/
def memBaseMask : BitVec 32 := 0xfffffff0

/-- `PBBLR_IO_BASE_MASK`. -/
def ioBaseMask : BitVec 32 := 0xfffffffc

/-! ### The report -/

/-- `MV_PCI_BAR_TYPE`. -/
inductive BarType where
  | bar32
  | bar64
  deriving DecidableEq, Repr

/-- `MV_PCI_BAR_MAPPING`. -/
inductive BarMapping where
  | memory
  | io
  deriving DecidableEq, Repr

/-- `PCI_BAR`. -/
structure PciBar where
  barOffset : ℕ
  barBaseLow : BitVec 32
  barBaseHigh : BitVec 32
  barSizeLow : BitVec 32
  barSizeHigh : BitVec 32
  barBaseAddr : BitVec 64
  barSize : BitVec 64
  isPrefetchable : Bool
  barType : BarType
  barMapping : BarMapping

/-- What is read from the register itself. A type that is none of the two is not entered. -/
def readLow (regOff : ℕ) (pciData : BitVec 32) (bar : PciBar) : PciBar :=
  let barType :=
    if pciData &&& typeMask = 0 then .bar32
    else if pciData &&& typeMask = type64bit then .bar64
    else bar.barType
  if pciData &&& ioSpace ≠ 0 then
    { bar with
      barOffset := regOff, barType := barType, barMapping := .io
      barBaseLow := pciData &&& ioBaseMask, barBaseHigh := 0 }
  else
    { bar with
      barOffset := regOff, barType := barType, barMapping := .memory
      isPrefetchable := pciData &&& prefetchEn ≠ 0
      barBaseLow := pciData &&& memBaseMask, barBaseHigh := 0 }

/-- The base, with the next register for its upper half if the window is taken as a 64-bit one. -/
def readBase (cfg : ConfigSpace) (barIndex : ℕ) (bar : PciBar) : PciBar :=
  let bar := readLow (barBaseAddrReg barIndex) (cfg (barBaseAddrReg barIndex)) bar
  let bar :=
    if bar.barType = .bar64 then { bar with barBaseHigh := cfg (barBaseAddrReg (barIndex + 1)) }
    else bar
  { bar with
    barBaseAddr := bar.barBaseHigh.setWidth 64 <<< 32 ||| bar.barBaseLow.setWidth 64
    barSizeHigh := 0 }

/-- Ones are written to a register and read back, and the old value is written again. -/
def readSize (writable cfg : ConfigSpace) (regOff : ℕ) : BitVec 32 :=
  configWrite writable cfg regOff 0xffffffff regOff

/-- The registers after ones and then a value have been written. -/
def restore (writable cfg : ConfigSpace) (regOff : ℕ) (data : BitVec 32) : ConfigSpace :=
  configWrite writable (configWrite writable cfg regOff 0xffffffff) regOff data

/-- One turn of the loop: its counter, the registers, and the entry that has been filled. -/
structure Turn where
  barIndex : ℕ
  cfg : ConfigSpace
  bar : PciBar
  /-- The entry is kept. -/
  found : Bool

/-- The size of a 64-bit memory window. Both branches on the upper half enter the same. -/
def size64 (writable cfg : ConfigSpace) (barIndex : ℕ) (tmpBaseLow tmpBaseHigh : BitVec 32)
    (bar : PciBar) : Turn :=
  let low := barBaseAddrReg (barIndex - 1)
  let high := barBaseAddrReg barIndex
  let barSizeLow := readSize writable cfg low
  let cfg := restore writable cfg low tmpBaseLow
  let barSizeHigh := readSize writable cfg high
  let cfg := restore writable cfg high tmpBaseHigh
  if barSizeLow = 0 ∧ barSizeHigh = 0 then
    ⟨barIndex - 1, cfg, { bar with barSizeLow := barSizeLow, barSizeHigh := barSizeHigh }, false⟩
  else
    ⟨barIndex, cfg,
      { bar with barSizeLow := ~~~(barSizeLow &&& memBaseMask) + 1, barSizeHigh := 0 }, true⟩

/-- The size of any other window. A register without writable bits is not written again. -/
def size32 (writable cfg : ConfigSpace) (barIndex : ℕ) (tmpBaseLow : BitVec 32) (bar : PciBar) :
    Turn :=
  let regOff := barBaseAddrReg barIndex
  let barSizeLow := readSize writable cfg regOff
  if barSizeLow = 0 then
    ⟨barIndex, configWrite writable cfg regOff 0xffffffff, { bar with barSizeLow := barSizeLow },
      false⟩
  else
    let mask := if bar.barMapping = .memory then memBaseMask else ioBaseMask
    let barSizeLow := ~~~(barSizeLow &&& mask) + 1
    ⟨barIndex, restore writable cfg regOff tmpBaseLow,
      { bar with
        barSizeLow := barSizeLow, barSizeHigh := 0, barSize := barSizeLow.setWidth 64 }, true⟩

/-- The body of the loop. -/
def detectBar (writable cfg : ConfigSpace) (barIndex : ℕ) (bar : PciBar) : Turn :=
  let tmpBaseLow := cfg (barBaseAddrReg barIndex)
  let bar := readBase cfg barIndex bar
  let barIndex := if bar.barType = .bar64 then barIndex + 1 else barIndex
  if bar.barType = .bar64 ∧ bar.barMapping = .memory then
    size64 writable cfg barIndex tmpBaseLow bar.barBaseHigh bar
  else size32 writable cfg barIndex tmpBaseLow bar

/-- What the loop works on: the registers, the entries, and how many of them are kept. -/
structure Probe where
  cfg : ConfigSpace
  pciBar : ℕ → PciBar
  barsNum : ℕ

/-- The loop of `pciDetectDeviceBars` from a register on. Every turn goes on by at least one
register. -/
def detectBars (writable : ConfigSpace) (pciMaxBars : ℕ) : ℕ → ℕ → Probe → Probe
  | 0, _, p => p
  | fuel + 1, barIndex, p =>
    if barIndex < pciMaxBars then
      let turn := detectBar writable p.cfg barIndex (p.pciBar p.barsNum)
      detectBars writable pciMaxBars fuel (turn.barIndex + 1)
        { cfg := turn.cfg
          pciBar := Function.update p.pciBar p.barsNum turn.bar
          barsNum := if turn.found then p.barsNum + 1 else p.barsNum }
    else p

/-- The number of base address registers of a function: a bridge has two. -/
def pciMaxBars (baseClassCode subClassCode : ℕ) : ℕ :=
  if baseClassCode = 6 ∧ subClassCode = 4 then 2 else 6

/-- `pciDetectDeviceBars`, for a function of a class, with the entries that are there before. -/
def pciDetectDeviceBars (writable cfg : ConfigSpace) (baseClassCode subClassCode : ℕ)
    (pciBar : ℕ → PciBar) : Probe :=
  detectBars writable (pciMaxBars baseClassCode subClassCode)
    (pciMaxBars baseClassCode subClassCode) 0 ⟨cfg, pciBar, 0⟩

/-! ### The windows of a function -/

/-- What a base address register is made for. A window has `2 ^ log` bytes. -/
inductive Bar where
  /-- No window. -/
  | unimplemented
  /-- A window in the I/O space, of which a function may decode the lower 16 bits only. -/
  | io (base : BitVec 32) (log addrBits : ℕ)
  /-- A window in the memory space. -/
  | mem32 (base : BitVec 32) (log : ℕ) (prefetch : Bool)
  /-- A window in the memory space whose base is in two registers. -/
  | mem64 (base : BitVec 64) (log : ℕ) (prefetch : Bool)

/-- The number of registers of a window. -/
def Bar.slots : Bar → ℕ
  | .mem64 _ _ _ => 2
  | _ => 1

/-- The sizes that a window may have, and its base is a multiple of the size. -/
def Bar.WellFormed : Bar → Prop
  | .unimplemented => True
  | .io base log addrBits =>
    2 ≤ log ∧ log < addrBits ∧ 2 ^ log ∣ base.toNat ∧
      (addrBits = 32 ∨ addrBits = 16 ∧ base.toNat < 2 ^ 16)
  | .mem32 base log _ => 4 ≤ log ∧ log < 32 ∧ 2 ^ log ∣ base.toNat
  | .mem64 base log _ => 4 ≤ log ∧ log < 64 ∧ 2 ^ log ∣ base.toNat

/-- The bits that tell a window that may be fetched ahead. -/
def prefetchBits (prefetch : Bool) : BitVec 32 := if prefetch then prefetchEn else 0

/-- The registers of a window from an index on. -/
def Bar.LaidOut (writable cfg : ConfigSpace) (barIndex : ℕ) : Bar → Prop
  | .unimplemented => cfg (barBaseAddrReg barIndex) = 0 ∧ writable (barBaseAddrReg barIndex) = 0
  | .io base log addrBits =>
    cfg (barBaseAddrReg barIndex) = base ||| ioSpace ∧
      writable (barBaseAddrReg barIndex) =
        (if addrBits = 16 then BitVec.allOnes 32 <<< log &&& 0xffff else BitVec.allOnes 32 <<< log)
  | .mem32 base log prefetch =>
    cfg (barBaseAddrReg barIndex) = base ||| prefetchBits prefetch ∧
      writable (barBaseAddrReg barIndex) = BitVec.allOnes 32 <<< log
  | .mem64 base log prefetch =>
    cfg (barBaseAddrReg barIndex) = base.setWidth 32 ||| (type64bit ||| prefetchBits prefetch) ∧
      writable (barBaseAddrReg barIndex) = (BitVec.allOnes 64 <<< log).setWidth 32 ∧
      cfg (barBaseAddrReg (barIndex + 1)) = (base >>> 32).setWidth 32 ∧
      writable (barBaseAddrReg (barIndex + 1)) = ((BitVec.allOnes 64 <<< log) >>> 32).setWidth 32

/-- The registers of a list of windows. -/
def LaidOut (writable cfg : ConfigSpace) : ℕ → List Bar → Prop
  | _, [] => True
  | barIndex, bar :: bars =>
    bar.LaidOut writable cfg barIndex ∧ LaidOut writable cfg (barIndex + bar.slots) bars

/-- The windows that a function has, with the index of their first register. -/
def implemented : ℕ → List Bar → List (ℕ × Bar)
  | _, [] => []
  | barIndex, .unimplemented :: bars => implemented (barIndex + 1) bars
  | barIndex, bar :: bars => (barIndex, bar) :: implemented (barIndex + bar.slots) bars

/-- The size in an entry, in its halves, and as a whole where that is asked for. -/
def SizeIs (whole : Bool) (log : ℕ) (entry : PciBar) : Prop :=
  entry.barSizeLow = (BitVec.twoPow 64 log).setWidth 32 ∧
    entry.barSizeHigh = (BitVec.twoPow 64 log >>> 32).setWidth 32 ∧
    (whole = true → entry.barSize = BitVec.twoPow 64 log)

/-- The base in an entry, in its halves and as a whole. -/
def BaseIs (base : BitVec 64) (entry : PciBar) : Prop :=
  entry.barBaseAddr = base ∧ entry.barBaseLow = base.setWidth 32 ∧
    entry.barBaseHigh = (base >>> 32).setWidth 32

/-- An entry reports a window: its register, its kind, its base and its size. -/
def Reports (whole : Bool) (barIndex : ℕ) (entry : PciBar) : Bar → Prop
  | .unimplemented => False
  | .io base log _ =>
    entry.barOffset = barBaseAddrReg barIndex ∧ entry.barType = .bar32 ∧ entry.barMapping = .io ∧
      BaseIs (base.setWidth 64) entry ∧ SizeIs whole log entry
  | .mem32 base log prefetch =>
    entry.barOffset = barBaseAddrReg barIndex ∧ entry.barType = .bar32 ∧
      entry.barMapping = .memory ∧ entry.isPrefetchable = prefetch ∧
      BaseIs (base.setWidth 64) entry ∧ SizeIs whole log entry
  | .mem64 base log prefetch =>
    entry.barOffset = barBaseAddrReg barIndex ∧ entry.barType = .bar64 ∧
      entry.barMapping = .memory ∧ entry.isPrefetchable = prefetch ∧ BaseIs base entry ∧
      SizeIs whole log entry

/-- From an entry on, the windows are reported in their order and nothing else, and the registers
are the ones from before. -/
structure ReportsAll (whole : Bool) (cfg : ConfigSpace) (barIndex first : ℕ) (bars : List Bar)
    (p : Probe) : Prop where
  barsNum : p.barsNum = first + (implemented barIndex bars).length
  entries : ∀ i n bar, (implemented barIndex bars)[i]? = some (n, bar) →
    Reports whole n (p.pciBar (first + i)) bar
  cfg : p.cfg = cfg

/-- A window that is reported. Without the whole size, a 64-bit window of less than 4 GB is. -/
def Bar.Plain (whole : Bool) : Bar → Prop
  | .io base _ addrBits => base.getLsbD 2 = false ∧ addrBits = 32
  | .mem64 _ log _ => whole = false ∧ log < 32
  | _ => True

end Mv88fxx81.Pci
