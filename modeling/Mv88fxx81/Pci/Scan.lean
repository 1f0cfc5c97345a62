import Mv88fxx81.Pci.BarProbe

/-!
# The scan of a PCI interface

`mvPciScan` looks for the functions of all devices on all busses and enters them into the array of
its caller. Its three loops share one index into the array.
-/

namespace Mv88fxx81.Pci

/-- `MAX_PCI_BUSSES`. -/
def maxPciBusses : ℕ := 256

/-- `MAX_PCI_DEVICES`. -/
def maxPciDevices : ℕ := 32

/-- `MAX_PCI_FUNCS`. -/
def maxPciFuncs : ℕ := 8

/-- `PCI_ERROR_CODE`, which is read where there is no function. -/
def pciErrorCode : BitVec 32 := 0xffffffff

/-- `PBHTLTCLR_MULTI_FUNC`. -/
def multiFunc : BitVec 32 := 0x00800000

/-- An interface: where it is on its own bus, and which devices there have a slot on the board. -/
structure PciIf where
  /-- It is a conventional PCI or PCI-X interface. -/
  convenPcix : Bool
  localBus : ℕ
  localDev : ℕ
  firstSlotDevNum : ℕ
  slotsNum : ℕ

/-- `MV_PCI_DEVICE`. What is read of the other registers of a function is one field. -/
structure PciDevice (Info : Type*) where
  busNumber : ℕ
  deviceNum : ℕ
  function : ℕ
  venID : BitVec 32
  deviceID : BitVec 32
  isMultiFunction : Bool
  info : Info
  funtionsNum : ℕ

/-- The functions behind an interface. -/
structure PciBusses (Info : Type*) where
  pciIf : PciIf
  /-- The registers of a function of a device on a bus. -/
  config : ℕ → ℕ → ℕ → ConfigSpace
  /-- What the rest of `pciDetectDevice` makes of them, and of the entry before. -/
  info : ℕ → ℕ → ℕ → Info → Info

variable {Info : Type*}

/-- On its own bus the interface looks at itself and the slots only. -/
def PciIf.scans (pciIf : PciIf) (bus dev : ℕ) : Bool :=
  if pciIf.convenPcix ∧ bus = pciIf.localBus then
    (pciIf.firstSlotDevNum ≤ dev && dev < pciIf.firstSlotDevNum + pciIf.slotsNum) ||
      dev = pciIf.localDev
  else true

/-- `pciDetectDevice`. Nothing is entered where there is no function. -/
def pciDetectDevice (b : PciBusses Info) (bus dev func : ℕ) (pPciAgent : PciDevice Info) :
    Option (PciDevice Info) :=
  if b.pciIf.scans bus dev then
    let pciData := b.config bus dev func 0
    if pciData = pciErrorCode then none
    else some { pPciAgent with
      busNumber := bus, deviceNum := dev, function := func
      venID := pciData &&& 0xffff, deviceID := (pciData &&& 0xffff0000) >>> 16
      isMultiFunction := b.config bus dev func 0x0C &&& multiFunc ≠ 0
      info := b.info bus dev func pPciAgent.info }
  else none

/-- The array of the caller, and how many of its entries are in use. -/
structure Agents (Info : Type*) where
  pPciAgents : ℕ → PciDevice Info
  detectedDevNum : ℕ

/-- Enters a function, if there is one. -/
def enter (b : PciBusses Info) (bus dev func : ℕ) (s : Agents Info) : Option (Agents Info) :=
  (pciDetectDevice b bus dev func (s.pPciAgents s.detectedDevNum)).map fun agent =>
    ⟨Function.update s.pPciAgents s.detectedDevNum agent, s.detectedDevNum + 1⟩

/-- Sets the number of functions of an entry. -/
def setFuntionsNum (i : ℕ) (funtionsNum : ℕ → ℕ) (s : Agents Info) : Agents Info :=
  { s with
    pPciAgents := Function.update s.pPciAgents i
      { s.pPciAgents i with funtionsNum := funtionsNum (s.pPciAgents i).funtionsNum } }

/-- The loop over the further functions of a device, of which the first one is in entry `main`. The
result tells whether there has been room. -/
def scanFuncs (b : PciBusses Info) (pPciAgentsNum bus dev main : ℕ) :
    ℕ → ℕ → Agents Info → Bool × Agents Info
  | 0, _, s => (true, s)
  | n + 1, func, s =>
    match enter b bus dev func s with
    | none => scanFuncs b pPciAgentsNum bus dev main n (func + 1) s
    | some s =>
      let s := setFuntionsNum main (· + 1) s
      if s.detectedDevNum = pPciAgentsNum then (false, s)
      else scanFuncs b pPciAgentsNum bus dev main n (func + 1) s

/-- One device. -/
def scanDevice (b : PciBusses Info) (pPciAgentsNum bus dev : ℕ) (s : Agents Info) :
    Bool × Agents Info :=
  match enter b bus dev 0 s with
  | none => (true, s)
  | some s' =>
    let main := s.detectedDevNum
    let s := setFuntionsNum main (fun _ => 1) s'
    if s.detectedDevNum = pPciAgentsNum then (false, s)
    else if (s.pPciAgents main).isMultiFunction then
      scanFuncs b pPciAgentsNum bus dev main (maxPciFuncs - 1) 1 s
    else (true, s)

/-- The loop over the devices of a bus. -/
def scanDevices (b : PciBusses Info) (pPciAgentsNum bus : ℕ) :
    ℕ → ℕ → Agents Info → Bool × Agents Info
  | 0, _, s => (true, s)
  | n + 1, dev, s =>
    match scanDevice b pPciAgentsNum bus dev s with
    | (true, s) => scanDevices b pPciAgentsNum bus n (dev + 1) s
    | (false, s) => (false, s)

/-- The loop over the busses. -/
def scanBusses (b : PciBusses Info) (pPciAgentsNum : ℕ) : ℕ → ℕ → Agents Info → Bool × Agents Info
  | 0, _, s => (true, s)
  | n + 1, bus, s =>
    match scanDevices b pPciAgentsNum bus maxPciDevices 0 s with
    | (true, s) => scanBusses b pPciAgentsNum n (bus + 1) s
    | (false, s) => (false, s)

/-- What `mvPciScan` returns: its status, the array, and the number of entries in use. -/
structure ScanResult (Info : Type*) where
  ok : Bool
  pPciAgents : ℕ → PciDevice Info
  pPciAgentsNum : ℕ

/-- `mvPciScan`, after the checks of its parameters and with the master enabled. -/
def mvPciScan (b : PciBusses Info) (pPciAgents : ℕ → PciDevice Info) (pPciAgentsNum : ℕ) :
    ScanResult Info :=
  let localBus := b.pciIf.localBus
  match scanBusses b pPciAgentsNum (maxPciBusses - localBus) localBus ⟨pPciAgents, 0⟩ with
  | (true, s) => ⟨true, s.pPciAgents, s.detectedDevNum⟩
  | (false, s) => ⟨false, s.pPciAgents, pPciAgentsNum⟩

/-! ### What it has to do -/

/-- The place of a function: its bus, its device and its number. -/
structure Place where
  bus : ℕ
  dev : ℕ
  func : ℕ
  deriving DecidableEq, Repr

/-- There is a function at a place, and it is looked at. -/
def PciBusses.present (b : PciBusses Info) (bus dev func : ℕ) : Bool :=
  b.pciIf.scans bus dev && b.config bus dev func 0 ≠ pciErrorCode

/-- The device has more than one function. -/
def PciBusses.multi (b : PciBusses Info) (bus dev : ℕ) : Bool :=
  b.config bus dev 0 0x0C &&& multiFunc ≠ 0

/-- The functions of a device from a number on. -/
def PciBusses.furtherFuncs (b : PciBusses Info) (bus dev n func : ℕ) : List Place :=
  ((List.range' func n).filter (b.present bus dev)).map (Place.mk bus dev)

/-- The functions of a device that must be reported. -/
def PciBusses.ofDevice (b : PciBusses Info) (bus dev : ℕ) : List Place :=
  if b.present bus dev 0 then
    ⟨bus, dev, 0⟩ ::
      if b.multi bus dev then b.furtherFuncs bus dev (maxPciFuncs - 1) 1 else []
  else []

/-- Those of some devices of a bus. -/
def PciBusses.ofDevices (b : PciBusses Info) (bus n dev : ℕ) : List Place :=
  (List.range' dev n).flatMap (b.ofDevice bus)

/-- Those of some busses. -/
def PciBusses.ofBusses (b : PciBusses Info) (n bus : ℕ) : List Place :=
  (List.range' bus n).flatMap fun bus => b.ofDevices bus maxPciDevices 0

/-- The functions that must be reported, in the order of their busses, devices and numbers. -/
def PciBusses.functions (b : PciBusses Info) : List Place :=
  b.ofBusses (maxPciBusses - b.pciIf.localBus) b.pciIf.localBus

/-- The place in an entry. -/
def PciDevice.place (agent : PciDevice Info) : Place :=
  ⟨agent.busNumber, agent.deviceNum, agent.function⟩

/-- The number of functions of a device in a list. -/
def funcsNum (places : List Place) (place : Place) : ℕ :=
  places.countP fun p => p.bus = place.bus ∧ p.dev = place.dev

/-- The first entries are those of a list of functions, and the first function of each device knows
how many the device has. -/
structure Lists (pPciAgents : ℕ → PciDevice Info) (places : List Place) : Prop where
  place : ∀ i place, places[i]? = some place → (pPciAgents i).place = place
  funtionsNum : ∀ i place, places[i]? = some place → place.func = 0 →
    (pPciAgents i).funtionsNum = funcsNum places place

/-- The scan writes no entry that is not there, succeeds exactly when there is room for all
functions, and then reports them. -/
structure ScanRight (b : PciBusses Info) (pPciAgents : ℕ → PciDevice Info) (pPciAgentsNum : ℕ)
    (result : ScanResult Info) : Prop where
  inArray : ∀ i, pPciAgentsNum ≤ i → result.pPciAgents i = pPciAgents i
  ok_iff : result.ok = true ↔ b.functions.length ≤ pPciAgentsNum
  lists : result.ok = true → Lists result.pPciAgents b.functions ∧
    result.pPciAgentsNum = b.functions.length

end Mv88fxx81.Pci
