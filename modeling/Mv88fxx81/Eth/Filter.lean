import Mathlib.Data.Int.Notation
import Mathlib.Data.Nat.Notation
import Mathlib.Logic.Function.Basic
import Mathlib.Tactic.IntervalCases

/-!
# The address filter of an Ethernet port

Frames are accepted by three tables: one for unicast addresses, selected by the
last nibble of the address, one for the multicast addresses `01:00:5E:00:00:XX`,
selected by their last byte, and one for the other multicast addresses, selected
by a CRC-8. A table is an array of registers with four entries of one byte each,
whose lowest bit accepts the frame and whose other bits name the receive queue.
-/

namespace Mv88fxx81.Eth

/-- The values of `MV_STATUS` that the filter functions return. -/
inductive MvStatus
  | ok
  | badParam
  | noSuch
  | noChange
  deriving DecidableEq, Repr

/-- A MAC address, byte by byte. -/
structure MacAddr where
  a0 : BitVec 8
  a1 : BitVec 8
  a2 : BitVec 8
  a3 : BitVec 8
  a4 : BitVec 8
  a5 : BitVec 8
  deriving DecidableEq, Repr

/-- `MV_ETH_RX_Q_NUM`, with and without `INCLUDE_MULTI_QUEUE`. -/
def rxQNum (multiQueue : Bool) : ℤ := if multiQueue then 8 else 1

/-- What a port is built with. `mvEthPortInit` refuses a default queue that does not exist. -/
structure PortConfig where
  multiQueue : Bool
  rxDefQ : ℤ
  rxDefQ_nonneg : 0 ≤ rxDefQ
  rxDefQ_lt : rxDefQ < rxQNum multiQueue

/-- A table of filter registers. -/
abbrev FilterTable := ℕ → BitVec 32

/-- The registers and the port control fields of the address filter. -/
structure EthFilter where
  portConfigReg : BitVec 32
  macAddrLowReg : BitVec 32
  macAddrHighReg : BitVec 32
  ucastTable : FilterTable
  specMcastTable : FilterTable
  othMcastTable : FilterTable
  macAddr : MacAddr
  rxUcastQ : ℤ
  mcastCount : BitVec 8 → BitVec 8

/-- The entry `0x01 | (queue << 1)`. -/
def acceptEntry (queue : ℤ) : BitVec 32 := 1 ||| (BitVec.ofInt 32 queue <<< 1)

/-- The register value with four entries for `queue`, where `-1` rejects. -/
def tableValue (queue : ℤ) : BitVec 32 :=
  if queue = -1 then 0
  else
    (acceptEntry queue <<< 0) ||| (acceptEntry queue <<< 8) ||| (acceptEntry queue <<< 16) |||
      (acceptEntry queue <<< 24)

/-- Write the first `words` registers of a table. -/
def setTable (words : ℕ) (table : FilterTable) (queue : ℤ) : FilterTable :=
  fun word => if word < words then tableValue queue else table word

/-- `ethSetUcastTable`. -/
def ethSetUcastTable (table : FilterTable) (queue : ℤ) : FilterTable := setTable 4 table queue

/-- `mvEthSetSpecialMcastTable`. -/
def mvEthSetSpecialMcastTable (table : FilterTable) (queue : ℤ) : FilterTable :=
  setTable 64 table queue

/-- `mvEthSetOtherMcastTable`. -/
def mvEthSetOtherMcastTable (table : FilterTable) (queue : ℤ) : FilterTable :=
  setTable 64 table queue

/-- Replace one entry of a register. -/
def setEntry (reg : BitVec 32) (regOffset : ℕ) (queue : ℤ) : BitVec 32 :=
  if queue = -1 then reg &&& ~~~(0xFF#32 <<< (8 * regOffset))
  else (reg &&& ~~~(0xFF#32 <<< (8 * regOffset))) ||| (acceptEntry queue <<< (8 * regOffset))

/-- Read the register of an entry, replace the entry and write it back. -/
def setAddr (table : FilterTable) (entry : ℕ) (queue : ℤ) : FilterTable :=
  Function.update table (entry / 4) (setEntry (table (entry / 4)) (entry % 4) queue)

/-- The entry of the unicast table that an address selects. -/
def lastNibble (lastByte : BitVec 8) : ℕ := (0xF#8 &&& lastByte).toNat

/-- `ethSetUcastAddr`. -/
def ethSetUcastAddr (table : FilterTable) (lastByte : BitVec 8) (queue : ℤ) : FilterTable :=
  setAddr table (lastNibble lastByte) queue

/-- `ethSetSpecialMcastAddr`. -/
def ethSetSpecialMcastAddr (table : FilterTable) (lastByte : BitVec 8) (queue : ℤ) : FilterTable :=
  setAddr table lastByte.toNat queue

/-- `ethSetOtherMcastAddr`. -/
def ethSetOtherMcastAddr (table : FilterTable) (crc8 : BitVec 8) (queue : ℤ) : FilterTable :=
  setAddr table crc8.toNat queue

/-- The bits of an address that each bit of the CRC-8 is the sum of. -/
def crc8Bits : List (List ℕ) :=
  [[45, 43, 40, 39, 35, 34, 31, 30, 28, 23, 21, 19, 18, 16, 14, 12, 8, 7, 6, 0],
    [46, 45, 44, 43, 41, 39, 36, 34, 32, 30, 29, 28, 24, 23, 22, 21, 20, 18, 17, 16, 15, 14, 13,
      12, 9, 6, 1, 0],
    [47, 46, 44, 43, 42, 39, 37, 34, 33, 29, 28, 25, 24, 22, 17, 15, 13, 12, 10, 8, 6, 2, 1, 0],
    [47, 45, 44, 43, 40, 38, 35, 34, 30, 29, 26, 25, 23, 18, 16, 14, 13, 11, 9, 7, 3, 2, 1],
    [46, 45, 44, 41, 39, 36, 35, 31, 30, 27, 26, 24, 19, 17, 15, 14, 12, 10, 8, 4, 3, 2],
    [47, 46, 45, 42, 40, 37, 36, 32, 31, 28, 27, 25, 20, 18, 16, 15, 13, 11, 9, 5, 4, 3],
    [47, 46, 43, 41, 38, 37, 33, 32, 29, 28, 26, 21, 19, 17, 16, 14, 12, 10, 6, 5, 4],
    [47, 44, 42, 39, 38, 34, 33, 30, 29, 27, 22, 20, 18, 17, 15, 13, 11, 7, 6, 5]]

/-- The bits of an address as `mvEthMcastCrc8Get` numbers them. -/
def macBit (addr : MacAddr) (i : ℕ) : Bool :=
  (addr.a0 ++ addr.a1 ++ addr.a2 ++ addr.a3 ++ addr.a4 ++ addr.a5).getLsbD i

/-- `mvEthMcastCrc8Get`. -/
def mvEthMcastCrc8Get (addr : MacAddr) : BitVec 8 :=
  (crc8Bits.zipIdx.foldl fun crcResult (bits, i) =>
    crcResult ||| ((BitVec.ofBool (bits.foldl (fun crc b => crc ^^ macBit addr b) false)).setWidth
      8 <<< i)) 0

/-- `ETH_UNICAST_PROMISCUOUS_MODE_MASK`. -/
def unicastPromiscuousModeMask : BitVec 32 := 1

namespace EthFilter

variable (cfg : PortConfig)

/-- `mvEthRxFilterModeSet`. -/
def mvEthRxFilterModeSet (port : EthFilter) (isPromisc : Bool) : EthFilter :=
  let queue := if isPromisc then cfg.rxDefQ else -1
  let port :=
    if isPromisc then
      { port with
        portConfigReg := port.portConfigReg ||| unicastPromiscuousModeMask
        mcastCount := fun _ => 1 }
    else
      { port with
        portConfigReg := port.portConfigReg &&& ~~~unicastPromiscuousModeMask
        mcastCount := fun _ => 0 }
  let port :=
    { port with
      specMcastTable := mvEthSetSpecialMcastTable port.specMcastTable queue
      othMcastTable := mvEthSetOtherMcastTable port.othMcastTable queue
      ucastTable := ethSetUcastTable port.ucastTable queue }
  if isPromisc then port
  else { port with ucastTable := ethSetUcastAddr port.ucastTable port.macAddr.a5 port.rxUcastQ }

/-- `mvEthMacAddrSet`. -/
def mvEthMacAddrSet (port : EthFilter) (addr : MacAddr) (queue : ℤ) : MvStatus × EthFilter :=
  if queue ≥ rxQNum cfg.multiQueue then (.badParam, port)
  else
    (.ok,
      { port with
        macAddr := addr
        macAddrLowReg := (addr.a4 ++ addr.a5).setWidth 32
        macAddrHighReg := addr.a0 ++ addr.a1 ++ addr.a2 ++ addr.a3
        rxUcastQ := queue
        ucastTable := ethSetUcastAddr port.ucastTable addr.a5 queue })

/-- `mvEthMacAddrGet`: the address in the registers. -/
def mvEthMacAddrGet (port : EthFilter) : MacAddr :=
  { a0 := ((port.macAddrHighReg >>> 24) &&& 0xFF).setWidth 8
    a1 := ((port.macAddrHighReg >>> 16) &&& 0xFF).setWidth 8
    a2 := ((port.macAddrHighReg >>> 8) &&& 0xFF).setWidth 8
    a3 := (port.macAddrHighReg &&& 0xFF).setWidth 8
    a4 := ((port.macAddrLowReg >>> 8) &&& 0xFF).setWidth 8
    a5 := (port.macAddrLowReg &&& 0xFF).setWidth 8 }

/-- The addresses `01:00:5E:00:00:XX`. -/
def isSpecial (addr : MacAddr) : Bool :=
  addr.a0 == 0x01 && addr.a1 == 0x00 && addr.a2 == 0x5E && addr.a3 == 0x00 && addr.a4 == 0x00

/-- `mvEthMcastAddrSet`. -/
def mvEthMcastAddrSet (port : EthFilter) (addr : MacAddr) (queue : ℤ) : MvStatus × EthFilter :=
  if queue ≥ rxQNum cfg.multiQueue then (.badParam, port)
  else if isSpecial addr then
    (.ok,
      { port with specMcastTable := ethSetSpecialMcastAddr port.specMcastTable addr.a5 queue })
  else
    let crcResult := mvEthMcastCrc8Get addr
    let count := port.mcastCount crcResult
    if queue = -1 then
      if count = 0 then (.noSuch, port)
      else
        let port :=
          { port with mcastCount := Function.update port.mcastCount crcResult (count - 1) }
        if count - 1 ≠ 0 then (.noChange, port)
        else
          (.ok,
            { port with othMcastTable := ethSetOtherMcastAddr port.othMcastTable crcResult queue })
    else
      let port := { port with mcastCount := Function.update port.mcastCount crcResult (count + 1) }
      if count + 1 > 1 then (.noChange, port)
      else
        (.ok,
          { port with othMcastTable := ethSetOtherMcastAddr port.othMcastTable crcResult queue })

/-- The filter part of `mvEthPortInit` and `mvEthDefaultsSet`, from registers with any contents:
the tables reject, and the address of the port is set. The port configuration register has the
default queue for each kind of frame and leaves promiscuous mode off. -/
def mvEthDefaultsSet (regs : EthFilter) (macAddr : MacAddr) : EthFilter :=
  let q := BitVec.ofInt 32 cfg.rxDefQ
  let port :=
    { regs with
      portConfigReg := (q <<< 1) ||| (q <<< 4) ||| (q <<< 16) ||| (q <<< 19) ||| (q <<< 22) |||
        (1 <<< 25)
      ucastTable := ethSetUcastTable regs.ucastTable (-1)
      specMcastTable := mvEthSetSpecialMcastTable regs.specMcastTable (-1)
      othMcastTable := mvEthSetOtherMcastTable regs.othMcastTable (-1)
      macAddr := macAddr
      rxUcastQ := cfg.rxDefQ
      mcastCount := fun _ => 0 }
  (mvEthMacAddrSet cfg port macAddr cfg.rxDefQ).2

/-- The port is in promiscuous mode. -/
def promiscuous (port : EthFilter) : Bool := port.portConfigReg.getLsbD 0

end EthFilter

/-- The calls of the filter functions. -/
inductive FilterEvent
  | rxFilterModeSet (isPromisc : Bool)
  | macAddrSet (addr : MacAddr) (queue : ℤ)
  | mcastAddrSet (addr : MacAddr) (queue : ℤ)
  deriving DecidableEq, Repr

/-- One call of a filter function. -/
def filterCall (cfg : PortConfig) (port : EthFilter) : FilterEvent → MvStatus × EthFilter
  | .rxFilterModeSet isPromisc => (.ok, port.mvEthRxFilterModeSet cfg isPromisc)
  | .macAddrSet addr queue => port.mvEthMacAddrSet cfg addr queue
  | .mcastAddrSet addr queue => port.mvEthMcastAddrSet cfg addr queue

/-- A call as a step of a run. -/
def filterStep (cfg : PortConfig) (port : EthFilter) (event : FilterEvent) :
    Option (MvStatus × EthFilter) :=
  some (filterCall cfg port event)

/-- Registers that are all zero. -/
def zeroRegs : EthFilter :=
  { portConfigReg := 0
    macAddrLowReg := 0
    macAddrHighReg := 0
    ucastTable := fun _ => 0
    specMcastTable := fun _ => 0
    othMcastTable := fun _ => 0
    macAddr := ⟨0, 0, 0, 0, 0, 0⟩
    rxUcastQ := 0
    mcastCount := fun _ => 0 }

/-- A port with one queue. -/
def oneQueue : PortConfig := ⟨false, 0, by decide, by decide⟩

/-- An entry of a table accepts frames. -/
def accepts (table : FilterTable) (entry : ℕ) : Bool :=
  (table (entry / 4)).getLsbD (8 * (entry % 4))

/-- An entry for a queue accepts. -/
theorem getLsbD_acceptEntry_zero (queue : ℤ) : (acceptEntry queue).getLsbD 0 = true := by
  simp [acceptEntry]

/-- An entry for an existing queue is one byte. -/
theorem getLsbD_acceptEntry_of_lt {queue : ℤ} {i : ℕ} (hnonneg : 0 ≤ queue) (hlt : queue < 8)
    (hi : 8 ≤ i) : (acceptEntry queue).getLsbD i = false := by
  have hsmall : (acceptEntry queue).toNat < 2 ^ 8 := by
    interval_cases queue <;> decide
  rw [← BitVec.testBit_toNat]
  exact Nat.testBit_lt_two_pow (lt_of_lt_of_le hsmall (Nat.pow_le_pow_right (by decide) hi))

/-- The mask of a register spares the other entries. -/
theorem getLsbD_byteMask {i r : ℕ} (hr : r < 4) (hi : i < 4) :
    (~~~(0xFF#32 <<< (8 * r))).getLsbD (8 * i) = decide (i ≠ r) := by
  interval_cases r <;> interval_cases i <;> decide

/-- Replacing an entry of a register changes its accept bit only. -/
theorem getLsbD_setEntry {reg : BitVec 32} {r i : ℕ} {queue : ℤ} (hr : r < 4) (hi : i < 4)
    (hqueue : -1 ≤ queue) (hlt : queue < 8) :
    (setEntry reg r queue).getLsbD (8 * i) =
      if i = r then decide (queue ≠ -1) else reg.getLsbD (8 * i) := by
  unfold setEntry
  by_cases hdelete : queue = -1
  · rw [if_pos hdelete, BitVec.getLsbD_and, getLsbD_byteMask hr hi]
    by_cases hir : i = r
    · simp [hir, hdelete]
    · simp [hir]
  · rw [if_neg hdelete, BitVec.getLsbD_or, BitVec.getLsbD_and, getLsbD_byteMask hr hi,
      BitVec.getLsbD_shiftLeft]
    have hbound : 8 * i < 32 := by omega
    rcases Nat.lt_trichotomy i r with hir | hir | hir
    · have hbelow : 8 * i < 8 * r := by omega
      simp [hir.ne, hbelow]
    · subst hir
      simp [hdelete, hbound, getLsbD_acceptEntry_zero]
    · have hzero : (acceptEntry queue).getLsbD (8 * i - 8 * r) = false :=
        getLsbD_acceptEntry_of_lt (by omega) hlt (by omega)
      simp [hir.ne', hzero]

/-- Setting one address decides about its own entry only. -/
theorem accepts_setAddr {table : FilterTable} {entry e : ℕ} {queue : ℤ} (hqueue : -1 ≤ queue)
    (hlt : queue < 8) :
    accepts (setAddr table entry queue) e =
      if e = entry then decide (queue ≠ -1) else accepts table e := by
  unfold accepts setAddr
  by_cases hword : e / 4 = entry / 4
  · rw [hword, Function.update_self,
      getLsbD_setEntry (Nat.mod_lt _ (by decide)) (Nat.mod_lt _ (by decide)) hqueue hlt]
    have hiff : e % 4 = entry % 4 ↔ e = entry := by omega
    simp only [hiff]
  · rw [Function.update_of_ne hword]
    have hne : e ≠ entry := fun h => hword (by rw [h])
    rw [if_neg hne]

/-- Setting a whole table decides about each of its entries. -/
theorem accepts_setTable {words : ℕ} {table : FilterTable} {e : ℕ} {queue : ℤ}
    (he : e < 4 * words) : accepts (setTable words table queue) e = decide (queue ≠ -1) := by
  have hword : e / 4 < words := by omega
  have hbyte : e % 4 < 4 := Nat.mod_lt _ (by decide)
  unfold accepts setTable
  rw [if_pos hword]
  by_cases hdelete : queue = -1
  · simp [tableValue, hdelete]
  · simp only [tableValue, if_neg hdelete]
    generalize e % 4 = r at hbyte
    have hbit := getLsbD_acceptEntry_zero queue
    interval_cases r <;> simp [hbit, hdelete]

theorem lastNibble_lt (lastByte : BitVec 8) : lastNibble lastByte < 16 := by
  unfold lastNibble
  rw [BitVec.toNat_and]
  exact lt_of_le_of_lt Nat.and_le_left (by decide)

/-- The port is in the mode that was set last. -/
theorem promiscuous_mode {cfg : PortConfig} {port : EthFilter} (isPromisc : Bool) :
    (port.mvEthRxFilterModeSet cfg isPromisc).promiscuous = isPromisc := by
  cases isPromisc <;>
    simp [EthFilter.mvEthRxFilterModeSet, EthFilter.promiscuous, unicastPromiscuousModeMask]

/-- Setting the address of the port does not change its mode. -/
theorem promiscuous_macAddrSet {cfg : PortConfig} {port : EthFilter} {addr : MacAddr} {queue : ℤ} :
    (port.mvEthMacAddrSet cfg addr queue).2.promiscuous = port.promiscuous := by
  unfold EthFilter.mvEthMacAddrSet
  split_ifs <;> rfl

theorem rxQNum_le (multiQueue : Bool) : rxQNum multiQueue ≤ 8 := by
  cases multiQueue <;> decide

end Mv88fxx81.Eth
