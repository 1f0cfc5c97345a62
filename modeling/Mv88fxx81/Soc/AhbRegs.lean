import Mv88fxx81.Soc.WinSet

/-!
# The registers of the bridge

The words of the registers of the windows, with the masks and shifts by which a window is written
to them and read back. Each register is read, changed and written, and the bits that belong to no
field are kept.
-/

namespace Mv88fxx81.Soc.Ahb

/-! ### Words of a window -/

/-- `CTRL_DEC_BASE_MASK` and `CTRL_DEC_SIZE_MASK`. -/
def ctrlDecMask : BitVec 32 := 0xffff0000

/-- `ATMWCR_WIN_ENABLE`. -/
def winEnable : BitVec 32 := 1

/-- `ATMWCR_WIN_ATTR_MASK`. -/
def winAttrMask : BitVec 32 := 0xff00

/-- `ATMWCR_WIN_TARGET_MASK`. -/
def winTargetMask : BitVec 32 := 0xf0

/-- `MV_DEC_REGS`. -/
structure DecWords where
  baseReg : BitVec 32
  sizeReg : BitVec 32
  deriving DecidableEq, Repr

/-- `mvCtrlAddrDecToReg`. -/
def mvCtrlAddrDecToReg (win : AddrWin) (regs : DecWords) : Option DecWords :=
  let baseToReg := win.baseLow &&& ctrlDecMask
  let sizeToReg := ctrlSizeToReg win.size sizeAlignment
  if sizeToReg = noSize then none
  else some ⟨regs.baseReg &&& ~~~ctrlDecMask ||| baseToReg,
    regs.sizeReg &&& ~~~ctrlDecMask ||| sizeToReg <<< 16⟩

/-- `mvCtrlRegToAddrDec`. -/
def mvCtrlRegToAddrDec (regs : DecWords) : AddrWin :=
  ⟨regs.baseReg &&& ctrlDecMask, ctrlRegToSize ((regs.sizeReg &&& ctrlDecMask) >>> 16)
    sizeAlignment⟩

/-! ### Registers -/

/-- The registers of the bridge. The window of the internal registers has a base only. -/
structure AhbRegs where
  ctrl : Fin 8 → BitVec 32
  base : Fin 8 → BitVec 32
  remapLow : Fin 8 → BitVec 32
  remapHigh : Fin 8 → BitVec 32
  intReg : BitVec 32

/-- A control register with the bit that opens its window set or reset. -/
def enableWord (enable : Bool) (ctrl : BitVec 32) : BitVec 32 :=
  if enable then ctrl ||| winEnable else ctrl &&& ~~~winEnable

/-- A control register with the attributes and the number of a target. -/
def targetWord (targetAttribs : TargetAttrib) (ctrl : BitVec 32) : BitVec 32 :=
  let ctrl := ctrl &&& ~~~winAttrMask ||| targetAttribs.attrib.setWidth 32 <<< 8
  ctrl &&& ~~~winTargetMask ||| targetAttribs.targetId.setWidth 32 <<< 4

/-- `mvAhbToMbusWinEnable`. -/
def mvAhbToMbusWinEnable (r : AhbRegs) (winNum : ℕ) (enable : Bool) : MvStatus × AhbRegs :=
  if h : winNum < 8 then
    (.ok, { r with
      ctrl := Function.update r.ctrl ⟨winNum, h⟩ (enableWord enable (r.ctrl ⟨winNum, h⟩)) })
  else if winNum = intRegWin then (if enable then .ok else .error, r)
  else (.notSupported, r)

/-- `mvAhbToMbusWinSet`. The window of the internal registers has no size register. -/
def mvAhbToMbusWinSet (r : AhbRegs) (winNum : ℕ) (win : AddrWin) (enable : Bool) (target : Target) :
    MvStatus × AhbRegs :=
  if intRegWin < winNum then (.notSupported, r)
  else if isNotAlign win.baseLow win.size then (.error, r)
  else if h : winNum < 8 then
    match mvCtrlAddrDecToReg win ⟨r.base ⟨winNum, h⟩, r.ctrl ⟨winNum, h⟩⟩ with
    | none => (.error, r)
    | some decRegs =>
      let sizeReg := targetWord (mvCtrlAttribGet target) (enableWord enable decRegs.sizeReg)
      -- the window is closed before the new values are written
      let r := (mvAhbToMbusWinEnable r winNum false).2
      (.ok, { r with
        base := Function.update r.base ⟨winNum, h⟩ decRegs.baseReg
        ctrl := Function.update r.ctrl ⟨winNum, h⟩ sizeReg })
  else
    match mvCtrlAddrDecToReg win ⟨r.intReg, 0⟩ with
    | none => (.error, r)
    | some decRegs => (.ok, { r with intReg := decRegs.baseReg })

/-- `mvAhbToMbusWinGet`. -/
def mvAhbToMbusWinGet (r : AhbRegs) (winNum : ℕ) : Except MvStatus DecWin :=
  if h : winNum < 8 then
    let sizeReg := r.ctrl ⟨winNum, h⟩
    let win := mvCtrlRegToAddrDec ⟨r.base ⟨winNum, h⟩, sizeReg⟩
    let enable : Bool := sizeReg &&& winEnable ≠ 0
    if win.size = noSize then .error .error
    else
      let attrib := ((sizeReg &&& winAttrMask) >>> 8).setWidth 8
      let targetId := ((sizeReg &&& winTargetMask) >>> 4).setWidth 8
      .ok ⟨win, mvCtrlTargetGet ⟨attrib, targetId⟩, enable⟩
  else if winNum = intRegWin then
    .ok ⟨⟨r.intReg &&& ctrlDecMask, interRegsSize⟩, some .interRegs, true⟩
  else .error .notSupported

/-! ### Bits of the words -/

/-- The bits of the mask for base and size. -/
theorem getLsbD_ctrlDecMask : ∀ i < 32, ctrlDecMask.getLsbD i = decide (16 ≤ i) := by decide

/-- The bit that enables a window. -/
theorem getLsbD_winEnable : ∀ i < 32, winEnable.getLsbD i = decide (i = 0) := by decide

/-- The bits of the mask for the attributes. -/
theorem getLsbD_winAttrMask :
    ∀ i < 32, winAttrMask.getLsbD i = (decide (8 ≤ i) && decide (i < 16)) := by decide

/-- The bits of the mask for the target. -/
theorem getLsbD_winTargetMask :
    ∀ i < 32, winTargetMask.getLsbD i = (decide (4 ≤ i) && decide (i < 8)) := by decide

/-- The bits of a control word whose enable bit is set. -/
theorem getLsbD_enableWord (enable : Bool) (ctrl : BitVec 32) {i : ℕ} (hi : i < 32) :
    (enableWord enable ctrl).getLsbD i = if i = 0 then enable else ctrl.getLsbD i := by
  unfold enableWord
  cases enable with
  | false =>
    rw [if_neg Bool.false_ne_true, BitVec.getLsbD_and, BitVec.getLsbD_not, getLsbD_winEnable i hi]
    by_cases hzero : i = 0
    · simp [hzero]
    · simp [hzero, hi]
  | true =>
    rw [if_pos rfl, BitVec.getLsbD_or, getLsbD_winEnable i hi]
    by_cases hzero : i = 0
    · simp [hzero]
    · simp [hzero]

/-- The number of a target that is wider than its field reaches into the attributes. -/
theorem getLsbD_targetWord (targetAttribs : TargetAttrib) (ctrl : BitVec 32) {i : ℕ} (hi : i < 32) :
    (targetWord targetAttribs ctrl).getLsbD i =
      if i < 4 ∨ 16 ≤ i then ctrl.getLsbD i
      else if i < 8 then targetAttribs.targetId.getLsbD (i - 4)
      else (targetAttribs.attrib.getLsbD (i - 8) || targetAttribs.targetId.getLsbD (i - 4)) := by
  unfold targetWord
  simp only [BitVec.getLsbD_or, BitVec.getLsbD_and, BitVec.getLsbD_not, BitVec.getLsbD_shiftLeft,
    BitVec.getLsbD_setWidth, getLsbD_winAttrMask i hi, getLsbD_winTargetMask i hi, hi, decide_true,
    Bool.true_and]
  have hid : 8 ≤ i - 4 → targetAttribs.targetId.getLsbD (i - 4) = false :=
    fun hle => BitVec.getLsbD_of_ge _ _ hle
  have hattr : 8 ≤ i - 8 → targetAttribs.attrib.getLsbD (i - 8) = false :=
    fun hle => BitVec.getLsbD_of_ge _ _ hle
  have hlt : i - 4 < 32 := by omega
  have hlt' : i - 8 < 32 := by omega
  by_cases hlow : i < 4
  · have h₁ : i < 8 := by omega
    simp [hlow, h₁, Nat.not_le.mpr hlow, Nat.not_le.mpr h₁]
  · by_cases hmid : i < 8
    · have h₁ : ¬ 16 ≤ i := by omega
      simp [hlow, hmid, h₁, hlt, Nat.not_lt.mp hlow, Nat.not_le.mpr hmid]
    · by_cases hattrs : i < 16
      · simp [hlow, hmid, hattrs, hlt, hlt', Nat.not_lt.mp hmid, Nat.not_le.mpr hattrs]
      · have h₁ : 16 ≤ i := Nat.not_lt.mp hattrs
        simp [hlow, hmid, hattrs, h₁, hlt, hlt', hid (by omega), hattr (by omega)]

end Mv88fxx81.Soc.Ahb
