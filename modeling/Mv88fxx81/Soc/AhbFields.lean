import Mv88fxx81.Soc.AhbRegs
import Mv88fxx81.Soc.SizeRegs

/-!
# The fields of the registers of the bridge

Seen through their fields, the words of the registers behave as the windows of the processor do. A
window that is written to the words is read back, and no other bit of the registers changes.
-/

namespace Mv88fxx81.Soc.Ahb

variable {r : AhbRegs} {win : AddrWin} {winNum : ℕ} {enable : Bool} {target : Target}

/-- The fields of the registers of a window. -/
def AhbRegs.window (r : AhbRegs) (winNum : Fin 8) : AhbWindow where
  regs := ⟨(r.base winNum >>> 16).setWidth 16, (r.ctrl winNum >>> 16).setWidth 16⟩
  attrib := (r.ctrl winNum >>> 8).setWidth 8
  targetId := (r.ctrl winNum >>> 4).setWidth 4
  enable := (r.ctrl winNum).getLsbD 0

/-- The fields of the registers, next to the windows of the memory. -/
def AhbRegs.fields (dram : Fin 4 → DramWindow) (r : AhbRegs) : CpuRegs where
  dram := dram
  ahb := r.window
  interRegs := (r.intReg >>> 16).setWidth 16

/-! ### Parts of words -/

theorem and_ctrlDecMask (word : BitVec 32) :
    word &&& ctrlDecMask = ((word >>> 16).setWidth 16).setWidth 32 <<< 16 := by
  apply BitVec.eq_of_getLsbD_eq
  intro i hi
  simp only [BitVec.getLsbD_and, getLsbD_ctrlDecMask i hi, BitVec.getLsbD_shiftLeft,
    BitVec.getLsbD_setWidth, BitVec.getLsbD_ushiftRight, hi, decide_true, Bool.true_and]
  by_cases hlow : i < 16
  · simp [hlow, Nat.not_le.mpr hlow]
  · have h₁ : i - 16 < 16 := by omega
    have h₂ : i - 16 < 32 := by omega
    have h₃ : 16 + (i - 16) = i := by omega
    simp [hlow, Nat.not_lt.mp hlow, h₁, h₂, h₃]

theorem ushiftRight_and_ctrlDecMask (word : BitVec 32) :
    (word &&& ctrlDecMask) >>> 16 = ((word >>> 16).setWidth 16).setWidth 32 := by
  apply BitVec.eq_of_getLsbD_eq
  intro i hi
  simp only [BitVec.getLsbD_ushiftRight, BitVec.getLsbD_and, BitVec.getLsbD_setWidth]
  by_cases hlow : i < 16
  · rw [getLsbD_ctrlDecMask _ (by omega)]
    simp [hlow, hi]
  · rw [BitVec.getLsbD_of_ge word _ (by omega)]
    simp

/-- The upper half of a word that has been replaced. -/
theorem upper_or (word value : BitVec 32) :
    ((word &&& ~~~ctrlDecMask ||| value &&& ctrlDecMask) >>> 16).setWidth 16 =
      (value >>> 16).setWidth 16 := by
  apply BitVec.eq_of_getLsbD_eq
  intro i hi
  have hlt : 16 + i < 32 := by omega
  have hmask := getLsbD_ctrlDecMask (16 + i) hlt
  simp only [BitVec.getLsbD_setWidth, BitVec.getLsbD_ushiftRight, BitVec.getLsbD_or,
    BitVec.getLsbD_and, BitVec.getLsbD_not, hmask, hi, hlt, Nat.le_add_right, decide_true,
    Bool.true_and, Bool.not_true, Bool.and_false, Bool.false_or, Bool.and_true]

/-- The upper half of a word that has been replaced by a shifted value. -/
theorem upper_or_shiftLeft (word value : BitVec 32) :
    ((word &&& ~~~ctrlDecMask ||| value <<< 16) >>> 16).setWidth 16 = value.setWidth 16 := by
  apply BitVec.eq_of_getLsbD_eq
  intro i hi
  have hlt : 16 + i < 32 := by omega
  have hge : ¬ 16 + i < 16 := by omega
  have hmask := getLsbD_ctrlDecMask (16 + i) hlt
  simp only [BitVec.getLsbD_setWidth, BitVec.getLsbD_ushiftRight, BitVec.getLsbD_or,
    BitVec.getLsbD_and, BitVec.getLsbD_not, BitVec.getLsbD_shiftLeft, hmask, hi, hlt, hge,
    Nat.le_add_right, Nat.add_sub_cancel_left, decide_true, decide_false, Bool.true_and,
    Bool.not_true, Bool.not_false, Bool.and_false, Bool.false_or]

/-! ### Reading and writing -/

/-- A window that is read from words is the one that is read from their fields. -/
theorem mvCtrlRegToAddrDec_fields (baseReg sizeReg : BitVec 32) :
    mvCtrlRegToAddrDec ⟨baseReg, sizeReg⟩ =
      Soc.mvCtrlRegToAddrDec ⟨(baseReg >>> 16).setWidth 16, (sizeReg >>> 16).setWidth 16⟩ := by
  unfold mvCtrlRegToAddrDec Soc.mvCtrlRegToAddrDec
  dsimp only
  rw [and_ctrlDecMask, ushiftRight_and_ctrlDecMask]

/-- A window that is written to words is written to their fields. -/
theorem mvCtrlAddrDecToReg_fields (win : AddrWin) (regs : DecWords) :
    (mvCtrlAddrDecToReg win regs).map (fun decRegs : DecWords =>
        (⟨(decRegs.baseReg >>> 16).setWidth 16, (decRegs.sizeReg >>> 16).setWidth 16⟩ : DecRegs)) =
      Soc.mvCtrlAddrDecToReg win := by
  unfold mvCtrlAddrDecToReg Soc.mvCtrlAddrDecToReg
  dsimp only
  by_cases hsize : ctrlSizeToReg win.size sizeAlignment = noSize
  · rw [if_pos hsize, if_pos hsize]
    rfl
  · rw [if_neg hsize, if_neg hsize, Option.map_some, upper_or, upper_or_shiftLeft]

/-- What `mvAhbToMbusWinGet` reads of the words is what it reads of the fields. -/
theorem mvAhbToMbusWinGet_fields (r : AhbRegs) (dram : Fin 4 → DramWindow) (winNum : ℕ) :
    (mvAhbToMbusWinGet r winNum).toOption = Soc.mvAhbToMbusWinGet (r.fields dram) winNum := by
  unfold mvAhbToMbusWinGet Soc.mvAhbToMbusWinGet
  by_cases hlt : winNum < 8
  · rw [dif_pos hlt, dif_pos hlt]
    dsimp only
    rw [mvCtrlRegToAddrDec_fields]
    have hattrib : ((r.ctrl ⟨winNum, hlt⟩ &&& winAttrMask) >>> 8).setWidth 8 =
        (r.ctrl ⟨winNum, hlt⟩ >>> 8).setWidth 8 := by
      apply BitVec.eq_of_getLsbD_eq
      intro i hi
      have hlt' : 8 + i < 16 := by omega
      have hmask := getLsbD_winAttrMask (8 + i) (by omega)
      simp only [BitVec.getLsbD_setWidth, BitVec.getLsbD_ushiftRight, BitVec.getLsbD_and, hmask,
        hlt', Nat.le_add_right, decide_true, Bool.and_true]
    have hid : ((r.ctrl ⟨winNum, hlt⟩ &&& winTargetMask) >>> 4).setWidth 8 =
        ((r.ctrl ⟨winNum, hlt⟩ >>> 4).setWidth 4).setWidth 8 := by
      apply BitVec.eq_of_getLsbD_eq
      intro i hi
      have hmask := getLsbD_winTargetMask (4 + i) (by omega)
      have hiff : (4 + i < 8) = (i < 4) := propext (by omega)
      simp only [BitVec.getLsbD_setWidth, BitVec.getLsbD_ushiftRight, BitVec.getLsbD_and, hmask,
        hiff, hi, Nat.le_add_right, decide_true, Bool.true_and]
      exact Bool.and_comm _ _
    have henable : decide (r.ctrl ⟨winNum, hlt⟩ &&& winEnable ≠ 0) =
        (r.ctrl ⟨winNum, hlt⟩).getLsbD 0 := by
      have hand : r.ctrl ⟨winNum, hlt⟩ &&& winEnable =
          BitVec.setWidth 32 (BitVec.ofBool ((r.ctrl ⟨winNum, hlt⟩).getLsbD 0)) := by
        apply BitVec.eq_of_getLsbD_eq
        intro i hi
        rw [BitVec.getLsbD_and, getLsbD_winEnable i hi]
        by_cases hzero : i = 0
        · simp [hzero]
        · simp [hzero]
      rw [hand]
      cases (r.ctrl ⟨winNum, hlt⟩).getLsbD 0 <;> rfl
    rw [hattrib, hid, henable]
    unfold AhbRegs.fields AhbRegs.window
    dsimp only
    by_cases hsize : (Soc.mvCtrlRegToAddrDec ⟨(r.base ⟨winNum, hlt⟩ >>> 16).setWidth 16,
        (r.ctrl ⟨winNum, hlt⟩ >>> 16).setWidth 16⟩).size = noSize
    · rw [if_pos hsize, if_pos hsize]
      rfl
    · rw [if_neg hsize, if_neg hsize]
      rfl
  · rw [dif_neg hlt, dif_neg hlt]
    by_cases hint : winNum = intRegWin
    · rw [if_pos hint, if_pos hint, and_ctrlDecMask]
      rfl
    · rw [if_neg hint, if_neg hint]
      rfl

/-! ### The fields of a window that is written -/

/-- The upper half of a control register is not touched by the attributes and the enable bit. -/
theorem upper_targetWord (targetAttribs : TargetAttrib) (enable : Bool) (ctrl : BitVec 32) :
    (targetWord targetAttribs (enableWord enable ctrl) >>> 16).setWidth 16 =
      (ctrl >>> 16).setWidth 16 := by
  apply BitVec.eq_of_getLsbD_eq
  intro i hi
  rw [BitVec.getLsbD_setWidth, BitVec.getLsbD_setWidth, BitVec.getLsbD_ushiftRight,
    BitVec.getLsbD_ushiftRight, getLsbD_targetWord _ _ (by omega),
    if_pos (Or.inr (Nat.le_add_right 16 i)), getLsbD_enableWord _ _ (by omega),
    if_neg (by omega)]

/-- A target that is wider than its field reaches into the attributes. -/
theorem attrib_targetWord (targetAttribs : TargetAttrib) (ctrl : BitVec 32) :
    (targetWord targetAttribs ctrl >>> 8).setWidth 8 =
      targetAttribs.attrib ||| targetAttribs.targetId >>> 4 := by
  apply BitVec.eq_of_getLsbD_eq
  intro i hi
  have hle : 8 + i - 4 = 4 + i := by omega
  rw [BitVec.getLsbD_setWidth, BitVec.getLsbD_ushiftRight, getLsbD_targetWord _ _ (by omega),
    if_neg (by omega), if_neg (by omega), BitVec.getLsbD_or, BitVec.getLsbD_ushiftRight,
    Nat.add_sub_cancel_left, hle, decide_eq_true hi, Bool.true_and]

theorem targetId_targetWord (targetAttribs : TargetAttrib) (ctrl : BitVec 32) :
    (targetWord targetAttribs ctrl >>> 4).setWidth 4 = targetAttribs.targetId.setWidth 4 := by
  apply BitVec.eq_of_getLsbD_eq
  intro i hi
  rw [BitVec.getLsbD_setWidth, BitVec.getLsbD_setWidth, BitVec.getLsbD_ushiftRight,
    getLsbD_targetWord _ _ (by omega), if_neg (by omega), if_pos (by omega),
    Nat.add_sub_cancel_left]

theorem enable_targetWord (targetAttribs : TargetAttrib) (enable : Bool) (ctrl : BitVec 32) :
    (targetWord targetAttribs (enableWord enable ctrl)).getLsbD 0 = enable := by
  rw [getLsbD_targetWord _ _ (by decide), if_pos (Or.inl (by decide)),
    getLsbD_enableWord _ _ (by decide), if_pos rfl]

end Mv88fxx81.Soc.Ahb
