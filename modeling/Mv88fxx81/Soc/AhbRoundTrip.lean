import Mv88fxx81.Soc.AhbFields

/-!
# Windows of the bridge that are written and read back

A window is written exactly when its size is 64 KB times a power of two and its base a multiple of
the size. It is then read back, and no other register is changed. A window that is refused changes
no register at all.
-/

namespace Mv88fxx81.Soc.Ahb

variable {r : AhbRegs} {win : AddrWin} {winNum : ℕ} {enable : Bool} {target : Target}

/-- The registers agree but for the base and the control register of a window. -/
structure SameButWindow (r r' : AhbRegs) (winNum : Fin 8) : Prop where
  ctrl : ∀ w, w ≠ winNum → r'.ctrl w = r.ctrl w
  base : ∀ w, w ≠ winNum → r'.base w = r.base w
  remapLow : r'.remapLow = r.remapLow
  remapHigh : r'.remapHigh = r.remapHigh
  intReg : r'.intReg = r.intReg

/-- A window of the bridge that is not legal is refused. -/
theorem mvAhbToMbusWinSet_refused (hlt : winNum < 8) (hform : ¬ win.WellFormed) :
    mvAhbToMbusWinSet r winNum win enable target = (.error, r) := by
  have hnum : ¬ intRegWin < winNum := Nat.not_lt.mpr (Nat.le_of_lt hlt)
  unfold mvAhbToMbusWinSet
  rw [if_neg hnum]
  by_cases halign : isNotAlign win.baseLow win.size = true
  · rw [if_pos halign]
  · rw [if_neg halign, dif_pos hlt]
    cases hregs : mvCtrlAddrDecToReg win ⟨r.base ⟨winNum, hlt⟩, r.ctrl ⟨winNum, hlt⟩⟩ with
    | none => rfl
    | some decRegs =>
      have hfields := mvCtrlAddrDecToReg_fields win ⟨r.base ⟨winNum, hlt⟩, r.ctrl ⟨winNum, hlt⟩⟩
      rw [hregs] at hfields
      exact absurd (wellFormed_iff.mpr ⟨Bool.eq_false_iff.mpr halign, _, hfields.symm⟩) hform

/-- A legal window of the bridge is written to its own registers. -/
theorem mvAhbToMbusWinSet_served (r : AhbRegs) (enable : Bool) (target : Target) (hlt : winNum < 8)
    (hform : win.WellFormed) :
    ∃ decRegs : DecWords, mvCtrlAddrDecToReg win ⟨r.base ⟨winNum, hlt⟩, r.ctrl ⟨winNum, hlt⟩⟩ =
        some decRegs ∧
      mvAhbToMbusWinSet r winNum win enable target = (.ok, { r with
        base := Function.update r.base ⟨winNum, hlt⟩ decRegs.baseReg
        ctrl := Function.update r.ctrl ⟨winNum, hlt⟩
          (targetWord (mvCtrlAttribGet target) (enableWord enable decRegs.sizeReg)) }) := by
  obtain ⟨halign, regs, hregs⟩ := wellFormed_iff.mp hform
  have hfields := mvCtrlAddrDecToReg_fields win ⟨r.base ⟨winNum, hlt⟩, r.ctrl ⟨winNum, hlt⟩⟩
  rw [hregs] at hfields
  obtain ⟨decRegs, hdec, -⟩ := Option.map_eq_some_iff.mp hfields
  refine ⟨decRegs, hdec, ?_⟩
  have hnum : ¬ intRegWin < winNum := Nat.not_lt.mpr (Nat.le_of_lt hlt)
  unfold mvAhbToMbusWinSet
  rw [if_neg hnum, halign, if_neg Bool.false_ne_true, dif_pos hlt, hdec]
  unfold mvAhbToMbusWinEnable
  rw [dif_pos hlt]
  dsimp only
  rw [Function.update_idem]

/-- What `mvAhbToMbusWinSet` does to the words it does to the fields. -/
theorem mvAhbToMbusWinSet_fields (r : AhbRegs) (dram : Fin 4 → DramWindow) (hlt : winNum < 8) :
    Soc.mvAhbToMbusWinSet (r.fields dram) winNum win enable target =
      ((mvAhbToMbusWinSet r winNum win enable target).1,
        (mvAhbToMbusWinSet r winNum win enable target).2.fields dram) := by
  by_cases hform : win.WellFormed
  · obtain ⟨decRegs, hdec, hset⟩ := mvAhbToMbusWinSet_served r enable target hlt hform
    have hfields := mvCtrlAddrDecToReg_fields win ⟨r.base ⟨winNum, hlt⟩, r.ctrl ⟨winNum, hlt⟩⟩
    obtain ⟨halign, -⟩ := wellFormed_iff.mp hform
    have hnum : ¬ 8 < winNum := Nat.not_lt.mpr (Nat.le_of_lt hlt)
    rw [hset]
    rw [hdec, Option.map_some] at hfields
    unfold Soc.mvAhbToMbusWinSet
    rw [if_neg hnum, halign, if_neg Bool.false_ne_true, ← hfields]
    dsimp only
    rw [dif_pos hlt]
    unfold AhbRegs.fields
    dsimp only
    congr 2
    funext w
    by_cases hw : w = ⟨winNum, hlt⟩
    · subst hw
      unfold AhbRegs.window
      simp only [Function.update_self, upper_targetWord, attrib_targetWord, targetId_targetWord,
        enable_targetWord]
    · unfold AhbRegs.window
      simp only [Function.update_of_ne hw]
  · rw [mvAhbToMbusWinSet_refused hlt hform,
      Soc.mvAhbToMbusWinSet_refused fun hlegal => hform hlegal.2]

/-- A window is written exactly when it is legal. -/
theorem mvAhbToMbusWinSet_ok_iff (hlt : winNum < 8) :
    (mvAhbToMbusWinSet r winNum win enable target).1 = .ok ↔ win.WellFormed := by
  by_cases hform : win.WellFormed
  · obtain ⟨decRegs, -, hset⟩ := mvAhbToMbusWinSet_served r enable target hlt hform
    rw [hset]
    exact iff_of_true rfl hform
  · rw [mvAhbToMbusWinSet_refused hlt hform]
    exact iff_of_false nofun hform

/-- A window that has been written is read back. -/
theorem mvAhbToMbusWinGet_set (hint : target ≠ .interRegs) (hlt : winNum < 8)
    (hform : win.WellFormed) :
    mvAhbToMbusWinGet (mvAhbToMbusWinSet r winNum win enable target).2 winNum =
      .ok ⟨win, some target, enable⟩ := by
  -- the windows of the memory play no part
  have hget := mvAhbToMbusWinGet_fields (mvAhbToMbusWinSet r winNum win enable target).2
    (fun _ => ⟨⟨0, 0⟩, false⟩) winNum
  have hset := @mvAhbToMbusWinSet_fields win winNum enable target r (fun _ => ⟨⟨0, 0⟩, false⟩) hlt
  obtain ⟨regs, hback, hsize, hserved⟩ := Soc.mvAhbToMbusWinSet_served
    (r.fields fun _ => ⟨⟨0, 0⟩, false⟩) enable target (Nat.le_of_lt hlt) hform
  rw [hserved, dif_pos hlt] at hset
  rw [← (Prod.mk.inj hset).2, mvAhbToMbusWinGet_written hint hback hsize hlt] at hget
  cases hresult : mvAhbToMbusWinGet (mvAhbToMbusWinSet r winNum win enable target).2 winNum with
  | error status =>
    rw [hresult] at hget
    cases hget
  | ok decWin =>
    rw [hresult] at hget
    rw [Option.some.inj hget]

/-- No register of another window is changed, and no remap register. -/
theorem mvAhbToMbusWinSet_frame (r : AhbRegs) (winNum : Fin 8) (win : AddrWin) (enable : Bool)
    (target : Target) :
    SameButWindow r (mvAhbToMbusWinSet r winNum win enable target).2 winNum := by
  by_cases hform : win.WellFormed
  · obtain ⟨decRegs, -, hset⟩ := mvAhbToMbusWinSet_served r enable target winNum.isLt hform
    rw [hset]
    exact ⟨fun w hw => Function.update_of_ne hw _ _, fun w hw => Function.update_of_ne hw _ _, rfl,
      rfl, rfl⟩
  · rw [mvAhbToMbusWinSet_refused winNum.isLt hform]
    exact ⟨fun _ _ => rfl, fun _ _ => rfl, rfl, rfl, rfl⟩

/-- The conversions of sizes for an alignment: what can be written, and that they are inverse to
each other. -/
structure SizesRoundTrip (alignment : BitVec 32) : Prop where
  valid : ∀ size, ctrlSizeToReg size alignment ≠ noSize ↔
    ∃ k, size.toNat = alignment.toNat * 2 ^ k
  size : ∀ size, ctrlSizeToReg size alignment ≠ noSize →
    ctrlRegToSize (ctrlSizeToReg size alignment) alignment = size
  reg : ∀ regSize, dropOnes 32 regSize = 0 →
    alignment.toNat * (regSize.toNat + 1) < 2 ^ 32 →
      ctrlSizeToReg (ctrlRegToSize regSize alignment) alignment = regSize

theorem sizesRoundTrip {alignment : BitVec 32} {p : ℕ} (halign : alignment.toNat = 2 ^ p) :
    SizesRoundTrip alignment where
  valid := fun size => by
    rw [halign]
    exact ctrlSizeToReg_ne_noSize_iff halign
  size := fun _ => ctrlRegToSize_ctrlSizeToReg halign
  reg := fun regSize hones hfits => by
    obtain ⟨k, hk⟩ := dropOnes_eq_zero_iff.mp hones
    rw [halign, hk] at hfits
    exact ctrlSizeToReg_ctrlRegToSize halign hk hfits

/-- Windows of the bridge go to the registers and back. -/
theorem mvAhbToMbusWin_roundTrip (r : AhbRegs) (winNum : Fin 8) (win : AddrWin) (enable : Bool)
    (hint : target ≠ .interRegs) :
    ((mvAhbToMbusWinSet r winNum win enable target).1 = .ok ↔
      (∃ k, win.size.toNat = 65536 * 2 ^ k) ∧ win.size.toNat ∣ win.baseLow.toNat) ∧
    ((mvAhbToMbusWinSet r winNum win enable target).1 = .ok →
      mvAhbToMbusWinGet (mvAhbToMbusWinSet r winNum win enable target).2 winNum =
          .ok ⟨win, some target, enable⟩ ∧
        SameButWindow r (mvAhbToMbusWinSet r winNum win enable target).2 winNum) ∧
    ((mvAhbToMbusWinSet r winNum win enable target).1 ≠ .ok →
      (mvAhbToMbusWinSet r winNum win enable target).2 = r) ∧
    ∀ alignment : BitVec 32, (∃ p, alignment.toNat = 2 ^ p) → SizesRoundTrip alignment := by
  have hok := @mvAhbToMbusWinSet_ok_iff r win winNum enable target winNum.isLt
  refine ⟨hok, fun h => ?_, fun h => ?_, fun alignment halign => ?_⟩
  · exact ⟨mvAhbToMbusWinGet_set hint winNum.isLt (hok.mp h), mvAhbToMbusWinSet_frame r winNum win
      enable target⟩
  · rw [mvAhbToMbusWinSet_refused winNum.isLt fun hform => h (hok.mpr hform)]
  · obtain ⟨p, hp⟩ := halign
    exact sizesRoundTrip hp

/-- Registers that hold ones where no window has been written. -/
def onesAhb : AhbRegs :=
  ⟨fun _ => 0xffffffff, fun _ => 0xffffffff, fun _ => 0, fun _ => 0, 0xf1000000⟩

/-- A window of 128 MB for the memory of the bus. -/
theorem mvAhbToMbusWin_roundTrip_pexMem :
    (mvAhbToMbusWinSet onesAhb 3 ⟨0xe0000000, 0x08000000⟩ true .pex0Mem).1 = .ok ∧
      mvAhbToMbusWinGet (mvAhbToMbusWinSet onesAhb 3 ⟨0xe0000000, 0x08000000⟩ true .pex0Mem).2 3 =
        .ok ⟨⟨0xe0000000, 0x08000000⟩, some .pex0Mem, true⟩ := by
  have htrip := @mvAhbToMbusWin_roundTrip .pex0Mem onesAhb 3 ⟨0xe0000000, 0x08000000⟩ true
    (by decide)
  have hok := htrip.1.mpr ⟨⟨11, by decide⟩, by decide⟩
  exact ⟨hok, (htrip.2.1 hok).1⟩

end Mv88fxx81.Soc.Ahb
