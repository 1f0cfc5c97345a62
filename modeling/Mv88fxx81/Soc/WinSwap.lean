import Mv88fxx81.Soc.AhbRoundTrip

/-!
# Two targets exchange their windows

`mvAhbToMbusWinTargetSwap` closes the windows of two targets, writes each window to the registers
of the other one, and moves the remap registers along. Some windows have no remap registers.
-/

namespace Mv88fxx81.Soc.Ahb

variable {r r' : AhbRegs} {target target1 target2 : Target} {winNum winNum1 winNum2 : ℕ}
  {decWin winDec1 winDec2 : DecWin} {orion2 : Bool}

/-! ### The function -/

/-- The loop of `mvAhbToMbusWinTargetGet`. A window that cannot be read ends it. -/
def findWin (r : AhbRegs) (target : Target) : List ℕ → Option ℕ
  | [] => none
  | winNum :: winNums =>
    match mvAhbToMbusWinGet r winNum with
    | .error _ => none
    | .ok decWin =>
      if decWin.enable ∧ decWin.target = some target then some winNum
      else findWin r target winNums

/-- `mvAhbToMbusWinTargetGet`. -/
def mvAhbToMbusWinTargetGet (r : AhbRegs) (target : Target) : Option ℕ :=
  if target = .interRegs then some intRegWin else findWin r target (List.range 8)

/-- `ahbToMbusRemapRegOffsGet` has an offset for a window. Two windows more have one on Orion 2. -/
def hasRemap (orion2 : Bool) (winNum : ℕ) : Bool := winNum < 2 || (orion2 && winNum < 4)

/-- The two remap registers of a window. -/
def readRemap (r : AhbRegs) (winNum : ℕ) : BitVec 32 × BitVec 32 :=
  if h : winNum < 8 then (r.remapLow ⟨winNum, h⟩, r.remapHigh ⟨winNum, h⟩) else (0, 0)

/-- Writes the two remap registers of a window. -/
def writeRemap (r : AhbRegs) (winNum : ℕ) (remapBase : BitVec 32 × BitVec 32) : AhbRegs :=
  if h : winNum < 8 then
    { r with
      remapLow := Function.update r.remapLow ⟨winNum, h⟩ remapBase.1
      remapHigh := Function.update r.remapHigh ⟨winNum, h⟩ remapBase.2 }
  else r

/-- The end of `mvAhbToMbusWinTargetSwap`. The upper half of a base that has been read is zero. -/
def swapRemap (orion2 : Bool) (r : AhbRegs) (winNum1 winNum2 : ℕ) (winDec1 winDec2 : DecWin) :
    AhbRegs :=
  let remapBase1 := readRemap r winNum1
  let remapBase2 := readRemap r winNum2
  if hasRemap orion2 winNum1 then
    if hasRemap orion2 winNum2 then
      writeRemap (writeRemap r winNum2 remapBase1) winNum1 remapBase2
    else writeRemap r winNum1 (winDec1.addrWin.baseLow, 0)
  else if hasRemap orion2 winNum2 then writeRemap r winNum2 (winDec2.addrWin.baseLow, 0)
  else r

/-- The part of `mvAhbToMbusWinTargetSwap` behind the exchange of the two structures. What the
writes of the windows return is not looked at. -/
def setSwapped (orion2 : Bool) (r : AhbRegs) (winNum1 winNum2 : ℕ) (winDec1 winDec2 : DecWin)
    (target1 target2 : Target) : AhbRegs :=
  let r := (mvAhbToMbusWinSet r winNum1 winDec1.addrWin winDec1.enable target1).2
  let r := (mvAhbToMbusWinSet r winNum2 winDec2.addrWin winDec2.enable target2).2
  swapRemap orion2 r winNum1 winNum2 winDec1 winDec2

/-- `mvAhbToMbusWinTargetSwap`. There is no target for a number from `MAX_TARGETS` on. The window
that is found for a target is the one of this target. -/
def mvAhbToMbusWinTargetSwap (orion2 : Bool) (r : AhbRegs) (target1 target2 : Option Target) :
    MvStatus × AhbRegs :=
  match target1, target2 with
  | some target1, some target2 =>
    match mvAhbToMbusWinTargetGet r target1 with
    | none => (.error, r)
    | some winNum1 =>
      match mvAhbToMbusWinTargetGet r target2 with
      | none => (.error, r)
      | some winNum2 =>
        match mvAhbToMbusWinGet r winNum1 with
        | .error _ => (.error, r)
        | .ok winDec1 =>
          match mvAhbToMbusWinGet r winNum2 with
          | .error _ => (.error, r)
          | .ok winDec2 =>
            match mvAhbToMbusWinEnable r winNum1 false with
            | (.ok, r) =>
              match mvAhbToMbusWinEnable r winNum2 false with
              | (.ok, r) =>
                (.ok, setSwapped orion2 r winNum1 winNum2 winDec2 winDec1
                  (winDec2.target.getD target2) (winDec1.target.getD target1))
              | (_, r) => (.error, r)
            | (_, r) => (.error, r)
  | _, _ => (.error, r)

/-! ### What it has to do -/

/-- The two targets have exchanged their windows, and what is remapped has followed them. -/
structure Swapped (orion2 : Bool) (r r' : AhbRegs) (target1 target2 : Target)
    (winNum1 winNum2 : ℕ) : Prop where
  found1 : mvAhbToMbusWinTargetGet r' target1 = some winNum2
  found2 : mvAhbToMbusWinTargetGet r' target2 = some winNum1
  window1 : mvAhbToMbusWinGet r' winNum1 = mvAhbToMbusWinGet r winNum2
  window2 : mvAhbToMbusWinGet r' winNum2 = mvAhbToMbusWinGet r winNum1
  others : ∀ w : Fin 8, w.val ≠ winNum1 → w.val ≠ winNum2 →
    r'.ctrl w = r.ctrl w ∧ r'.base w = r.base w ∧ readRemap r' w = readRemap r w
  intReg : r'.intReg = r.intReg
  /-- Two windows with remap registers exchange them. -/
  remaps : hasRemap orion2 winNum1 = true → hasRemap orion2 winNum2 = true →
    readRemap r' winNum1 = readRemap r winNum2 ∧ readRemap r' winNum2 = readRemap r winNum1
  /-- A window that alone has remap registers is not remapped. -/
  remap1 : hasRemap orion2 winNum1 = true → hasRemap orion2 winNum2 = false →
    ∀ decWin, mvAhbToMbusWinGet r' winNum1 = .ok decWin →
      readRemap r' winNum1 = (decWin.addrWin.baseLow, 0)
  remap2 : hasRemap orion2 winNum1 = false → hasRemap orion2 winNum2 = true →
    ∀ decWin, mvAhbToMbusWinGet r' winNum2 = .ok decWin →
      readRemap r' winNum2 = (decWin.addrWin.baseLow, 0)

/-- The windows of the two targets are exchanged, or an error is returned and no register has
changed. -/
def SwapRight (orion2 : Bool) (r : AhbRegs) (target1 target2 : Target) : Prop :=
  let result := mvAhbToMbusWinTargetSwap orion2 r (some target1) (some target2)
  (result.1 = .ok → ∃ winNum1 winNum2, mvAhbToMbusWinTargetGet r target1 = some winNum1 ∧
    mvAhbToMbusWinTargetGet r target2 = some winNum2 ∧
      Swapped orion2 r result.2 target1 target2 winNum1 winNum2) ∧
  (result.1 ≠ .ok → result.2 = r)

/-- A window between two others is open for a target. -/
def OpenBetween (r : AhbRegs) (target : Target) (first last : ℕ) : Prop :=
  ∃ winNum decWin, first < winNum ∧ winNum < last ∧ mvAhbToMbusWinGet r winNum = .ok decWin ∧
    decWin.enable = true ∧ decWin.target = some target

/-- A window can be written as it has been read. -/
def Rewritable (r : AhbRegs) (winNum : ℕ) : Prop :=
  ∀ decWin, mvAhbToMbusWinGet r winNum = .ok decWin → decWin.addrWin.WellFormed

/-- The second target is not the internal registers, the windows of both targets can be written, and
none of the targets has a further open window between them. -/
def SwapSafe (r : AhbRegs) (target1 target2 : Target) : Prop :=
  target1 = .interRegs ∨ ∀ winNum1, mvAhbToMbusWinTargetGet r target1 = some winNum1 →
    target2 ≠ .interRegs ∧ ∀ winNum2, mvAhbToMbusWinTargetGet r target2 = some winNum2 →
      Rewritable r winNum1 ∧ Rewritable r winNum2 ∧ ¬ OpenBetween r target1 winNum1 winNum2 ∧
        ¬ OpenBetween r target2 winNum2 winNum1

/-! ### The windows that are found -/

/-- The search in the words is the one in the fields. -/
theorem findWin_fields (dram : Fin 4 → DramWindow) (winNums : List ℕ) :
    findWin r target winNums = Soc.findWin (r.fields dram) target winNums := by
  induction winNums with
  | nil => rfl
  | cons winNum winNums ih =>
    unfold findWin Soc.findWin
    rw [← mvAhbToMbusWinGet_fields r dram winNum, ih]
    cases mvAhbToMbusWinGet r winNum with
    | error status => rfl
    | ok decWin => rfl

/-- Where a target is found: at the first window that is open for it. -/
theorem mvAhbToMbusWinTargetGet_iff (hint : target ≠ .interRegs) :
    mvAhbToMbusWinTargetGet r target = some winNum ↔ winNum < 8 ∧
      (∃ decWin, mvAhbToMbusWinGet r winNum = .ok decWin ∧ decWin.enable = true ∧
        decWin.target = some target) ∧
      ∀ w, w < winNum → ∃ decWin, mvAhbToMbusWinGet r w = .ok decWin ∧
        ¬ (decWin.enable = true ∧ decWin.target = some target) := by
  have hfields : mvAhbToMbusWinTargetGet r target =
      Soc.mvAhbToMbusWinTargetGet (r.fields fun _ => ⟨⟨0, 0⟩, false⟩) target := by
    unfold mvAhbToMbusWinTargetGet Soc.mvAhbToMbusWinTargetGet
    rw [findWin_fields]
  have hget : ∀ w decWin, Soc.mvAhbToMbusWinGet (r.fields fun _ => ⟨⟨0, 0⟩, false⟩) w =
      some decWin ↔ mvAhbToMbusWinGet r w = .ok decWin := by
    intro w decWin
    rw [← mvAhbToMbusWinGet_fields]
    cases mvAhbToMbusWinGet r w with
    | error status => exact ⟨nofun, nofun⟩
    | ok decWin' =>
      exact ⟨fun h => congrArg _ (Option.some.inj h), fun h => congrArg _ (Except.ok.inj h)⟩
  rw [hfields, Soc.mvAhbToMbusWinTargetGet_iff hint]
  unfold CpuRegs.OpenFor Passes
  simp only [hget]

/-- A window is open when the lowest bit of its control register is set. -/
theorem enable_of_get {w : Fin 8} (hget : mvAhbToMbusWinGet r w = .ok decWin) :
    decWin.enable = (r.ctrl w).getLsbD 0 := by
  have hfields := mvAhbToMbusWinGet_fields r (fun _ => ⟨⟨0, 0⟩, false⟩) w
  rw [hget] at hfields
  unfold Soc.mvAhbToMbusWinGet at hfields
  rw [dif_pos w.isLt] at hfields
  dsimp only at hfields
  split_ifs at hfields
  · cases hfields
  · rw [Option.some.inj hfields]
    rfl

/-- What is read of a window depends on its two registers. -/
theorem mvAhbToMbusWinGet_congr {w : ℕ} (hsame : ∀ h : w < 8, r'.ctrl ⟨w, h⟩ = r.ctrl ⟨w, h⟩ ∧
    r'.base ⟨w, h⟩ = r.base ⟨w, h⟩) (hint : r'.intReg = r.intReg) :
    mvAhbToMbusWinGet r' w = mvAhbToMbusWinGet r w := by
  unfold mvAhbToMbusWinGet
  by_cases hlt : w < 8
  · rw [dif_pos hlt, dif_pos hlt, (hsame hlt).1, (hsame hlt).2]
  · rw [dif_neg hlt, dif_neg hlt, hint]

/-! ### The windows that are closed -/

/-- Both windows are closed before the new values are written. -/
def closeBoth (r : AhbRegs) (winNum1 winNum2 : ℕ) : AhbRegs :=
  (mvAhbToMbusWinEnable (mvAhbToMbusWinEnable r winNum1 false).2 winNum2 false).2

/-- What closing a window does. -/
theorem mvAhbToMbusWinEnable_of_lt (r : AhbRegs) (hlt : winNum < 8) (enable : Bool) :
    mvAhbToMbusWinEnable r winNum enable = (.ok, { r with
      ctrl := Function.update r.ctrl ⟨winNum, hlt⟩
        (enableWord enable (r.ctrl ⟨winNum, hlt⟩)) }) := by
  unfold mvAhbToMbusWinEnable
  rw [dif_pos hlt]

theorem closeBoth_eq (r : AhbRegs) (hlt1 : winNum1 < 8) (hlt2 : winNum2 < 8) :
    closeBoth r winNum1 winNum2 = { r with ctrl := (closeBoth r winNum1 winNum2).ctrl } := by
  unfold closeBoth
  rw [mvAhbToMbusWinEnable_of_lt _ hlt1, mvAhbToMbusWinEnable_of_lt _ hlt2]

/-- A closed window has the lowest bit of its control register reset. -/
theorem closeBoth_closed (r : AhbRegs) (hlt1 : winNum1 < 8) (hlt2 : winNum2 < 8) {w : Fin 8}
    (hw : w.val = winNum1 ∨ w.val = winNum2) :
    ((closeBoth r winNum1 winNum2).ctrl w).getLsbD 0 = false := by
  have hclosed : ∀ ctrl, (enableWord false ctrl).getLsbD 0 = false := by
    intro ctrl
    rw [getLsbD_enableWord _ _ (by decide), if_pos rfl]
  unfold closeBoth
  rw [mvAhbToMbusWinEnable_of_lt _ hlt1, mvAhbToMbusWinEnable_of_lt _ hlt2]
  dsimp only
  by_cases hw2 : w = ⟨winNum2, hlt2⟩
  · rw [hw2, Function.update_self]
    exact hclosed _
  · have hw1 : w = ⟨winNum1, hlt1⟩ := by
      rcases hw with hw | hw
      · exact Fin.ext hw
      · exact absurd (Fin.ext hw) hw2
    rw [Function.update_of_ne hw2, hw1, Function.update_self]
    exact hclosed _

theorem closeBoth_others (r : AhbRegs) (hlt1 : winNum1 < 8) (hlt2 : winNum2 < 8) {w : Fin 8}
    (hw1 : w.val ≠ winNum1) (hw2 : w.val ≠ winNum2) :
    (closeBoth r winNum1 winNum2).ctrl w = r.ctrl w := by
  have hne1 : w ≠ ⟨winNum1, hlt1⟩ := fun h => hw1 (congrArg Fin.val h)
  have hne2 : w ≠ ⟨winNum2, hlt2⟩ := fun h => hw2 (congrArg Fin.val h)
  unfold closeBoth
  rw [mvAhbToMbusWinEnable_of_lt _ hlt1, mvAhbToMbusWinEnable_of_lt _ hlt2]
  dsimp only
  rw [Function.update_of_ne hne2, Function.update_of_ne hne1]

/-! ### The remap registers -/

theorem writeRemap_ctrl (r : AhbRegs) (winNum : ℕ) (remapBase : BitVec 32 × BitVec 32) :
    (writeRemap r winNum remapBase).ctrl = r.ctrl ∧ (writeRemap r winNum remapBase).base = r.base ∧
      (writeRemap r winNum remapBase).intReg = r.intReg := by
  unfold writeRemap
  by_cases hlt : winNum < 8
  · rw [dif_pos hlt]
    exact ⟨rfl, rfl, rfl⟩
  · rw [dif_neg hlt]
    exact ⟨rfl, rfl, rfl⟩

theorem readRemap_writeRemap (r : AhbRegs) (hlt : winNum < 8) (remapBase : BitVec 32 × BitVec 32) :
    readRemap (writeRemap r winNum remapBase) winNum = remapBase := by
  unfold readRemap writeRemap
  rw [dif_pos hlt, dif_pos hlt]
  dsimp only
  rw [Function.update_self, Function.update_self]

theorem readRemap_writeRemap_of_ne (r : AhbRegs) {w : ℕ} (hne : w ≠ winNum)
    (remapBase : BitVec 32 × BitVec 32) :
    readRemap (writeRemap r winNum remapBase) w = readRemap r w := by
  unfold readRemap writeRemap
  by_cases hw : w < 8
  · rw [dif_pos hw, dif_pos hw]
    by_cases hlt : winNum < 8
    · have hne' : (⟨w, hw⟩ : Fin 8) ≠ ⟨winNum, hlt⟩ := fun h => hne (congrArg Fin.val h)
      rw [dif_pos hlt]
      dsimp only
      rw [Function.update_of_ne hne', Function.update_of_ne hne']
    · rw [dif_neg hlt]
  · rw [dif_neg hw, dif_neg hw]

/-- The windows themselves do not change with what is remapped. -/
theorem swapRemap_ctrl (orion2 : Bool) (r : AhbRegs) (winNum1 winNum2 : ℕ)
    (winDec1 winDec2 : DecWin) :
    (swapRemap orion2 r winNum1 winNum2 winDec1 winDec2).ctrl = r.ctrl ∧
      (swapRemap orion2 r winNum1 winNum2 winDec1 winDec2).base = r.base ∧
      (swapRemap orion2 r winNum1 winNum2 winDec1 winDec2).intReg = r.intReg := by
  unfold swapRemap
  dsimp only
  split_ifs
  · obtain ⟨hctrl, hbase, hint⟩ := writeRemap_ctrl (writeRemap r winNum2 (readRemap r winNum1))
      winNum1 (readRemap r winNum2)
    obtain ⟨hctrl', hbase', hint'⟩ := writeRemap_ctrl r winNum2 (readRemap r winNum1)
    exact ⟨hctrl.trans hctrl', hbase.trans hbase', hint.trans hint'⟩
  · exact writeRemap_ctrl _ _ _
  · exact writeRemap_ctrl _ _ _
  · exact ⟨rfl, rfl, rfl⟩

/-- The remap registers of the other windows are kept. -/
theorem readRemap_swapRemap (orion2 : Bool) (r : AhbRegs) (winDec1 winDec2 : DecWin) {w : ℕ}
    (hw1 : w ≠ winNum1) (hw2 : w ≠ winNum2) :
    readRemap (swapRemap orion2 r winNum1 winNum2 winDec1 winDec2) w = readRemap r w := by
  unfold swapRemap
  dsimp only
  split_ifs
  · rw [readRemap_writeRemap_of_ne _ hw1, readRemap_writeRemap_of_ne _ hw2]
  · rw [readRemap_writeRemap_of_ne _ hw1]
  · rw [readRemap_writeRemap_of_ne _ hw2]
  · rfl

/-- Two windows with remap registers exchange what is in them. -/
theorem swapRemap_both (r : AhbRegs) (winDec1 winDec2 : DecWin) (hlt1 : winNum1 < 8)
    (hlt2 : winNum2 < 8) (hremap1 : hasRemap orion2 winNum1 = true)
    (hremap2 : hasRemap orion2 winNum2 = true) :
    readRemap (swapRemap orion2 r winNum1 winNum2 winDec1 winDec2) winNum1 = readRemap r winNum2 ∧
      readRemap (swapRemap orion2 r winNum1 winNum2 winDec1 winDec2) winNum2 =
        readRemap r winNum1 := by
  unfold swapRemap
  dsimp only
  rw [if_pos hremap1, if_pos hremap2, readRemap_writeRemap _ hlt1]
  refine ⟨rfl, ?_⟩
  by_cases hsame : winNum2 = winNum1
  · subst hsame
    exact readRemap_writeRemap _ hlt1 _
  · rw [readRemap_writeRemap_of_ne _ hsame, readRemap_writeRemap _ hlt2]

/-! ### The exchange -/

/-- What is known of a window that has been found. -/
structure FoundAt (r : AhbRegs) (target : Target) (winNum : ℕ) (decWin : DecWin) : Prop where
  lt : winNum < 8
  get : mvAhbToMbusWinGet r winNum = .ok decWin
  opened : decWin.enable = true
  forTarget : decWin.target = some target
  passed : ∀ w, w < winNum → ∃ decWin, mvAhbToMbusWinGet r w = .ok decWin ∧
    ¬ (decWin.enable = true ∧ decWin.target = some target)

theorem foundAt_of_get (hint : target ≠ .interRegs)
    (hfound : mvAhbToMbusWinTargetGet r target = some winNum) :
    ∃ decWin, FoundAt r target winNum decWin := by
  obtain ⟨hlt, ⟨decWin, hget, henable, htarget⟩, hpassed⟩ :=
    (mvAhbToMbusWinTargetGet_iff hint).mp hfound
  exact ⟨decWin, hlt, hget, henable, htarget, hpassed⟩

theorem FoundAt.found (hint : target ≠ .interRegs) (hfound : FoundAt r target winNum decWin) :
    mvAhbToMbusWinTargetGet r target = some winNum :=
  (mvAhbToMbusWinTargetGet_iff hint).mpr ⟨hfound.lt, ⟨decWin, hfound.get, hfound.opened,
    hfound.forTarget⟩, hfound.passed⟩

/-- The window of the internal registers cannot be closed. The first window already is. -/
theorem mvAhbToMbusWinTargetSwap_interRegs (orion2 : Bool) (hint : target1 ≠ .interRegs)
    (hfound1 : FoundAt r target1 winNum1 winDec1) :
    mvAhbToMbusWinTargetSwap orion2 r (some target1) (some .interRegs) =
      (.error, (mvAhbToMbusWinEnable r winNum1 false).2) := by
  have hget2 : mvAhbToMbusWinTargetGet r .interRegs = some intRegWin := rfl
  have hread2 : mvAhbToMbusWinGet r intRegWin =
      .ok ⟨⟨r.intReg &&& ctrlDecMask, interRegsSize⟩, some .interRegs, true⟩ := rfl
  unfold mvAhbToMbusWinTargetSwap
  dsimp only
  rw [hfound1.found hint]
  dsimp only
  rw [hget2]
  dsimp only
  rw [hfound1.get]
  dsimp only
  rw [hread2]
  dsimp only
  rw [mvAhbToMbusWinEnable_of_lt _ hfound1.lt]
  rfl

/-- Two windows that have been found are closed and written. -/
theorem mvAhbToMbusWinTargetSwap_found (orion2 : Bool) (hint1 : target1 ≠ .interRegs)
    (hint2 : target2 ≠ .interRegs) (hfound1 : FoundAt r target1 winNum1 winDec1)
    (hfound2 : FoundAt r target2 winNum2 winDec2) :
    mvAhbToMbusWinTargetSwap orion2 r (some target1) (some target2) =
      (.ok, setSwapped orion2 (closeBoth r winNum1 winNum2) winNum1 winNum2 winDec2 winDec1
        target2 target1) := by
  have htarget1 : winDec1.target.getD target1 = target1 := by
    rw [hfound1.forTarget]
    rfl
  have htarget2 : winDec2.target.getD target2 = target2 := by
    rw [hfound2.forTarget]
    rfl
  unfold mvAhbToMbusWinTargetSwap closeBoth
  dsimp only
  rw [hfound1.found hint1]
  dsimp only
  rw [hfound2.found hint2]
  dsimp only
  rw [hfound1.get]
  dsimp only
  rw [hfound2.get]
  dsimp only
  rw [mvAhbToMbusWinEnable_of_lt _ hfound1.lt]
  dsimp only
  rw [mvAhbToMbusWinEnable_of_lt _ hfound2.lt]
  dsimp only
  rw [htarget1, htarget2]

/-- The registers after both windows have been written. -/
def written (r : AhbRegs) (winNum1 winNum2 : ℕ) (winDec1 winDec2 : DecWin)
    (target1 target2 : Target) : AhbRegs :=
  (mvAhbToMbusWinSet (mvAhbToMbusWinSet r winNum1 winDec1.addrWin winDec1.enable target1).2
    winNum2 winDec2.addrWin winDec2.enable target2).2

theorem setSwapped_eq (orion2 : Bool) (r : AhbRegs) (winNum1 winNum2 : ℕ) (winDec1 winDec2 : DecWin)
    (target1 target2 : Target) :
    setSwapped orion2 r winNum1 winNum2 winDec1 winDec2 target1 target2 =
      swapRemap orion2 (written r winNum1 winNum2 winDec1 winDec2 target1 target2) winNum1 winNum2
        winDec1 winDec2 := rfl

/-- Only the two windows are written. -/
theorem written_frame (r : AhbRegs) (hlt1 : winNum1 < 8) (hlt2 : winNum2 < 8)
    (winDec1 winDec2 : DecWin) (target1 target2 : Target) :
    (∀ w : Fin 8, w.val ≠ winNum1 → w.val ≠ winNum2 →
      (written r winNum1 winNum2 winDec1 winDec2 target1 target2).ctrl w = r.ctrl w ∧
        (written r winNum1 winNum2 winDec1 winDec2 target1 target2).base w = r.base w) ∧
    (∀ w, readRemap (written r winNum1 winNum2 winDec1 winDec2 target1 target2) w =
      readRemap r w) ∧
    (written r winNum1 winNum2 winDec1 winDec2 target1 target2).intReg = r.intReg := by
  have hframe1 := mvAhbToMbusWinSet_frame r ⟨winNum1, hlt1⟩ winDec1.addrWin winDec1.enable target1
  have hframe2 := mvAhbToMbusWinSet_frame
    (mvAhbToMbusWinSet r winNum1 winDec1.addrWin winDec1.enable target1).2 ⟨winNum2, hlt2⟩
    winDec2.addrWin winDec2.enable target2
  refine ⟨fun w hw1 hw2 => ?_, fun w => ?_, hframe2.intReg.trans hframe1.intReg⟩
  · have hne1 : w ≠ ⟨winNum1, hlt1⟩ := fun h => hw1 (congrArg Fin.val h)
    have hne2 : w ≠ ⟨winNum2, hlt2⟩ := fun h => hw2 (congrArg Fin.val h)
    exact ⟨(hframe2.ctrl w hne2).trans (hframe1.ctrl w hne1),
      (hframe2.base w hne2).trans (hframe1.base w hne1)⟩
  · unfold readRemap
    by_cases hw : w < 8
    · rw [dif_pos hw, dif_pos hw]
      unfold written
      rw [hframe2.remapLow, hframe2.remapHigh, hframe1.remapLow, hframe1.remapHigh]
    · rw [dif_neg hw, dif_neg hw]

/-- What is read of the two windows when both can be written. One window is written twice. -/
theorem written_get (r : AhbRegs) (hlt1 : winNum1 < 8) (hlt2 : winNum2 < 8)
    (hint1 : target1 ≠ .interRegs) (hint2 : target2 ≠ .interRegs)
    (hform1 : winDec1.addrWin.WellFormed) (hform2 : winDec2.addrWin.WellFormed)
    (hsame : winNum1 = winNum2 → winDec1 = winDec2 ∧ target1 = target2) :
    mvAhbToMbusWinGet (written r winNum1 winNum2 winDec1 winDec2 target1 target2) winNum1 =
        .ok ⟨winDec1.addrWin, some target1, winDec1.enable⟩ ∧
      mvAhbToMbusWinGet (written r winNum1 winNum2 winDec1 winDec2 target1 target2) winNum2 =
        .ok ⟨winDec2.addrWin, some target2, winDec2.enable⟩ := by
  have hget2 := @mvAhbToMbusWinGet_set
    (mvAhbToMbusWinSet r winNum1 winDec1.addrWin winDec1.enable target1).2 winDec2.addrWin winNum2
    winDec2.enable target2 hint2 hlt2 hform2
  refine ⟨?_, hget2⟩
  by_cases heq : winNum1 = winNum2
  · obtain ⟨hdec, htarget⟩ := hsame heq
    rw [heq, hdec, htarget] at hget2 ⊢
    exact hget2
  · have hframe := mvAhbToMbusWinSet_frame
      (mvAhbToMbusWinSet r winNum1 winDec1.addrWin winDec1.enable target1).2 ⟨winNum2, hlt2⟩
      winDec2.addrWin winDec2.enable target2
    have hkept : mvAhbToMbusWinGet (written r winNum1 winNum2 winDec1 winDec2 target1 target2)
        winNum1 = mvAhbToMbusWinGet
          (mvAhbToMbusWinSet r winNum1 winDec1.addrWin winDec1.enable target1).2 winNum1 := by
      refine mvAhbToMbusWinGet_congr (fun hlt => ?_) hframe.intReg
      have hne : (⟨winNum1, hlt⟩ : Fin 8) ≠ ⟨winNum2, hlt2⟩ := fun h => heq (congrArg Fin.val h)
      exact ⟨hframe.ctrl _ hne, hframe.base _ hne⟩
    rw [hkept]
    exact mvAhbToMbusWinGet_set hint1 hlt1 hform1

/-- A window that cannot be written to the registers of the other one leaves that one closed. -/
theorem written_closed (hlt1 : winNum1 < 8) (hlt2 : winNum2 < 8)
    (hclosed1 : (r.ctrl ⟨winNum1, hlt1⟩).getLsbD 0 = false)
    (hclosed2 : (r.ctrl ⟨winNum2, hlt2⟩).getLsbD 0 = false)
    (hsame : winNum1 = winNum2 → winDec1 = winDec2) :
    (¬ winDec1.addrWin.WellFormed →
      ((written r winNum1 winNum2 winDec1 winDec2 target1 target2).ctrl
        ⟨winNum1, hlt1⟩).getLsbD 0 = false) ∧
    (¬ winDec2.addrWin.WellFormed →
      ((written r winNum1 winNum2 winDec1 winDec2 target1 target2).ctrl
        ⟨winNum2, hlt2⟩).getLsbD 0 = false) := by
  constructor
  · intro hform
    unfold written
    rw [mvAhbToMbusWinSet_refused hlt1 hform]
    by_cases heq : winNum1 = winNum2
    · rw [← hsame heq, mvAhbToMbusWinSet_refused hlt2 hform]
      exact hclosed1
    · have hne : (⟨winNum1, hlt1⟩ : Fin 8) ≠ ⟨winNum2, hlt2⟩ := fun h => heq (congrArg Fin.val h)
      have hframe := mvAhbToMbusWinSet_frame r
        ⟨winNum2, hlt2⟩ winDec2.addrWin winDec2.enable target2
      rw [hframe.ctrl _ hne]
      exact hclosed1
  · intro hform
    unfold written
    rw [mvAhbToMbusWinSet_refused hlt2 hform]
    by_cases heq : winNum1 = winNum2
    · rw [hsame heq, mvAhbToMbusWinSet_refused hlt1 hform]
      exact hclosed2
    · have hne : (⟨winNum2, hlt2⟩ : Fin 8) ≠ ⟨winNum1, hlt1⟩ :=
        fun h => heq (congrArg Fin.val h).symm
      have hframe := mvAhbToMbusWinSet_frame r
        ⟨winNum1, hlt1⟩ winDec1.addrWin winDec1.enable target1
      rw [hframe.ctrl _ hne]
      exact hclosed2

/-- One window is found for one target. -/
theorem FoundAt.unique (hfound1 : FoundAt r target1 winNum1 winDec1)
    (hfound2 : FoundAt r target2 winNum2 winDec2) (heq : winNum1 = winNum2) :
    winDec1 = winDec2 ∧ target1 = target2 := by
  have hget := hfound2.get
  rw [← heq, hfound1.get] at hget
  have hdec := Except.ok.inj hget
  have htarget := hfound2.forTarget
  rw [← hdec, hfound1.forTarget] at htarget
  exact ⟨hdec, Option.some.inj htarget⟩

/-- A target whose window has moved is found at its new place. -/
theorem found_moved (hint : target1 ≠ .interRegs) (hfound1 : FoundAt r target1 winNum1 winDec1)
    (hfound2 : FoundAt r target2 winNum2 winDec2)
    (hbetween : ¬ OpenBetween r target1 winNum1 winNum2)
    (hwindow1 : mvAhbToMbusWinGet r' winNum1 = mvAhbToMbusWinGet r winNum2)
    (hwindow2 : mvAhbToMbusWinGet r' winNum2 = mvAhbToMbusWinGet r winNum1)
    (hothers : ∀ w, w ≠ winNum1 → w ≠ winNum2 → mvAhbToMbusWinGet r' w = mvAhbToMbusWinGet r w) :
    mvAhbToMbusWinTargetGet r' target1 = some winNum2 := by
  refine (mvAhbToMbusWinTargetGet_iff hint).mpr ⟨hfound2.lt,
    ⟨winDec1, hwindow2.trans hfound1.get, hfound1.opened, hfound1.forTarget⟩, fun w hw => ?_⟩
  by_cases hw1 : w = winNum1
  · -- the first window is now the one of the other target
    refine ⟨winDec2, hw1 ▸ hwindow1.trans hfound2.get, fun hopen => ?_⟩
    have htarget : target1 = target2 :=
      Option.some.inj (hopen.2.symm.trans hfound2.forTarget)
    obtain ⟨decWin, hget, hpassed⟩ := hfound2.passed w hw
    rw [hw1, hfound1.get] at hget
    exact hpassed ⟨Except.ok.inj hget ▸ hfound1.opened,
      Except.ok.inj hget ▸ htarget ▸ hfound1.forTarget⟩
  · have hkept := hothers w hw1 (Nat.ne_of_lt hw)
    obtain ⟨decWin, hget, -⟩ := hfound2.passed w hw
    refine ⟨decWin, hkept.trans hget, fun hopen => ?_⟩
    rcases Nat.lt_or_gt_of_ne hw1 with hlt | hgt
    · obtain ⟨decWin', hget', hpassed⟩ := hfound1.passed w hlt
      rw [hget] at hget'
      exact hpassed (Except.ok.inj hget' ▸ hopen)
    · exact hbetween ⟨w, decWin, hgt, hw, hget, hopen⟩

/-- Two windows that can be rewritten are exchanged. -/
theorem swapped_of_safe (orion2 : Bool) (hint1 : target1 ≠ .interRegs)
    (hint2 : target2 ≠ .interRegs)
    (hfound1 : FoundAt r target1 winNum1 winDec1) (hfound2 : FoundAt r target2 winNum2 winDec2)
    (hform1 : winDec1.addrWin.WellFormed) (hform2 : winDec2.addrWin.WellFormed)
    (hbetween1 : ¬ OpenBetween r target1 winNum1 winNum2)
    (hbetween2 : ¬ OpenBetween r target2 winNum2 winNum1) :
    Swapped orion2 r (setSwapped orion2 (closeBoth r winNum1 winNum2) winNum1 winNum2 winDec2
      winDec1 target2 target1) target1 target2 winNum1 winNum2 := by
  rw [setSwapped_eq]
  generalize hwritten : written (closeBoth r winNum1 winNum2) winNum1 winNum2 winDec2 winDec1
    target2 target1 = written'
  have hget := written_get (closeBoth r winNum1 winNum2) hfound1.lt hfound2.lt hint2 hint1 hform2
    hform1 fun heq => by
      obtain ⟨hdec, htarget⟩ := hfound1.unique hfound2 heq
      exact ⟨hdec.symm, htarget.symm⟩
  have hframe := written_frame (closeBoth r winNum1 winNum2) hfound1.lt hfound2.lt winDec2 winDec1
    target2 target1
  rw [hwritten] at hget hframe
  obtain ⟨hget1, hget2⟩ := hget
  obtain ⟨hothers, hremap, hintReg⟩ := hframe
  have hclose := closeBoth_eq r hfound1.lt hfound2.lt
  have hcloseBase : (closeBoth r winNum1 winNum2).base = r.base := by rw [hclose]
  have hcloseInt : (closeBoth r winNum1 winNum2).intReg = r.intReg := by rw [hclose]
  have hcloseRemap : ∀ w, readRemap (closeBoth r winNum1 winNum2) w = readRemap r w := by
    intro w
    rw [hclose]
    rfl
  generalize hlast : swapRemap orion2 written' winNum1 winNum2 winDec2 winDec1 = last
  obtain ⟨hctrl, hbase, hint⟩ := swapRemap_ctrl orion2 written' winNum1 winNum2 winDec2 winDec1
  rw [hlast] at hctrl hbase hint
  have hsame : ∀ w, mvAhbToMbusWinGet last w = mvAhbToMbusWinGet written' w := fun w =>
    mvAhbToMbusWinGet_congr (fun _ => ⟨congrFun hctrl _, congrFun hbase _⟩) hint
  have hregs : ∀ w : Fin 8, w.val ≠ winNum1 → w.val ≠ winNum2 →
      last.ctrl w = r.ctrl w ∧ last.base w = r.base w := by
    intro w hw1 hw2
    rw [hctrl, hbase, (hothers w hw1 hw2).1, (hothers w hw1 hw2).2, hcloseBase]
    exact ⟨closeBoth_others r hfound1.lt hfound2.lt hw1 hw2, rfl⟩
  have hintLast : last.intReg = r.intReg := by rw [hint, hintReg, hcloseInt]
  have hwindow1 : mvAhbToMbusWinGet last winNum1 = mvAhbToMbusWinGet r winNum2 := by
    rw [hsame, hget1, hfound2.get, ← hfound2.forTarget]
  have hwindow2 : mvAhbToMbusWinGet last winNum2 = mvAhbToMbusWinGet r winNum1 := by
    rw [hsame, hget2, hfound1.get, ← hfound1.forTarget]
  have hread : ∀ w, w ≠ winNum1 → w ≠ winNum2 →
      mvAhbToMbusWinGet last w = mvAhbToMbusWinGet r w := fun w hw1 hw2 =>
    mvAhbToMbusWinGet_congr (fun hlt => hregs ⟨w, hlt⟩ hw1 hw2) hintLast
  refine ⟨found_moved hint1 hfound1 hfound2 hbetween1 hwindow1 hwindow2 hread,
    found_moved hint2 hfound2 hfound1 hbetween2 hwindow2 hwindow1 fun w hw2 hw1 => hread w hw1 hw2,
    hwindow1, hwindow2, fun w hw1 hw2 => ?_, hintLast, fun hremap1 hremap2 => ?_,
    fun hremap1 hremap2 decWin hdec => ?_, fun hremap1 hremap2 decWin hdec => ?_⟩
  · obtain ⟨hctrlW, hbaseW⟩ := hregs w hw1 hw2
    refine ⟨hctrlW, hbaseW, ?_⟩
    rw [← hlast, readRemap_swapRemap _ _ _ _ hw1 hw2, hremap, hcloseRemap]
  · obtain ⟨hfirst, hsecond⟩ := swapRemap_both written' winDec2 winDec1 hfound1.lt
      hfound2.lt hremap1
      hremap2
    rw [hlast] at hfirst hsecond
    rw [hfirst, hsecond, hremap, hremap, hcloseRemap, hcloseRemap]
    exact ⟨rfl, rfl⟩
  · rw [hwindow1, hfound2.get] at hdec
    rw [← hlast, ← Except.ok.inj hdec]
    unfold swapRemap
    dsimp only
    rw [if_pos hremap1, hremap2, if_neg Bool.false_ne_true, readRemap_writeRemap _ hfound1.lt]
  · rw [hwindow2, hfound1.get] at hdec
    rw [← hlast, ← Except.ok.inj hdec]
    unfold swapRemap
    dsimp only
    rw [hremap1, if_neg Bool.false_ne_true, if_pos hremap2, readRemap_writeRemap _ hfound2.lt]

/-- Two windows that have been exchanged could be rewritten, and nothing lies between them. -/
theorem safe_of_swapped (hint1 : target1 ≠ .interRegs) (hint2 : target2 ≠ .interRegs)
    (hfound1 : FoundAt r target1 winNum1 winDec1) (hfound2 : FoundAt r target2 winNum2 winDec2)
    (hswapped : Swapped orion2 r (setSwapped orion2 (closeBoth r winNum1 winNum2) winNum1 winNum2
      winDec2 winDec1 target2 target1) target1 target2 winNum1 winNum2) :
    winDec1.addrWin.WellFormed ∧ winDec2.addrWin.WellFormed ∧
      ¬ OpenBetween r target1 winNum1 winNum2 ∧ ¬ OpenBetween r target2 winNum2 winNum1 := by
  rw [setSwapped_eq] at hswapped
  generalize hlast : swapRemap orion2 (written (closeBoth r winNum1 winNum2) winNum1 winNum2 winDec2
    winDec1 target2 target1) winNum1 winNum2 winDec2 winDec1 = last at hswapped
  have hctrl := (swapRemap_ctrl orion2 (written (closeBoth r winNum1 winNum2) winNum1
    winNum2 winDec2
    winDec1 target2 target1) winNum1 winNum2 winDec2 winDec1).1
  rw [hlast] at hctrl
  obtain ⟨hclosed1, hclosed2⟩ := @written_closed (closeBoth r winNum1 winNum2) target2 target1
    winNum1 winNum2 winDec2 winDec1 hfound1.lt hfound2.lt
    (closeBoth_closed r hfound1.lt hfound2.lt (Or.inl rfl))
    (closeBoth_closed r hfound1.lt hfound2.lt (Or.inr rfl))
    fun heq => (hfound1.unique hfound2 heq).1.symm
  rw [← hctrl] at hclosed1 hclosed2
  have hread : ∀ w, w ≠ winNum1 → w ≠ winNum2 →
      mvAhbToMbusWinGet last w = mvAhbToMbusWinGet r w := fun w hw1 hw2 =>
    mvAhbToMbusWinGet_congr (fun hlt => ⟨(hswapped.others ⟨w, hlt⟩ hw1 hw2).1,
      (hswapped.others ⟨w, hlt⟩ hw1 hw2).2.1⟩) hswapped.intReg
  refine ⟨?_, ?_, ?_, ?_⟩
  · by_contra hform
    have henable := @enable_of_get last winDec1 ⟨winNum2, hfound2.lt⟩
      (hswapped.window2.trans hfound1.get)
    rw [hclosed2 hform, hfound1.opened] at henable
    cases henable
  · by_contra hform
    have henable := @enable_of_get last winDec2 ⟨winNum1, hfound1.lt⟩
      (hswapped.window1.trans hfound2.get)
    rw [hclosed1 hform, hfound2.opened] at henable
    cases henable
  · rintro ⟨w, decWin, hgt, hlt, hget, hopen⟩
    obtain ⟨-, -, hpassed⟩ := (mvAhbToMbusWinTargetGet_iff hint1).mp hswapped.found1
    obtain ⟨decWin', hget', hnot⟩ := hpassed w hlt
    rw [hread w (Nat.ne_of_gt hgt) (Nat.ne_of_lt hlt), hget] at hget'
    exact hnot (Except.ok.inj hget' ▸ hopen)
  · rintro ⟨w, decWin, hgt, hlt, hget, hopen⟩
    obtain ⟨-, -, hpassed⟩ := (mvAhbToMbusWinTargetGet_iff hint2).mp hswapped.found2
    obtain ⟨decWin', hget', hnot⟩ := hpassed w hlt
    rw [hread w (Nat.ne_of_lt hlt) (Nat.ne_of_gt hgt), hget] at hget'
    exact hnot (Except.ok.inj hget' ▸ hopen)

/-! ### When targets are exchanged -/

/-- A target without a window is refused before anything is written. -/
theorem swapRight_of_missing (hmissing : mvAhbToMbusWinTargetGet r target1 = none ∨
    mvAhbToMbusWinTargetGet r target2 = none) : SwapRight orion2 r target1 target2 := by
  have hresult : mvAhbToMbusWinTargetSwap orion2 r (some target1) (some target2) = (.error, r) := by
    unfold mvAhbToMbusWinTargetSwap
    dsimp only
    rcases hmissing with hnone | hnone
    · rw [hnone]
    · rw [hnone]
      cases mvAhbToMbusWinTargetGet r target1 <;> rfl
  unfold SwapRight
  rw [hresult]
  exact ⟨nofun, fun _ => rfl⟩

/-- The window of the internal registers is refused as the first one before anything is written. -/
theorem swapRight_interRegs_left : SwapRight orion2 r .interRegs target2 := by
  cases hget2 : mvAhbToMbusWinTargetGet r target2 with
  | none => exact swapRight_of_missing (Or.inr hget2)
  | some winNum2 =>
    have hresult : mvAhbToMbusWinTargetSwap orion2 r (some .interRegs) (some target2) =
        (.error, r) := by
      have hget1 : mvAhbToMbusWinTargetGet r .interRegs = some intRegWin := rfl
      have hread1 : mvAhbToMbusWinGet r intRegWin =
          .ok ⟨⟨r.intReg &&& ctrlDecMask, interRegsSize⟩, some .interRegs, true⟩ := rfl
      have henable1 : mvAhbToMbusWinEnable r intRegWin false = (.error, r) := rfl
      unfold mvAhbToMbusWinTargetSwap
      dsimp only
      rw [hget1, hget2]
      dsimp only
      rw [hread1]
      dsimp only
      rw [henable1]
      cases mvAhbToMbusWinGet r winNum2 <;> rfl
    unfold SwapRight
    rw [hresult]
    exact ⟨nofun, fun _ => rfl⟩

/-- The window of the internal registers is refused as the second one after the first one has been
closed. -/
theorem not_swapRight_interRegs (hint : target1 ≠ .interRegs)
    (hfound1 : FoundAt r target1 winNum1 winDec1) : ¬ SwapRight orion2 r target1 .interRegs := by
  intro hright
  have hkept := hright.2
  rw [mvAhbToMbusWinTargetSwap_interRegs orion2 hint hfound1] at hkept
  have henable := @enable_of_get r winDec1 ⟨winNum1, hfound1.lt⟩ hfound1.get
  have hsame : (mvAhbToMbusWinEnable r winNum1 false).2 = r := hkept nofun
  rw [mvAhbToMbusWinEnable_of_lt _ hfound1.lt] at hsame
  have hclosed := congrArg (fun r : AhbRegs => (r.ctrl ⟨winNum1, hfound1.lt⟩).getLsbD 0) hsame
  dsimp only at hclosed
  rw [Function.update_self, getLsbD_enableWord _ _ (by decide), if_pos rfl, ← henable,
    hfound1.opened] at hclosed
  cases hclosed

/-- The windows of two targets are exchanged, or nothing is changed, exactly when the second target
is not the internal registers, both windows can be rewritten and nothing lies between them. -/
theorem mvAhbToMbusWinTargetSwap_right_iff (orion2 : Bool) (r : AhbRegs)
    (target1 target2 : Target) :
    SwapRight orion2 r target1 target2 ↔ SwapSafe r target1 target2 := by
  by_cases hint1 : target1 = .interRegs
  · subst hint1
    exact iff_of_true swapRight_interRegs_left (Or.inl rfl)
  cases hget1 : mvAhbToMbusWinTargetGet r target1 with
  | none =>
    refine iff_of_true (swapRight_of_missing (Or.inl hget1)) (Or.inr fun winNum1 hsome => ?_)
    rw [hget1] at hsome
    cases hsome
  | some winNum1 =>
    obtain ⟨winDec1, hfound1⟩ := foundAt_of_get hint1 hget1
    by_cases hint2 : target2 = .interRegs
    · subst hint2
      refine iff_of_false (not_swapRight_interRegs hint1 hfound1) fun hsafe => ?_
      rcases hsafe with hsafe | hsafe
      · exact hint1 hsafe
      · exact (hsafe winNum1 hget1).1 rfl
    cases hget2 : mvAhbToMbusWinTargetGet r target2 with
    | none =>
      refine iff_of_true (swapRight_of_missing (Or.inr hget2)) (Or.inr fun _ _ =>
        ⟨hint2, fun winNum2 hsome => ?_⟩)
      rw [hget2] at hsome
      cases hsome
    | some winNum2 =>
      obtain ⟨winDec2, hfound2⟩ := foundAt_of_get hint2 hget2
      have hresult := mvAhbToMbusWinTargetSwap_found orion2 hint1 hint2 hfound1 hfound2
      constructor
      · intro hright
        unfold SwapRight at hright
        rw [hresult] at hright
        obtain ⟨w1, w2, hw1, hw2, hswapped⟩ := hright.1 rfl
        rw [hget1] at hw1
        rw [hget2] at hw2
        obtain rfl := Option.some.inj hw1
        obtain rfl := Option.some.inj hw2
        obtain ⟨hform1, hform2, hbetween⟩ := safe_of_swapped hint1 hint2 hfound1 hfound2 hswapped
        refine Or.inr fun w1 hw1 => ⟨hint2, fun w2 hw2 => ?_⟩
        rw [hget1] at hw1
        rw [hget2] at hw2
        obtain rfl := Option.some.inj hw1
        obtain rfl := Option.some.inj hw2
        refine ⟨fun decWin hread => ?_, fun decWin hread => ?_, hbetween⟩
        · rw [hfound1.get] at hread
          exact Except.ok.inj hread ▸ hform1
        · rw [hfound2.get] at hread
          exact Except.ok.inj hread ▸ hform2
      · rintro (hsafe | hsafe)
        · exact absurd hsafe hint1
        · obtain ⟨hwrite1, hwrite2, hbetween1, hbetween2⟩ := (hsafe winNum1 hget1).2 winNum2 hget2
          unfold SwapRight
          rw [hresult]
          exact ⟨fun _ => ⟨winNum1, winNum2, hget1, hget2,
            swapped_of_safe orion2 hint1 hint2 hfound1
            hfound2 (hwrite1 _ hfound1.get) (hwrite2 _ hfound2.get) hbetween1 hbetween2⟩,
            fun hne => absurd rfl hne⟩

/-- Registers with one window open, for the memory of the bus. -/
def pexAhb : AhbRegs := (mvAhbToMbusWinSet onesAhb 0 ⟨0xe0000000, 0x08000000⟩ true .pex0Mem).2

/-- The memory of the bus cannot be reached any more after an exchange that has been refused. -/
theorem pexAhb_not_swapRight : ¬ SwapRight false pexAhb .pex0Mem .interRegs := by
  have hform : AddrWin.WellFormed ⟨0xe0000000, 0x08000000⟩ := ⟨⟨11, by decide⟩, by decide⟩
  have hget := @mvAhbToMbusWinGet_set onesAhb _ 0 true .pex0Mem (by decide) (by decide) hform
  exact not_swapRight_interRegs (by decide) ⟨by decide, hget, rfl, rfl, nofun⟩

end Mv88fxx81.Soc.Ahb
