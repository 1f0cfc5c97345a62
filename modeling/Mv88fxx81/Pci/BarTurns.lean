import Mv88fxx81.Pci.BarProbe

/-!
# One turn of the loop

What a turn of `pciDetectDeviceBars` does for each kind of window. A window that is taken for what
it is gets an entry and keeps its registers.
-/

namespace Mv88fxx81.Pci

variable {writable cfg : ConfigSpace} {barIndex regOff : ℕ} {entry : PciBar} {log addrBits : ℕ}
  {base w mask bits x : BitVec 32} {prefetch whole : Bool}

/-! ### Bits of a register -/

theorem and_ioSpace_ne_zero_iff : x &&& ioSpace ≠ 0 ↔ x.getLsbD 0 = true := by
  have htwo : ioSpace = BitVec.twoPow 32 0 := by decide
  rw [htwo, BitVec.and_twoPow]
  cases x.getLsbD 0 <;> decide

theorem and_prefetchEn_ne_zero_iff : x &&& prefetchEn ≠ 0 ↔ x.getLsbD 3 = true := by
  have htwo : prefetchEn = BitVec.twoPow 32 3 := by decide
  rw [htwo, BitVec.and_twoPow]
  cases x.getLsbD 3 <;> decide

theorem and_typeMask (x : BitVec 32) : x &&& typeMask =
    (if x.getLsbD 1 then BitVec.twoPow 32 1 else 0) |||
      (if x.getLsbD 2 then BitVec.twoPow 32 2 else 0) := by
  have htwo : typeMask = BitVec.twoPow 32 1 ||| BitVec.twoPow 32 2 := by decide
  rw [htwo, BitVec.and_or_distrib_left, BitVec.and_twoPow, BitVec.and_twoPow]
  rfl

/-- The type that is entered, for a register whose bit 1 is reset. -/
theorem barType_eq (hbit : x.getLsbD 1 = false) (old : BarType) :
    (if x &&& typeMask = 0 then BarType.bar32
      else if x &&& typeMask = type64bit then .bar64 else old) =
        if x.getLsbD 2 then .bar64 else .bar32 := by
  rw [and_typeMask, hbit]
  cases x.getLsbD 2 <;> rfl

theorem getLsbD_memBaseMask : ∀ i < 32, memBaseMask.getLsbD i = decide (4 ≤ i) := by decide

theorem getLsbD_ioBaseMask : ∀ i < 32, ioBaseMask.getLsbD i = decide (2 ≤ i) := by decide

/-- A base has no bit below its size. -/
theorem getLsbD_of_dvd {n : ℕ} {base : BitVec n} (hdvd : 2 ^ log ∣ base.toNat) {i : ℕ}
    (hi : i < log) : base.getLsbD i = false := by
  obtain ⟨k, hk⟩ := hdvd
  unfold BitVec.getLsbD
  rw [hk, Nat.testBit_two_pow_mul]
  simp [Nat.not_le.mpr hi]

/-- The bits of the address that are read of a register. -/
theorem keep_base {n : ℕ} (hmask : ∀ i < 32, mask.getLsbD i = decide (n ≤ i))
    (hbase : ∀ i < n, base.getLsbD i = false) (hbits : ∀ i, n ≤ i → bits.getLsbD i = false) :
    (base ||| bits) &&& mask = base := by
  apply BitVec.eq_of_getLsbD_eq
  intro i hi
  rw [BitVec.getLsbD_and, BitVec.getLsbD_or, hmask i hi]
  by_cases hlow : i < n
  · simp [hbase i hlow, Nat.not_le.mpr hlow]
  · simp [hbits i (Nat.not_lt.mp hlow), Nat.not_lt.mp hlow]

/-- The bits of the address that are kept of the ones. -/
theorem keep_size {n : ℕ} (hmask : ∀ i < 32, mask.getLsbD i = decide (n ≤ i))
    (hbits : ∀ i, n ≤ i → bits.getLsbD i = false) (hw : ∀ i < n, w.getLsbD i = false)
    (hsub : ∀ i, base.getLsbD i = true → w.getLsbD i = true) :
    ((base ||| bits) &&& ~~~w ||| w) &&& mask = w := by
  apply BitVec.eq_of_getLsbD_eq
  intro i hi
  simp only [BitVec.getLsbD_and, BitVec.getLsbD_or, BitVec.getLsbD_not, hmask i hi, hi, decide_true,
    Bool.true_and]
  by_cases hlow : i < n
  · simp [hw i hlow, Nat.not_le.mpr hlow]
  · cases hbase : base.getLsbD i with
    | false => simp [hbits i (Nat.not_lt.mp hlow), Nat.not_lt.mp hlow]
    | true => simp [hsub i hbase, Nat.not_lt.mp hlow]

/-- The writable bits of a window of a size. -/
theorem getLsbD_allOnes_shiftLeft {n i : ℕ} (hi : i < n) :
    (BitVec.allOnes n <<< log).getLsbD i = decide (log ≤ i) := by
  rw [BitVec.getLsbD_shiftLeft, BitVec.getLsbD_allOnes]
  have hlt : i - log < n := by omega
  by_cases hle : log ≤ i
  · simp [hi, hlt, hle, Nat.not_lt.mpr hle]
  · simp [hle, Nat.not_le.mp hle]

/-- The size that is calculated from the writable bits. -/
theorem not_allOnes_shiftLeft (n log : ℕ) :
    ~~~(BitVec.allOnes n <<< log) + 1 = BitVec.twoPow n log := by
  change ~~~(BitVec.allOnes n <<< log) + 1#n = _
  rw [← BitVec.neg_eq_not_add, BitVec.shiftLeft_eq_mul_twoPow, ← BitVec.neg_one_eq_allOnes,
    BitVec.neg_mul, BitVec.neg_neg, BitVec.one_mul]

/-! ### Writing and restoring -/

theorem readSize_eq (writable cfg : ConfigSpace) (regOff : ℕ) :
    readSize writable cfg regOff = cfg regOff &&& ~~~writable regOff ||| writable regOff := by
  unfold readSize configWrite
  rw [Function.update_self]
  congr 1
  exact BitVec.allOnes_and

/-- A register that has been restored is as before. -/
theorem restore_same (writable cfg : ConfigSpace) (regOff : ℕ) :
    restore writable cfg regOff (cfg regOff) = cfg := by
  unfold restore configWrite
  rw [Function.update_idem, Function.update_self]
  have hold : (cfg regOff &&& ~~~writable regOff ||| 0xffffffff &&& writable regOff) &&&
      ~~~writable regOff ||| cfg regOff &&& writable regOff = cfg regOff := by
    apply BitVec.eq_of_getLsbD_eq
    intro i hi
    simp only [BitVec.getLsbD_and, BitVec.getLsbD_or, BitVec.getLsbD_not, hi, decide_true,
      Bool.true_and]
    cases cfg regOff |>.getLsbD i <;> cases writable regOff |>.getLsbD i <;> simp
  rw [hold]
  exact Function.update_eq_self _ _

/-! ### What is read of a register -/

/-- The lower bits of the register of a memory window. -/
def memBits (wide prefetch : Bool) : BitVec 32 :=
  (if wide then type64bit else 0) ||| prefetchBits prefetch

theorem memBits_false (prefetch : Bool) : memBits false prefetch = prefetchBits prefetch := by
  cases prefetch <;> decide

theorem getLsbD_memBits (wide prefetch : Bool) :
    (∀ i, 4 ≤ i → (memBits wide prefetch).getLsbD i = false) ∧
      (memBits wide prefetch).getLsbD 0 = false ∧ (memBits wide prefetch).getLsbD 1 = false ∧
      (memBits wide prefetch).getLsbD 2 = wide ∧ (memBits wide prefetch).getLsbD 3 = prefetch := by
  refine ⟨fun i hi => ?_, ?_⟩
  · by_cases hlt : i < 32
    · have hall : ∀ i < 32, 4 ≤ i → (memBits wide prefetch).getLsbD i = false := by
        cases wide <;> cases prefetch <;> decide
      exact hall i hlt hi
    · exact BitVec.getLsbD_of_ge _ _ (Nat.not_lt.mp hlt)
  · cases wide <;> cases prefetch <;> decide

/-- Of the register of an I/O window. A base whose bit 2 is set has the type of a 64-bit window. -/
theorem readLow_io (regOff : ℕ) (entry : PciBar) (hlow : ∀ i < 2, base.getLsbD i = false) :
    readLow regOff (base ||| ioSpace) entry =
      { entry with
        barOffset := regOff, barType := if base.getLsbD 2 then .bar64 else .bar32
        barMapping := .io, barBaseLow := base, barBaseHigh := 0 } := by
  have hbit : ∀ i < 32, ioSpace.getLsbD i = decide (i = 0) := by decide
  have hzero : (base ||| ioSpace).getLsbD 0 = true := by
    rw [BitVec.getLsbD_or, hbit 0 (by decide)]
    simp
  have hone : (base ||| ioSpace).getLsbD 1 = false := by
    rw [BitVec.getLsbD_or, hbit 1 (by decide), hlow 1 (by decide)]
    rfl
  have htwo : (base ||| ioSpace).getLsbD 2 = base.getLsbD 2 := by
    rw [BitVec.getLsbD_or, hbit 2 (by decide)]
    simp
  have hkeep : (base ||| ioSpace) &&& ioBaseMask = base := by
    refine keep_base getLsbD_ioBaseMask hlow fun i hi => ?_
    by_cases hlt : i < 32
    · rw [hbit i hlt]
      exact decide_eq_false (by omega)
    · exact BitVec.getLsbD_of_ge _ _ (Nat.not_lt.mp hlt)
  unfold readLow
  dsimp only
  rw [barType_eq hone, htwo, if_pos (and_ioSpace_ne_zero_iff.mpr hzero), hkeep]

/-- Of the register of a memory window. -/
theorem readLow_mem (regOff : ℕ) (entry : PciBar) (wide prefetch : Bool)
    (hlow : ∀ i < 4, base.getLsbD i = false) :
    readLow regOff (base ||| memBits wide prefetch) entry =
      { entry with
        barOffset := regOff, barType := if wide then .bar64 else .bar32, barMapping := .memory
        isPrefetchable := prefetch, barBaseLow := base, barBaseHigh := 0 } := by
  obtain ⟨hhigh, hzero, hone, htwo, hthree⟩ := getLsbD_memBits wide prefetch
  have hor : ∀ i < 4, (base ||| memBits wide prefetch).getLsbD i =
      (memBits wide prefetch).getLsbD i := by
    intro i hi
    rw [BitVec.getLsbD_or, hlow i hi, Bool.false_or]
  have hio : ¬ ((base ||| memBits wide prefetch) &&& ioSpace ≠ 0) := by
    rw [and_ioSpace_ne_zero_iff, hor 0 (by decide), hzero]
    exact Bool.false_ne_true
  have hprefetch : decide ((base ||| memBits wide prefetch) &&& prefetchEn ≠ 0) = prefetch := by
    rw [Bool.eq_iff_iff, decide_eq_true_iff, and_prefetchEn_ne_zero_iff, hor 3 (by decide), hthree]
  unfold readLow
  dsimp only
  rw [barType_eq ((hor 1 (by decide)).trans hone), hor 2 (by decide), htwo, if_neg hio, hprefetch,
    keep_base getLsbD_memBaseMask hlow hhigh]

/-! ### Windows with one register -/

/-- The base of a window with one register. -/
theorem baseIs_low {entry : PciBar} (haddr : entry.barBaseAddr =
      (0 : BitVec 32).setWidth 64 <<< 32 ||| base.setWidth 64) (hlow : entry.barBaseLow = base)
    (hhigh : entry.barBaseHigh = 0) : BaseIs (base.setWidth 64) entry := by
  refine ⟨?_, ?_, ?_⟩
  · rw [haddr]
    simp
  · rw [hlow]
    simp
  · rw [hhigh]
    apply BitVec.eq_of_getLsbD_eq
    intro i hi
    rw [BitVec.getLsbD_setWidth, BitVec.getLsbD_ushiftRight, BitVec.getLsbD_setWidth,
      BitVec.getLsbD_of_ge base _ (by omega)]
    simp

/-- A register with a writable bit keeps one of the ones. -/
theorem readSize_ne_zero {i : ℕ} (hbit : (writable regOff).getLsbD i = true) :
    readSize writable cfg regOff ≠ 0 := by
  intro hzero
  have hor := congrArg (fun x => x.getLsbD i) ((readSize_eq writable cfg regOff).symm.trans hzero)
  rw [BitVec.getLsbD_or, hbit, Bool.or_true] at hor
  simp at hor

/-- The entry of a window with one register. -/
theorem size32_found (entry : PciBar) (hsize : readSize writable cfg (barBaseAddrReg barIndex) ≠ 0)
    {tmpBaseLow : BitVec 32} (htmp : tmpBaseLow = cfg (barBaseAddrReg barIndex)) :
    size32 writable cfg barIndex tmpBaseLow entry =
      ⟨barIndex, cfg, { entry with
        barSizeLow := ~~~(readSize writable cfg (barBaseAddrReg barIndex) &&&
          if entry.barMapping = .memory then memBaseMask else ioBaseMask) + 1
        barSizeHigh := 0
        barSize := (~~~(readSize writable cfg (barBaseAddrReg barIndex) &&&
          if entry.barMapping = .memory then memBaseMask else ioBaseMask) + 1).setWidth 64 },
        true⟩ := by
  unfold size32
  dsimp only
  rw [if_neg hsize, htmp, restore_same]

/-- What a turn enters for a window with one register. -/
structure Entered32 (base : BitVec 32) (barIndex : ℕ) (barMapping : BarMapping) (size : BitVec 32)
    (entry' : PciBar) : Prop where
  barOffset : entry'.barOffset = barBaseAddrReg barIndex
  barType : entry'.barType = .bar32
  barMapping : entry'.barMapping = barMapping
  base : BaseIs (base.setWidth 64) entry'
  sizeLow : entry'.barSizeLow = size
  sizeHigh : entry'.barSizeHigh = 0
  size : entry'.barSize = size.setWidth 64

/-- An I/O window whose base has bit 2 reset. -/
theorem detectBar_io (entry : PciBar)
    (hcfg : cfg (barBaseAddrReg barIndex) = base ||| ioSpace)
    (hwritable : writable (barBaseAddrReg barIndex) = w) (hlow : ∀ i < 2, base.getLsbD i = false)
    (hbit : base.getLsbD 2 = false) (hw : ∀ i < 2, w.getLsbD i = false)
    (hsub : ∀ i, base.getLsbD i = true → w.getLsbD i = true) {i : ℕ} (hi : w.getLsbD i = true) :
    ∃ entry', detectBar writable cfg barIndex entry = ⟨barIndex, cfg, entry', true⟩ ∧
      Entered32 base barIndex .io (~~~w + 1) entry' := by
  have hbase : readBase cfg barIndex entry =
      { entry with
        barOffset := barBaseAddrReg barIndex, barType := .bar32, barMapping := .io
        barBaseLow := base, barBaseHigh := 0
        barBaseAddr := (0 : BitVec 32).setWidth 64 <<< 32 ||| base.setWidth 64
        barSizeHigh := 0 } := by
    unfold readBase
    rw [hcfg, readLow_io _ _ hlow, hbit]
    rfl
  have hsize : readSize writable cfg (barBaseAddrReg barIndex) &&& ioBaseMask = w := by
    have hone : ∀ i, 2 ≤ i → ioSpace.getLsbD i = false := by
      intro i hi
      by_cases hlt : i < 32
      · have hall : ∀ i < 32, 2 ≤ i → ioSpace.getLsbD i = false := by decide
        exact hall i hlt hi
      · exact BitVec.getLsbD_of_ge _ _ (Nat.not_lt.mp hlt)
    rw [readSize_eq, hcfg, hwritable]
    exact keep_size getLsbD_ioBaseMask hone hw hsub
  have hturn : detectBar writable cfg barIndex entry =
      size32 writable cfg barIndex (cfg (barBaseAddrReg barIndex))
        (readBase cfg barIndex entry) := by
    unfold detectBar
    rw [hbase]
    rfl
  rw [hturn, size32_found _ (readSize_ne_zero (hwritable ▸ hi)) rfl, hbase]
  refine ⟨_, rfl, rfl, rfl, rfl, baseIs_low rfl rfl rfl, ?_, rfl, ?_⟩
  · rw [if_neg nofun, hsize]
  · rw [if_neg nofun, hsize]

/-- A 32-bit memory window. -/
theorem detectBar_mem32 (entry : PciBar)
    (hcfg : cfg (barBaseAddrReg barIndex) = base ||| prefetchBits prefetch)
    (hwritable : writable (barBaseAddrReg barIndex) = w) (hlow : ∀ i < 4, base.getLsbD i = false)
    (hw : ∀ i < 4, w.getLsbD i = false)
    (hsub : ∀ i, base.getLsbD i = true → w.getLsbD i = true) {i : ℕ} (hi : w.getLsbD i = true) :
    ∃ entry', detectBar writable cfg barIndex entry = ⟨barIndex, cfg, entry', true⟩ ∧
      Entered32 base barIndex .memory (~~~w + 1) entry' ∧ entry'.isPrefetchable = prefetch := by
  rw [← memBits_false] at hcfg
  have hbase : readBase cfg barIndex entry =
      { entry with
        barOffset := barBaseAddrReg barIndex, barType := .bar32, barMapping := .memory
        isPrefetchable := prefetch, barBaseLow := base, barBaseHigh := 0
        barBaseAddr := (0 : BitVec 32).setWidth 64 <<< 32 ||| base.setWidth 64
        barSizeHigh := 0 } := by
    unfold readBase
    rw [hcfg, readLow_mem _ _ false prefetch hlow]
    rfl
  have hsize : readSize writable cfg (barBaseAddrReg barIndex) &&& memBaseMask = w := by
    rw [readSize_eq, hcfg, hwritable]
    exact keep_size getLsbD_memBaseMask (getLsbD_memBits false prefetch).1 hw hsub
  have hturn : detectBar writable cfg barIndex entry =
      size32 writable cfg barIndex (cfg (barBaseAddrReg barIndex))
        (readBase cfg barIndex entry) := by
    unfold detectBar
    rw [hbase]
    rfl
  rw [hturn, size32_found _ (readSize_ne_zero (hwritable ▸ hi)) rfl, hbase]
  refine ⟨_, rfl, ⟨rfl, rfl, rfl, baseIs_low rfl rfl rfl, ?_, rfl, ?_⟩, rfl⟩
  · rw [if_pos rfl, hsize]
  · rw [if_pos rfl, hsize]

/-! ### Windows with two registers -/

theorem setWidth_allOnes_shiftLeft (log : ℕ) :
    (BitVec.allOnes 64 <<< log).setWidth 32 = BitVec.allOnes 32 <<< log := by
  apply BitVec.eq_of_getLsbD_eq
  intro i hi
  rw [BitVec.getLsbD_setWidth, getLsbD_allOnes_shiftLeft (by omega), getLsbD_allOnes_shiftLeft hi,
    decide_eq_true hi, Bool.true_and]

theorem setWidth_twoPow (log : ℕ) : (BitVec.twoPow 64 log).setWidth 32 = BitVec.twoPow 32 log := by
  apply BitVec.eq_of_getLsbD_eq
  intro i hi
  rw [BitVec.getLsbD_setWidth, BitVec.getLsbD_twoPow, BitVec.getLsbD_twoPow]
  by_cases hlog : log = i
  · subst hlog
    simp [hi, Nat.lt_trans hi (by decide : 32 < 64)]
  · simp [hlog]

/-- The base of a window with two registers. -/
theorem base_of_halves (base : BitVec 64) :
    ((base >>> 32).setWidth 32).setWidth 64 <<< 32 ||| (base.setWidth 32).setWidth 64 = base := by
  apply BitVec.eq_of_getLsbD_eq
  intro i hi
  simp only [BitVec.getLsbD_or, BitVec.getLsbD_shiftLeft, BitVec.getLsbD_setWidth,
    BitVec.getLsbD_ushiftRight, hi, decide_true, Bool.true_and]
  by_cases hlow : i < 32
  · simp [hlow]
  · have h₁ : i - 32 < 32 := by omega
    have h₂ : i - 32 < 64 := by omega
    have h₃ : 32 + (i - 32) = i := by omega
    simp [hlow, h₁, h₂, h₃]

/-- A 64-bit memory window. Its whole size is not entered. -/
theorem detectBar_mem64 (entry : PciBar) {base : BitVec 64}
    (hform : (Bar.mem64 base log prefetch).WellFormed)
    (hlaid : (Bar.mem64 base log prefetch).LaidOut writable cfg barIndex) :
    ∃ entry', detectBar writable cfg barIndex entry = ⟨barIndex + 1, cfg, entry', true⟩ ∧
      entry'.barOffset = barBaseAddrReg barIndex ∧ entry'.barType = .bar64 ∧
      entry'.barMapping = .memory ∧ entry'.isPrefetchable = prefetch ∧ BaseIs base entry' ∧
      entry'.barSizeLow = (BitVec.twoPow 64 log).setWidth 32 ∧ entry'.barSizeHigh = 0 ∧
      entry'.barSize = entry.barSize := by
  obtain ⟨hlog, hlt, hdvd⟩ := hform
  obtain ⟨hcfg, hwritable, hcfgHigh, hwritableHigh⟩ := hlaid
  rw [setWidth_allOnes_shiftLeft] at hwritable
  have hbits : type64bit ||| prefetchBits prefetch = memBits true prefetch := rfl
  rw [hbits] at hcfg
  obtain ⟨hhigh, -, -, htwo, -⟩ := getLsbD_memBits true prefetch
  have hlow : ∀ i < 4, (base.setWidth 32).getLsbD i = false := by
    intro i hi
    rw [BitVec.getLsbD_setWidth, getLsbD_of_dvd hdvd (by omega), Bool.and_false]
  have hw : ∀ i < 4, (BitVec.allOnes 32 <<< log).getLsbD i = false := by
    intro i hi
    rw [getLsbD_allOnes_shiftLeft (by omega)]
    exact decide_eq_false (by omega)
  have hsub : ∀ i, (base.setWidth 32).getLsbD i = true →
      (BitVec.allOnes 32 <<< log).getLsbD i = true := by
    intro i hi
    rw [BitVec.getLsbD_setWidth] at hi
    obtain ⟨hi32, hbit⟩ := Bool.and_eq_true_iff.mp hi
    rw [getLsbD_allOnes_shiftLeft (of_decide_eq_true hi32), decide_eq_true_iff]
    by_contra hle
    rw [getLsbD_of_dvd hdvd (Nat.not_le.mp hle)] at hbit
    cases hbit
  have hbase : readBase cfg barIndex entry =
      { entry with
        barOffset := barBaseAddrReg barIndex, barType := .bar64, barMapping := .memory
        isPrefetchable := prefetch, barBaseLow := base.setWidth 32
        barBaseHigh := (base >>> 32).setWidth 32, barBaseAddr := base, barSizeHigh := 0 } := by
    unfold readBase
    rw [hcfg, readLow_mem _ _ true prefetch hlow]
    dsimp only
    rw [if_pos (if_pos rfl), if_pos rfl, hcfgHigh]
    dsimp only
    rw [base_of_halves]
  have hsize : readSize writable cfg (barBaseAddrReg barIndex) &&& memBaseMask =
      BitVec.allOnes 32 <<< log := by
    rw [readSize_eq, hcfg, hwritable]
    exact keep_size getLsbD_memBaseMask hhigh hw hsub
  have hne : readSize writable cfg (barBaseAddrReg barIndex) ≠ 0 := by
    intro hzero
    have hor := congrArg (fun x => x.getLsbD 2) ((readSize_eq writable cfg _).symm.trans hzero)
    have hbit : (base.setWidth 32 ||| memBits true prefetch).getLsbD 2 = true := by
      rw [BitVec.getLsbD_or, htwo, Bool.or_true]
    rw [hcfg, BitVec.getLsbD_or, BitVec.getLsbD_and, hbit, BitVec.getLsbD_not] at hor
    cases hwbit : (writable (barBaseAddrReg barIndex)).getLsbD 2 with
    | false =>
      rw [hwbit] at hor
      cases hor
    | true =>
      rw [hwbit] at hor
      cases hor
  have hrestoreHigh := restore_same writable cfg (barBaseAddrReg (barIndex + 1))
  rw [hcfgHigh] at hrestoreHigh
  have hturn : detectBar writable cfg barIndex entry =
      size64 writable cfg (barIndex + 1) (cfg (barBaseAddrReg barIndex))
        ((base >>> 32).setWidth 32) (readBase cfg barIndex entry) := by
    unfold detectBar
    rw [hbase]
    rfl
  refine ⟨{ readBase cfg barIndex entry with
    barSizeLow := (BitVec.twoPow 64 log).setWidth 32, barSizeHigh := 0 }, ?_, ?_⟩
  · rw [hturn]
    unfold size64
    dsimp only
    rw [Nat.add_sub_cancel, restore_same, hrestoreHigh, if_neg fun h => hne h.1, hsize,
      not_allOnes_shiftLeft, setWidth_twoPow]
  · rw [hbase]
    exact ⟨rfl, rfl, rfl, rfl, ⟨rfl, rfl, rfl⟩, rfl, rfl, rfl⟩

/-- A register without a window. -/
theorem detectBar_unimplemented (entry : PciBar)
    (hlaid : Bar.unimplemented.LaidOut writable cfg barIndex) :
    ∃ entry', detectBar writable cfg barIndex entry = ⟨barIndex, cfg, entry', false⟩ ∧
      entry'.barSize = entry.barSize := by
  obtain ⟨hcfg, hwritable⟩ := hlaid
  have hsize : readSize writable cfg (barBaseAddrReg barIndex) = 0 := by
    rw [readSize_eq, hcfg, hwritable]
    decide
  have hkeep : configWrite writable cfg (barBaseAddrReg barIndex) 0xffffffff = cfg := by
    unfold configWrite
    rw [hcfg, hwritable]
    exact Function.update_eq_self_iff.mpr hcfg.symm
  have hbase : (readBase cfg barIndex entry).barType = .bar32 ∧
      (readBase cfg barIndex entry).barSize = entry.barSize := by
    unfold readBase
    rw [hcfg]
    exact ⟨rfl, rfl⟩
  have hturn : detectBar writable cfg barIndex entry =
      size32 writable cfg barIndex (cfg (barBaseAddrReg barIndex))
        (readBase cfg barIndex entry) := by
    unfold detectBar
    dsimp only
    rw [hbase.1]
    rfl
  refine ⟨{ readBase cfg barIndex entry with barSizeLow := 0 }, ?_, hbase.2⟩
  rw [hturn]
  unfold size32
  dsimp only
  rw [hsize, if_pos rfl, hkeep]

/-! ### Any turn -/

/-- A turn does not go back, and its entry is for the register at which it begins. -/
theorem detectBar_frame (writable cfg : ConfigSpace) (barIndex : ℕ) (entry : PciBar) :
    barIndex ≤ (detectBar writable cfg barIndex entry).barIndex ∧
      (detectBar writable cfg barIndex entry).bar.barOffset = barBaseAddrReg barIndex := by
  have hoffset : (readBase cfg barIndex entry).barOffset = barBaseAddrReg barIndex := by
    unfold readBase readLow
    dsimp only
    split_ifs <;> rfl
  unfold detectBar
  dsimp only
  by_cases hwide : (readBase cfg barIndex entry).barType = .bar64
  · rw [if_pos hwide]
    by_cases hmemory : (readBase cfg barIndex entry).barMapping = .memory
    · rw [if_pos ⟨hwide, hmemory⟩]
      unfold size64
      dsimp only
      split_ifs
      · exact ⟨le_rfl, hoffset⟩
      · exact ⟨Nat.le_succ _, hoffset⟩
    · rw [if_neg fun h => hmemory h.2]
      unfold size32
      dsimp only
      split_ifs
      all_goals exact ⟨Nat.le_succ _, hoffset⟩
  · rw [if_neg hwide, if_neg fun h => hwide h.1]
    unfold size32
    dsimp only
    split_ifs
    all_goals exact ⟨le_rfl, hoffset⟩

/-- An I/O window whose base has bit 2 set is taken for a 64-bit one. The next register is skipped,
whatever it is. -/
theorem detectBar_io_wide (entry : PciBar)
    (hcfg : cfg (barBaseAddrReg barIndex) = base ||| ioSpace)
    (hlow : ∀ i < 2, base.getLsbD i = false)
    (hbit : base.getLsbD 2 = true) :
    (detectBar writable cfg barIndex entry).barIndex = barIndex + 1 ∧
      (detectBar writable cfg barIndex entry).bar.barType = .bar64 ∧
      (detectBar writable cfg barIndex entry).bar.barMapping = .io := by
  have hbase : (readBase cfg barIndex entry).barType = .bar64 ∧
      (readBase cfg barIndex entry).barMapping = .io := by
    unfold readBase
    rw [hcfg, readLow_io _ _ hlow, hbit]
    exact ⟨rfl, rfl⟩
  have hturn : detectBar writable cfg barIndex entry = size32 writable cfg (barIndex + 1)
      (cfg (barBaseAddrReg barIndex)) (readBase cfg barIndex entry) := by
    unfold detectBar
    dsimp only
    rw [hbase.1, hbase.2]
    rfl
  rw [hturn]
  unfold size32
  dsimp only
  split_ifs
  all_goals exact ⟨rfl, hbase.1, hbase.2⟩

end Mv88fxx81.Pci
