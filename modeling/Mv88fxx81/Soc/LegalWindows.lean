import Mv88fxx81.Soc.CpuWindows

/-!
# Windows that can be opened

A window can be written to the registers when its size is a power of two from 64 KB
on and its base a multiple of the size. It is refused when it overlaps the window of
another target, but also when the window of another target cannot be read or reaches
beyond the last address.
-/

namespace Mv88fxx81.Soc

variable {r : CpuRegs} {target : Target} {win win' : AddrWin}

/-! ### Sizes and bases -/

/-- The size is 64 KB times a power of two, and the base is a multiple of the size. -/
def AddrWin.WellFormed (win : AddrWin) : Prop :=
  (∃ k, win.size.toNat = 65536 * 2 ^ k) ∧ win.size.toNat ∣ win.baseLow.toNat

/-- A size of 64 KB times a power of two is a power of two. -/
theorem size_eq_two_pow (k : ℕ) : 65536 * 2 ^ k = 2 ^ (16 + k) := by
  rw [pow_add]
  rfl

/-- A number from which nothing is left is one less than a power of two. -/
theorem dropOnes_eq_zero {fuel : ℕ} {number : BitVec 32} (hones : dropOnes fuel number = 0) :
    ∃ k, number.toNat + 1 = 2 ^ k := by
  induction fuel generalizing number with
  | zero =>
    unfold dropOnes at hones
    rw [hones]
    exact ⟨0, rfl⟩
  | succ fuel ih =>
    unfold dropOnes at hones
    by_cases hbit : number &&& 1 = 1
    · rw [if_pos hbit] at hones
      obtain ⟨k, hk⟩ := ih hones
      rw [BitVec.toNat_ushiftRight, Nat.shiftRight_eq_div_pow] at hk
      have hodd : number.toNat % 2 = 1 := by
        have hand := congrArg BitVec.toNat hbit
        rw [BitVec.toNat_and] at hand
        change number.toNat &&& (2 ^ 1 - 1) = 1 at hand
        rwa [Nat.and_two_pow_sub_one_eq_mod] at hand
      refine ⟨k + 1, ?_⟩
      rw [pow_succ]
      omega
    · rw [if_neg hbit] at hones
      rw [hones]
      exact ⟨0, rfl⟩

/-- An address is aligned to a power of two when it is a multiple of it. -/
theorem isNotAlign_two_pow {base size : BitVec 32} {m : ℕ} (hsize : size.toNat = 2 ^ m) :
    isNotAlign base size = false ↔ size.toNat ∣ base.toNat := by
  have hpos : 0 < 2 ^ m := Nat.two_pow_pos m
  have hmask : (size - 1).toNat = 2 ^ m - 1 := by
    have hlt := size.isLt
    rw [BitVec.toNat_sub]
    change (2 ^ 32 - 1 + size.toNat) % 2 ^ 32 = _
    omega
  have hand : (base &&& (size - 1)).toNat = base.toNat % 2 ^ m := by
    rw [BitVec.toNat_and, hmask, Nat.and_two_pow_sub_one_eq_mod]
  simp only [isNotAlign, ne_eq, decide_eq_false_iff_not, not_not]
  rw [hsize, Nat.dvd_iff_mod_eq_zero, ← hand]
  constructor
  · intro hzero
    rw [hzero]
    rfl
  · intro hzero
    exact BitVec.eq_of_toNat_eq hzero

/-- A size of 64 KB times a power of two fits into its register. -/
theorem ctrlSizeToReg_two_pow {size : BitVec 32} {k : ℕ} (hsize : size.toNat = 65536 * 2 ^ k) :
    ctrlSizeToReg size sizeAlignment ≠ noSize := by
  have hlt := size.isLt
  have hk : k < 16 := by
    by_contra hle
    have hpow : 2 ^ 16 ≤ 2 ^ k := Nat.pow_le_pow_right (by decide) (Nat.le_of_not_lt hle)
    omega
  have hall : ∀ k : Fin 16, ctrlSizeToReg (BitVec.ofNat 32 (65536 * 2 ^ k.val)) sizeAlignment ≠
      noSize := by
    decide
  have hof : size = BitVec.ofNat 32 (65536 * 2 ^ k) := by
    rw [← hsize, BitVec.ofNat_toNat, BitVec.setWidth_eq]
  rw [hof]
  exact hall ⟨k, hk⟩

/-- The windows that are written to the registers. -/
theorem wellFormed_iff :
    win.WellFormed ↔ isNotAlign win.baseLow win.size = false ∧
      ∃ regs, mvCtrlAddrDecToReg win = some regs := by
  unfold mvCtrlAddrDecToReg
  dsimp only
  constructor
  · rintro ⟨⟨k, hk⟩, hdvd⟩
    have hpow : win.size.toNat = 2 ^ (16 + k) := hk.trans (size_eq_two_pow k)
    refine ⟨(isNotAlign_two_pow hpow).mpr hdvd, ?_⟩
    rw [if_neg (ctrlSizeToReg_two_pow hk)]
    exact ⟨_, rfl⟩
  · rintro ⟨halign, regs, hregs⟩
    have hsize : ctrlSizeToReg win.size sizeAlignment ≠ noSize := by
      intro hno
      rw [if_pos hno] at hregs
      cases hregs
    obtain ⟨hreg, -, hones⟩ := ctrlSizeToReg_spec hsize
    obtain ⟨k, hk⟩ := dropOnes_eq_zero hones
    have hk' : win.size.toNat = 65536 * 2 ^ k := by
      rw [hreg, hk, Nat.mul_comm]
    have hpow : win.size.toNat = 2 ^ (16 + k) := hk'.trans (size_eq_two_pow k)
    exact ⟨⟨k, hk'⟩, (isNotAlign_two_pow hpow).mp halign⟩

/-- The window ends at the last address or before it. -/
def AddrWin.Fits (win : AddrWin) : Prop := win.baseLow.toNat + win.bytes ≤ 2 ^ 32

theorem AddrWin.WellFormed.fits (h : win.WellFormed) : win.Fits := by
  obtain ⟨⟨k, hk⟩, base, hbase⟩ := h
  have hpos : 0 < 2 ^ k := Nat.two_pow_pos k
  have hltSize := win.size.isLt
  have hltBase := win.baseLow.isLt
  have hbytes : win.bytes = win.size.toNat := by
    unfold AddrWin.bytes
    rw [if_neg]
    intro hzero
    rw [hzero] at hk
    have hzero' : (0 : ℕ) = 65536 * 2 ^ k := hk
    omega
  have hpow : win.size.toNat = 2 ^ (16 + k) := hk.trans (size_eq_two_pow k)
  have hle : 16 + k ≤ 32 := by
    by_contra hgt
    have hpow' : 2 ^ 32 ≤ 2 ^ (16 + k) := Nat.pow_le_pow_right (by decide) (by omega)
    omega
  obtain ⟨c, hc⟩ : win.size.toNat ∣ 2 ^ 32 := by
    rw [hpow]
    exact Nat.pow_dvd_pow 2 hle
  unfold AddrWin.Fits
  rw [hbytes, hc]
  rw [hc, hbase] at hltBase
  have hlt := Nat.lt_of_mul_lt_mul_left hltBase
  calc win.baseLow.toNat + win.size.toNat = win.size.toNat * (base + 1) := by
        rw [hbase, Nat.mul_succ]
    _ ≤ win.size.toNat * c := Nat.mul_le_mul_left _ hlt

/-! ### The test against the windows of the other targets -/

/-- Windows that are apart and end at the last address or before it pass the test. -/
theorem ctrlWinOverlapTest_eq_false (hfits : win.Fits) (hfits' : win'.Fits)
    (hdisj : Disjoint win.addresses win'.addresses) : ctrlWinOverlapTest win win' = false := by
  have hnot : ∀ w : AddrWin, w.Fits → ¬ 0xffffffff - w.baseLow < w.size - 1 := by
    intro w hw hlt
    have hpos := w.bytes_pos
    have hbase := w.baseLow.isLt
    unfold AddrWin.Fits at hw
    rw [BitVec.lt_def, w.toNat_size_sub_one, BitVec.toNat_sub] at hlt
    change (2 ^ 32 - w.baseLow.toNat + 0xffffffff) % 2 ^ 32 < _ at hlt
    omega
  have hpos := win.bytes_pos
  have hpos' := win'.bytes_pos
  unfold ctrlWinOverlapTest
  rw [if_neg (not_or.mpr ⟨hnot win hfits, hnot win' hfits'⟩)]
  simp only [decide_eq_false_iff_not, BitVec.le_def, win.toNat_top hfits, win'.toNat_top hfits']
  unfold AddrWin.addresses at hdisj
  rw [Set.Ico_disjoint_Ico] at hdisj
  omega

/-- The window shares no address with an open window of another target. -/
def Clear (r : CpuRegs) (target : Target) (win : AddrWin) : Prop :=
  ∀ target' decWin, target' ≠ target → mvCpuIfTargetWinGet r target' = .ok decWin →
    decWin.enable = true → Disjoint win.addresses decWin.addrWin.addresses

/-- The windows of the other targets can be read, and the open ones end at the last address or
before it. -/
def Comparable (r : CpuRegs) (target : Target) : Prop :=
  ∀ target', target' ≠ target →
    (∀ status, mvCpuIfTargetWinGet r target' = .error status → status = .noSuch) ∧
    ∀ decWin, mvCpuIfTargetWinGet r target' = .ok decWin → decWin.enable = true →
      decWin.addrWin.Fits

/-- The test of one target. -/
theorem cpuTargetWinOverlap_eq_false_iff :
    cpuTargetWinOverlap r target win = false ↔ ∀ target', target' ≠ target →
      (∀ status, mvCpuIfTargetWinGet r target' = .error status → status = .noSuch) ∧
      ∀ decWin, mvCpuIfTargetWinGet r target' = .ok decWin → decWin.enable = true →
        ctrlWinOverlapTest win decWin.addrWin = false := by
  unfold cpuTargetWinOverlap
  rw [List.any_eq_false]
  constructor
  · intro hall target' hne
    have htarget := hall target' (mem_all target')
    rw [if_neg hne] at htarget
    constructor
    · intro status hget
      rw [hget] at htarget
      cases status with
      | noSuch => rfl
      | ok => exact absurd rfl htarget
      | error => exact absurd rfl htarget
      | badParam => exact absurd rfl htarget
      | notSupported => exact absurd rfl htarget
    · intro decWin hget henable
      rw [hget] at htarget
      dsimp only at htarget
      rwa [henable, Bool.true_and, Bool.not_eq_true] at htarget
  · intro hall target' _
    by_cases hne : target' = target
    · rw [if_pos hne]
      exact Bool.false_ne_true
    · obtain ⟨herror, hok⟩ := hall target' hne
      rw [if_neg hne]
      cases hget : mvCpuIfTargetWinGet r target' with
      | error status =>
        rw [herror status hget]
        exact Bool.false_ne_true
      | ok decWin =>
        dsimp only
        cases henable : decWin.enable with
        | false => exact Bool.false_ne_true
        | true =>
          rw [hok decWin hget henable]
          exact Bool.false_ne_true

/-- The test lets a window pass only when the other windows can be compared with it. -/
theorem comparable_of_test (htest : cpuTargetWinOverlap r target win = false) :
    Comparable r target := by
  intro target' hne
  obtain ⟨herror, hok⟩ := cpuTargetWinOverlap_eq_false_iff.mp htest target' hne
  refine ⟨herror, fun decWin hget henable => ?_⟩
  have hpass := hok decWin hget henable
  unfold ctrlWinOverlapTest at hpass
  split_ifs at hpass with hoverflow
  exact decWin.addrWin.fits_of_not_lt (not_or.mp hoverflow).2

/-- A clear window that is well formed passes when the other windows can be compared with it. -/
theorem test_of_clear (hform : win.WellFormed) (hclear : Clear r target win)
    (hcomp : Comparable r target) : cpuTargetWinOverlap r target win = false := by
  rw [cpuTargetWinOverlap_eq_false_iff]
  intro target' hne
  obtain ⟨herror, hfits⟩ := hcomp target' hne
  refine ⟨herror, fun decWin hget henable => ?_⟩
  exact ctrlWinOverlapTest_eq_false hform.fits (hfits decWin hget henable)
    (hclear target' decWin hne hget henable)

/-- A window that passes is clear unless it lies inside the window of another target. -/
theorem clear_iff_notInside (htest : cpuTargetWinOverlap r target win = false) :
    Clear r target win ↔ NotInside r target win := by
  constructor
  · intro hclear target' decWin hne hget henable hinside
    have hdisj := hclear target' decWin hne hget henable
    have hpos := win.bytes_pos
    unfold AddrWin.Inside at hinside
    unfold AddrWin.addresses at hdisj
    rw [Set.Ico_disjoint_Ico] at hdisj
    omega
  · intro hinside target' decWin hne hget henable
    exact cpuTargetWinOverlap_disjoint htest hinside hne hget henable

end Mv88fxx81.Soc
