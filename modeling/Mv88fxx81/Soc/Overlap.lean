import Mathlib.Order.Interval.Set.Disjoint
import Mathlib.Tactic.Ring
import Mv88fxx81.Soc.AddrDec

/-!
# Overlaps of windows

The test that compares two windows finds every overlap but one: a window that lies
inside another one, with room on both sides. A window that has been written to the
registers is the one that is read back. Windows that are apart stay apart when one
is closed, or when one is opened that is apart from the others.
-/

namespace Mv88fxx81.Soc

variable {win win' : AddrWin}

/-! ### The test of two windows -/

theorem AddrWin.bytes_pos (win : AddrWin) : 0 < win.bytes := by
  unfold AddrWin.bytes
  split_ifs with hzero
  · omega
  · exact Nat.pos_of_ne_zero fun h => hzero (BitVec.eq_of_toNat_eq h)

/-- A size of zero is the one of 4 GB. -/
theorem AddrWin.toNat_size_sub_one (win : AddrWin) : (win.size - 1).toNat = win.bytes - 1 := by
  unfold AddrWin.bytes
  split_ifs with hzero
  · rw [hzero]
    rfl
  · have hlt := win.size.isLt
    have hpos : win.size.toNat ≠ 0 := fun h => hzero (BitVec.eq_of_toNat_eq h)
    rw [BitVec.toNat_sub]
    change (2 ^ 32 - 1 + win.size.toNat) % 2 ^ 32 = _
    omega

/-- The last address of a window that ends below 4 GB. -/
theorem AddrWin.toNat_top (win : AddrWin) (hfits : win.baseLow.toNat + win.bytes ≤ 2 ^ 32) :
    (win.baseLow + win.size - 1).toNat = win.baseLow.toNat + win.bytes - 1 := by
  have hpos := win.bytes_pos
  have hassoc : win.baseLow + win.size - 1 = win.baseLow + (win.size - 1) := by
    rw [BitVec.sub_eq_add_neg, BitVec.sub_eq_add_neg, BitVec.add_assoc]
  rw [hassoc, BitVec.toNat_add, win.toNat_size_sub_one]
  omega

/-- A window lies inside another one, with room on both sides. -/
def AddrWin.Inside (win win' : AddrWin) : Prop :=
  win'.baseLow.toNat < win.baseLow.toNat ∧
    win.baseLow.toNat + win.bytes < win'.baseLow.toNat + win'.bytes

instance (win win' : AddrWin) : Decidable (win.Inside win') := inferInstanceAs (Decidable (_ ∧ _))

/-- The overflow test. -/
theorem AddrWin.fits_of_not_lt (win : AddrWin) (h : ¬ 0xffffffff - win.baseLow < win.size - 1) :
    win.baseLow.toNat + win.bytes ≤ 2 ^ 32 := by
  have hpos := win.bytes_pos
  have hlt := win.baseLow.isLt
  rw [BitVec.lt_def, win.toNat_size_sub_one, BitVec.toNat_sub] at h
  change ¬ (2 ^ 32 - win.baseLow.toNat + 0xffffffff) % 2 ^ 32 < _ at h
  omega

/-- Windows that the test does not find, and that are not inside each other, are apart. -/
theorem ctrlWinOverlapTest_disjoint (htest : ctrlWinOverlapTest win win' = false)
    (hinside : ¬ win.Inside win') : Disjoint win.addresses win'.addresses := by
  unfold ctrlWinOverlapTest at htest
  split_ifs at htest with hoverflow
  rw [not_or] at hoverflow
  have hfits := win.fits_of_not_lt hoverflow.1
  have hfits' := win'.fits_of_not_lt hoverflow.2
  have hpos := win.bytes_pos
  have hpos' := win'.bytes_pos
  simp only [decide_eq_false_iff_not, BitVec.le_def, win.toNat_top hfits, win'.toNat_top hfits']
    at htest
  unfold AddrWin.Inside at hinside
  unfold AddrWin.addresses
  rw [Set.Ico_disjoint_Ico]
  omega

/-! ### Sizes in the registers -/

theorem shiftByOnes_sizeAlignment (shift : BitVec 32 → BitVec 32) (size : BitVec 32) :
    shiftByOnes shift 32 size (sizeAlignment - 1) = (shift^[16] size, 0) := rfl

theorem toNat_shiftRight_iterate (size : BitVec 32) (n : ℕ) :
    ((· >>> 1 : BitVec 32 → BitVec 32)^[n] size).toNat = size.toNat / 2 ^ n := by
  induction n generalizing size with
  | zero => simp
  | succ n ih =>
    rw [Function.iterate_succ_apply, ih, BitVec.toNat_ushiftRight, Nat.shiftRight_eq_div_pow,
      Nat.div_div_eq_div_mul, ← pow_add, Nat.add_comm 1 n]

theorem toNat_shiftLeft_iterate (size : BitVec 32) (n : ℕ) :
    ((· <<< 1 : BitVec 32 → BitVec 32)^[n] size).toNat = size.toNat * 2 ^ n % 2 ^ 32 := by
  induction n generalizing size with
  | zero => simp [Nat.mod_eq_of_lt size.isLt]
  | succ n ih =>
    rw [Function.iterate_succ_apply, ih, BitVec.toNat_shiftLeft, Nat.shiftLeft_eq, pow_succ]
    rw [Nat.mod_mul_mod]
    congr 1
    ring

/-- What is known about a size that fits into its register. -/
theorem ctrlSizeToReg_spec {size : BitVec 32} (h : ctrlSizeToReg size sizeAlignment ≠ noSize) :
    size.toNat = ((ctrlSizeToReg size sizeAlignment).toNat + 1) * 65536 ∧
      (ctrlSizeToReg size sizeAlignment).toNat < 65536 ∧
      dropOnes 32 (ctrlSizeToReg size sizeAlignment) = 0 := by
  unfold ctrlSizeToReg at h ⊢
  rw [shiftByOnes_sizeAlignment] at h ⊢
  by_cases hzero : size = 0 ∨ isNotAlign size sizeAlignment = true
  · rw [if_pos hzero] at h
    exact absurd rfl h
  · rw [if_neg hzero] at h ⊢
    rw [not_or] at hzero
    dsimp only at h ⊢
    rw [if_neg (not_not.mpr rfl)] at h ⊢
    by_cases hones : dropOnes 32 ((· >>> 1 : BitVec 32 → BitVec 32)^[16] size - 1) ≠ 0
    · rw [if_pos hones] at h
      exact absurd rfl h
    · rw [if_neg hones] at h ⊢
      have halign : size.toNat % 65536 = 0 := by
        have hand := hzero.2
        simp only [isNotAlign, ne_eq, decide_eq_true_eq, not_not] at hand
        have hmask := congrArg BitVec.toNat hand
        rw [BitVec.toNat_and] at hmask
        change size.toNat &&& (2 ^ 16 - 1) = 0 at hmask
        rwa [Nat.and_two_pow_sub_one_eq_mod] at hmask
      have hpos : size.toNat ≠ 0 := fun h => hzero.1 (BitVec.eq_of_toNat_eq h)
      have hlt := size.isLt
      have hreg : ((· >>> 1 : BitVec 32 → BitVec 32)^[16] size - 1).toNat =
        size.toNat / 65536 - 1 := by
        rw [BitVec.toNat_sub, toNat_shiftRight_iterate]
        change (2 ^ 32 - 1 + size.toNat / 65536) % 2 ^ 32 = _
        omega
      rw [hreg]
      refine ⟨by omega, by omega, not_not.mp hones⟩

/-- The size that is read back. -/
theorem toNat_ctrlRegToSize {regSize : BitVec 32} (hones : dropOnes 32 regSize = 0) :
    (ctrlRegToSize regSize sizeAlignment).toNat = (regSize.toNat + 1) * 65536 % 2 ^ 32 := by
  have halign : dropOnes 32 (sizeAlignment - 1) = 0 := rfl
  unfold ctrlRegToSize
  rw [if_neg (not_not.mpr hones), if_neg (not_not.mpr halign), shiftByOnes_sizeAlignment]
  dsimp only
  rw [toNat_shiftLeft_iterate, BitVec.toNat_add]
  change (regSize.toNat + 1) % 2 ^ 32 * 2 ^ 16 % 2 ^ 32 = _
  omega

/-- A base that is aligned to a size that fits into its register. -/
theorem toNat_base_mod {base size : BitVec 32} (hsize : size.toNat % 65536 = 0)
    (halign : isNotAlign base size = false) : base.toNat % 65536 = 0 := by
  have hlt := size.isLt
  have hones : (size - 1).toNat % 2 ^ 16 = 2 ^ 16 - 1 := by
    rw [BitVec.toNat_sub]
    change (2 ^ 32 - 1 + size.toNat) % 2 ^ 32 % 2 ^ 16 = _
    omega
  simp only [isNotAlign, ne_eq, decide_eq_false_iff_not, not_not] at halign
  have hmask := congrArg (fun b : BitVec 32 => b.toNat % 2 ^ 16) halign
  rw [BitVec.toNat_and, Nat.and_mod_two_pow, hones, Nat.and_two_pow_sub_one_eq_mod,
    Nat.mod_mod] at hmask
  exact hmask

/-- A window that has been written to the registers is read back. -/
theorem mvCtrlRegToAddrDec_of_written {regs : DecRegs}
    (halign : isNotAlign win.baseLow win.size = false)
    (hregs : mvCtrlAddrDecToReg win = some regs) :
    mvCtrlRegToAddrDec regs = win ∧ win.size ≠ noSize := by
  unfold mvCtrlAddrDecToReg at hregs
  dsimp only at hregs
  split_ifs at hregs with hsize
  obtain rfl := Option.some.inj hregs
  obtain ⟨hreg, hlt, hones⟩ := ctrlSizeToReg_spec hsize
  have hwidth : ((ctrlSizeToReg win.size sizeAlignment).setWidth 16).setWidth 32 =
      ctrlSizeToReg win.size sizeAlignment := by
    apply BitVec.eq_of_toNat_eq
    rw [BitVec.toNat_setWidth, BitVec.toNat_setWidth]
    omega
  have hbase := toNat_base_mod (by omega) halign
  have hltBase := win.baseLow.isLt
  have hltSize := win.size.isLt
  constructor
  · unfold mvCtrlRegToAddrDec
    dsimp only
    rw [hwidth]
    have hbaseLow : ((win.baseLow >>> 16).setWidth 16).setWidth 32 <<< 16 = win.baseLow := by
      apply BitVec.eq_of_toNat_eq
      rw [BitVec.toNat_shiftLeft, BitVec.toNat_setWidth, BitVec.toNat_setWidth,
        BitVec.toNat_ushiftRight, Nat.shiftLeft_eq, Nat.shiftRight_eq_div_pow]
      omega
    have hsizeBack : ctrlRegToSize (ctrlSizeToReg win.size sizeAlignment) sizeAlignment =
      win.size := by
      apply BitVec.eq_of_toNat_eq
      rw [toNat_ctrlRegToSize hones]
      omega
    rw [hbaseLow, hsizeBack]
  · intro hno
    have hno' := congrArg BitVec.toNat hno
    change win.size.toNat = 2 ^ 32 - 1 at hno'
    omega

/-! ### Windows that are apart -/

section

variable {ι : Type*} {opens opens' : ι → AddrWin → Prop}

/-- No two windows that are open share an address. -/
def Apart (opens : ι → AddrWin → Prop) : Prop :=
  ∀ i j win win', i ≠ j → opens i win → opens j win' → Disjoint win.addresses win'.addresses

/-- Windows that are closed do no harm. -/
theorem Apart.mono (h : Apart opens) (hsub : ∀ i win, opens' i win → opens i win) : Apart opens' :=
  fun i j win win' hij hi hj => h i j win win' hij (hsub i win hi) (hsub j win' hj)

/-- One window is opened, which is apart from all the others. -/
theorem Apart.open (h : Apart opens) {i : ι}
    (hothers : ∀ j win', j ≠ i → opens' j win' →
      opens j win' ∧ Disjoint win.addresses win'.addresses)
    (hnew : ∀ win', opens' i win' → win'.addresses ⊆ win.addresses) : Apart opens' := by
  intro j k winj wink hjk hj hk
  by_cases hji : j = i
  · subst hji
    exact (hothers k wink (Ne.symm hjk) hk).2.mono_left (hnew winj hj)
  · by_cases hki : k = i
    · subst hki
      exact ((hothers j winj hji hj).2.mono_left (hnew wink hk)).symm
    · exact h j k winj wink hjk (hothers j winj hji hj).1 (hothers k wink hki hk).1

end

end Mv88fxx81.Soc
