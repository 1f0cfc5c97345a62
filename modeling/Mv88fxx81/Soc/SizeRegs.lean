import Mathlib.Data.Nat.Size
import Mathlib.Order.Bounds.Basic
import Mv88fxx81.Soc.LegalWindows

/-!
# Sizes of windows in registers

A register holds a size as a run of ones, in units of an alignment that is a power of two. The
sizes that can be written are the powers of two from the alignment on, and the two conversions are
inverse to each other on them. A size that cannot be written is rounded up to one that can, which
often is not the next one.
-/

namespace Mv88fxx81.Soc

variable {alignment size regSize number : BitVec 32} {p k : ℕ}

/-! ### Runs of ones -/

/-- An odd number that ends in a run of ones. -/
theorem and_one_of_ones (hnumber : number.toNat + 1 = 2 ^ (k + 1)) : number &&& 1 = 1 := by
  have hmod : number.toNat % 2 ^ 1 = 1 := by
    rw [pow_succ] at hnumber
    omega
  apply BitVec.eq_of_toNat_eq
  rw [BitVec.toNat_and]
  change number.toNat &&& (2 ^ 1 - 1) = 1
  rw [Nat.and_two_pow_sub_one_eq_mod, hmod]

/-- A run of ones without its first one. -/
theorem shift_ones (hnumber : number.toNat + 1 = 2 ^ (k + 1)) :
    (number >>> 1).toNat + 1 = 2 ^ k := by
  rw [BitVec.toNat_ushiftRight, Nat.shiftRight_eq_div_pow]
  rw [pow_succ] at hnumber
  omega

/-- Nothing is left of a run of ones. -/
theorem dropOnes_ones {fuel : ℕ} (hnumber : number.toNat + 1 = 2 ^ k) (hk : k ≤ fuel) :
    dropOnes fuel number = 0 := by
  induction fuel generalizing number k with
  | zero =>
    obtain rfl : k = 0 := Nat.le_zero.mp hk
    exact BitVec.eq_of_toNat_eq (Nat.succ.inj hnumber)
  | succ fuel ih =>
    unfold dropOnes
    cases k with
    | zero =>
      obtain rfl : number = 0 := BitVec.eq_of_toNat_eq (Nat.succ.inj hnumber)
      rfl
    | succ k =>
      rw [if_pos (and_one_of_ones hnumber)]
      exact ih (shift_ones hnumber) (Nat.le_of_succ_le_succ hk)

/-- The exponent of a power of two that is at most `2 ^ 32`. -/
theorem exponent_le (hnumber : number.toNat + 1 = 2 ^ k) : k ≤ 32 := by
  have hlt := number.isLt
  exact (Nat.pow_le_pow_iff_right Nat.one_lt_two).mp (by omega)

/-- The runs of ones are the numbers that are one less than a power of two. -/
theorem dropOnes_eq_zero_iff : dropOnes 32 number = 0 ↔ ∃ k, number.toNat + 1 = 2 ^ k := by
  constructor
  · exact dropOnes_eq_zero
  · rintro ⟨k, hk⟩
    exact dropOnes_ones hk (exponent_le hk)

/-- A size is shifted once for each one of a run of ones. -/
theorem shiftByOnes_ones (shift : BitVec 32 → BitVec 32) {fuel : ℕ}
    (hnumber : number.toNat + 1 = 2 ^ k) (hk : k ≤ fuel) :
    shiftByOnes shift fuel size number = (shift^[k] size, 0) := by
  induction fuel generalizing size number k with
  | zero =>
    obtain rfl : k = 0 := Nat.le_zero.mp hk
    obtain rfl : number = 0 := BitVec.eq_of_toNat_eq (Nat.succ.inj hnumber)
    rfl
  | succ fuel ih =>
    unfold shiftByOnes
    cases k with
    | zero =>
      obtain rfl : number = 0 := BitVec.eq_of_toNat_eq (Nat.succ.inj hnumber)
      rfl
    | succ k =>
      rw [if_pos (and_one_of_ones hnumber), Function.iterate_succ_apply]
      exact ih (shift_ones hnumber) (Nat.le_of_succ_le_succ hk)

/-- An alignment without its one is a run of ones. -/
theorem alignment_sub_one (halign : alignment.toNat = 2 ^ p) :
    (alignment - 1).toNat + 1 = 2 ^ p := by
  have hpos := Nat.two_pow_pos p
  have hlt := alignment.isLt
  rw [BitVec.toNat_sub]
  change (2 ^ 32 - 1 + alignment.toNat) % 2 ^ 32 + 1 = _
  omega

/-! ### The two conversions -/

/-- The sizes that can be written to a register, with their register values. -/
theorem toNat_ctrlSizeToReg (halign : alignment.toNat = 2 ^ p)
    (hsize : size.toNat = 2 ^ p * 2 ^ k) :
    (ctrlSizeToReg size alignment).toNat + 1 = 2 ^ k := by
  have hpos : 0 < 2 ^ p * 2 ^ k := Nat.mul_pos (Nat.two_pow_pos p) (Nat.two_pow_pos k)
  have hlt := size.isLt
  have hzero : ¬(size = 0 ∨ isNotAlign size alignment = true) := by
    rintro (rfl | hnot)
    · rw [← hsize] at hpos
      exact Nat.lt_irrefl _ hpos
    · have hdvd : alignment.toNat ∣ size.toNat := by
        rw [halign, hsize]
        exact Nat.dvd_mul_right _ _
      rw [(isNotAlign_two_pow halign).mpr hdvd] at hnot
      cases hnot
  have hones := alignment_sub_one halign
  have hshift : ((· >>> 1 : BitVec 32 → BitVec 32)^[p] size).toNat = 2 ^ k := by
    rw [toNat_shiftRight_iterate, hsize, Nat.mul_div_cancel_left _ (Nat.two_pow_pos p)]
  have hreg : ((· >>> 1 : BitVec 32 → BitVec 32)^[p] size - 1).toNat + 1 = 2 ^ k :=
    alignment_sub_one hshift
  unfold ctrlSizeToReg
  rw [if_neg hzero, shiftByOnes_ones _ hones (exponent_le hones)]
  dsimp only
  rw [if_neg (not_not.mpr rfl), if_neg (not_not.mpr (dropOnes_ones hreg (exponent_le hreg)))]
  exact hreg

/-- A size can be written exactly when it is a power of two from the alignment on. -/
theorem ctrlSizeToReg_ne_noSize_iff (halign : alignment.toNat = 2 ^ p) :
    ctrlSizeToReg size alignment ≠ noSize ↔ ∃ k, size.toNat = 2 ^ p * 2 ^ k := by
  have hones := alignment_sub_one halign
  constructor
  · intro h
    unfold ctrlSizeToReg at h
    by_cases hzero : size = 0 ∨ isNotAlign size alignment = true
    · rw [if_pos hzero] at h
      exact absurd rfl h
    · rw [if_neg hzero, shiftByOnes_ones _ hones (exponent_le hones)] at h
      rw [not_or, Bool.not_eq_true] at hzero
      dsimp only at h
      rw [if_neg (not_not.mpr rfl)] at h
      by_cases hdrop : dropOnes 32 ((· >>> 1 : BitVec 32 → BitVec 32)^[p] size - 1) ≠ 0
      · rw [if_pos hdrop] at h
        exact absurd rfl h
      · obtain ⟨k, hk⟩ := dropOnes_eq_zero (not_not.mp hdrop)
        obtain ⟨c, hc⟩ := (isNotAlign_two_pow halign).mp hzero.2
        have hpos := Nat.two_pow_pos p
        have hquot : ((· >>> 1 : BitVec 32 → BitVec 32)^[p] size).toNat = c := by
          rw [toNat_shiftRight_iterate, hc, halign, Nat.mul_div_cancel_left _ hpos]
        have hcpos : c ≠ 0 := by
          rintro rfl
          exact hzero.1 (BitVec.eq_of_toNat_eq hc)
        rw [BitVec.toNat_sub, hquot] at hk
        change (2 ^ 32 - 1 + c) % 2 ^ 32 + 1 = 2 ^ k at hk
        have hlt : c < 2 ^ 32 := by
          rw [← hquot]
          exact BitVec.isLt _
        refine ⟨k, ?_⟩
        rw [hc, halign, ← hk]
        congr 1
        omega
  · rintro ⟨k, hk⟩ hno
    have hreg := toNat_ctrlSizeToReg halign hk
    rw [hno] at hreg
    have hpow : 2 ^ 32 = 2 ^ k := hreg
    have hle : 2 ^ k ≤ 2 ^ p * 2 ^ k := Nat.le_mul_of_pos_left _ (Nat.two_pow_pos p)
    have hlt := size.isLt
    omega

/-- The size that a run of ones stands for, as far as it fits into 32 bits. -/
theorem toNat_ctrlRegToSize_ones (halign : alignment.toNat = 2 ^ p)
    (hreg : regSize.toNat + 1 = 2 ^ k) :
    (ctrlRegToSize regSize alignment).toNat = 2 ^ p * 2 ^ k % 2 ^ 32 := by
  have hones := alignment_sub_one halign
  unfold ctrlRegToSize
  rw [if_neg (not_not.mpr (dropOnes_ones hreg (exponent_le hreg))),
    if_neg (not_not.mpr (dropOnes_ones hones (exponent_le hones))),
    shiftByOnes_ones _ hones (exponent_le hones)]
  dsimp only
  rw [toNat_shiftLeft_iterate, BitVec.toNat_add]
  change (regSize.toNat + 1) % 2 ^ 32 * 2 ^ p % 2 ^ 32 = _
  rw [hreg, Nat.mod_mul_mod, Nat.mul_comm]

/-- A size that can be written is the one that is read back. -/
theorem ctrlRegToSize_ctrlSizeToReg (halign : alignment.toNat = 2 ^ p)
    (hsize : ctrlSizeToReg size alignment ≠ noSize) :
    ctrlRegToSize (ctrlSizeToReg size alignment) alignment = size := by
  obtain ⟨k, hk⟩ := (ctrlSizeToReg_ne_noSize_iff halign).mp hsize
  apply BitVec.eq_of_toNat_eq
  rw [toNat_ctrlRegToSize_ones halign (toNat_ctrlSizeToReg halign hk), ← hk,
    Nat.mod_eq_of_lt size.isLt]

/-- A run of ones whose size fits into 32 bits is the register value of its size. -/
theorem ctrlSizeToReg_ctrlRegToSize (halign : alignment.toNat = 2 ^ p)
    (hreg : regSize.toNat + 1 = 2 ^ k) (hfits : 2 ^ p * 2 ^ k < 2 ^ 32) :
    ctrlSizeToReg (ctrlRegToSize regSize alignment) alignment = regSize := by
  have hsize := toNat_ctrlRegToSize_ones halign hreg
  rw [Nat.mod_eq_of_lt hfits] at hsize
  have hback := toNat_ctrlSizeToReg halign hsize
  apply BitVec.eq_of_toNat_eq
  omega

end Mv88fxx81.Soc
