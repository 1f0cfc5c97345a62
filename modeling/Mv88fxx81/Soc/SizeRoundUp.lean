import Mv88fxx81.Soc.SizeRegs

/-!
# Rounding up the size of a window

`ctrlSizeRegRoundUp` counts the bits of a size that cannot be written to a register and shifts one
by one place more than that. The power of two that it returns is twice the next one.
-/

namespace Mv88fxx81.Soc

variable {alignment size : BitVec 32} {p : ℕ}

/-- The loop that counts the bits of a size. -/
def msbBit : ℕ → BitVec 32 → ℕ
  | 0, _ => 0
  | fuel + 1, size => if size = 0 then 0 else msbBit fuel (size >>> 1) + 1

/-- `1 << n`. The language leaves open what a shift by 32 or more gives. -/
def shiftOne (overShift : BitVec 32) (n : ℕ) : BitVec 32 :=
  if n < 32 then (1 : BitVec 32) <<< n else overShift

/-- `ctrlSizeRegRoundUp`. -/
def ctrlSizeRegRoundUp (overShift size alignment : BitVec 32) : BitVec 32 :=
  if ctrlSizeToReg size alignment ≠ noSize then size
  else
    let retSize := shiftOne overShift (msbBit 32 size + 1)
    if retSize < alignment then alignment else retSize

/-- A size is rounded up to the least size that can be written, whatever an excessive shift gives.
-/
def RoundsUp (size alignment : BitVec 32) : Prop :=
  ∀ overShift, IsLeast {s | size ≤ s ∧ ctrlSizeToReg s alignment ≠ noSize}
    (ctrlSizeRegRoundUp overShift size alignment)

/-- The number of bits of a number that is not zero. -/
theorem msbBit_spec {fuel : ℕ} (hsize : size ≠ 0) (hfuel : size.toNat < 2 ^ fuel) :
    2 ^ (msbBit fuel size) ≤ 2 * size.toNat ∧ size.toNat < 2 ^ msbBit fuel size := by
  induction fuel generalizing size with
  | zero =>
    have hzero : size.toNat = 0 := by omega
    exact absurd (BitVec.eq_of_toNat_eq hzero) hsize
  | succ fuel ih =>
    have hhalf : (size >>> 1).toNat = size.toNat / 2 := by
      rw [BitVec.toNat_ushiftRight, Nat.shiftRight_eq_div_pow, pow_one]
    have hpos : size.toNat ≠ 0 := fun h => hsize (BitVec.eq_of_toNat_eq h)
    unfold msbBit
    rw [if_neg hsize, pow_succ]
    by_cases hone : size >>> 1 = 0
    · have hzero : msbBit fuel (size >>> 1) = 0 := by
        rw [hone]
        cases fuel <;> rfl
      rw [hone] at hhalf
      change 0 = size.toNat / 2 at hhalf
      rw [hzero, pow_zero]
      omega
    · rw [pow_succ] at hfuel
      have hbits := ih hone (by omega)
      omega

/-- The powers of two are shifted ones. -/
theorem toNat_shiftOne {overShift : BitVec 32} {n : ℕ} (hn : n < 32) :
    (shiftOne overShift n).toNat = 2 ^ n := by
  unfold shiftOne
  rw [if_pos hn, BitVec.toNat_shiftLeft, Nat.shiftLeft_eq]
  change 1 * 2 ^ n % 2 ^ 32 = 2 ^ n
  rw [Nat.one_mul, Nat.mod_eq_of_lt (Nat.pow_lt_pow_right Nat.one_lt_two hn)]

/-- The powers of two from the alignment on can be written. -/
theorem ctrlSizeToReg_pow {s : BitVec 32} {b : ℕ} (halign : alignment.toNat = 2 ^ p)
    (hs : s.toNat = 2 ^ b) (hle : p ≤ b) : ctrlSizeToReg s alignment ≠ noSize := by
  refine (ctrlSizeToReg_ne_noSize_iff halign).mpr ⟨b - p, ?_⟩
  rw [hs, ← pow_add, Nat.add_sub_cancel' hle]

/-- No size that can be written is smaller than the alignment. -/
theorem alignment_le (halign : alignment.toNat = 2 ^ p) {s : BitVec 32}
    (hs : ctrlSizeToReg s alignment ≠ noSize) : alignment ≤ s := by
  obtain ⟨k, hk⟩ := (ctrlSizeToReg_ne_noSize_iff halign).mp hs
  rw [BitVec.le_def, halign, hk]
  exact Nat.le_mul_of_pos_right _ (Nat.two_pow_pos k)

/-- A size that can be written is kept. -/
theorem roundsUp_of_valid (hvalid : ctrlSizeToReg size alignment ≠ noSize) :
    RoundsUp size alignment := by
  intro overShift
  unfold ctrlSizeRegRoundUp
  rw [if_pos hvalid]
  exact ⟨⟨BitVec.le_refl size, hvalid⟩, fun s hs => hs.1⟩

/-- A size below one half of the alignment is rounded up to the alignment. -/
theorem roundsUp_of_small (halign : alignment.toNat = 2 ^ p) (hsize : size ≠ 0)
    (hsmall : 2 * size.toNat < alignment.toNat) : RoundsUp size alignment := by
  intro overShift
  obtain ⟨hlow, hhigh⟩ := msbBit_spec hsize size.isLt
  have hpow : 2 ^ msbBit 32 size < 2 ^ p := by omega
  have hbits := (Nat.pow_lt_pow_iff_right Nat.one_lt_two).mp hpow
  have hp : p < 32 := (Nat.pow_lt_pow_iff_right Nat.one_lt_two).mp (halign ▸ alignment.isLt)
  have hret := @toNat_shiftOne overShift (msbBit 32 size + 1) (by omega)
  have hinvalid : ¬ ctrlSizeToReg size alignment ≠ noSize := by
    intro hvalid
    have hle := alignment_le halign hvalid
    rw [BitVec.le_def] at hle
    omega
  have hresult : ctrlSizeRegRoundUp overShift size alignment = alignment := by
    unfold ctrlSizeRegRoundUp
    rw [if_neg hinvalid]
    dsimp only
    by_cases hlt : shiftOne overShift (msbBit 32 size + 1) < alignment
    · rw [if_pos hlt]
    · rw [if_neg hlt]
      rw [BitVec.lt_def, hret, halign] at hlt
      have hle : 2 ^ (msbBit 32 size + 1) ≤ 2 ^ p :=
        Nat.pow_le_pow_right Nat.two_pos hbits
      apply BitVec.eq_of_toNat_eq
      rw [hret, halign]
      omega
  rw [hresult]
  refine ⟨⟨?_, ctrlSizeToReg_pow halign halign (Nat.le_refl p)⟩, fun s hs =>
    alignment_le halign hs.2⟩
  rw [BitVec.le_def]
  omega

/-- Any other size is rounded up too far. -/
theorem not_roundsUp (halign : alignment.toNat = 2 ^ p) (hsize : size ≠ 0)
    (hle : size.toNat ≤ 2 ^ 31) (hinvalid : ctrlSizeToReg size alignment = noSize)
    (hlarge : ¬ 2 * size.toNat < alignment.toNat) : ¬ RoundsUp size alignment := by
  intro hround
  obtain ⟨hlow, hhigh⟩ := msbBit_spec hsize size.isLt
  have hp : p < 32 := (Nat.pow_lt_pow_iff_right Nat.one_lt_two).mp (halign ▸ alignment.isLt)
  have hlt : size.toNat < 2 ^ 31 := by
    refine Nat.lt_of_le_of_ne hle fun htop => ?_
    exact ctrlSizeToReg_pow halign htop (by omega) hinvalid
  have hbits : msbBit 32 size < 32 := by
    refine (Nat.pow_lt_pow_iff_right Nat.one_lt_two).mp (Nat.lt_of_le_of_lt hlow ?_)
    omega
  have hp' : p < msbBit 32 size + 1 := by
    refine (Nat.pow_lt_pow_iff_right Nat.one_lt_two).mp (?_ : 2 ^ p < _)
    rw [pow_succ]
    omega
  by_cases hover : msbBit 32 size + 1 < 32
  · -- the next power of two is one half of what is returned
    have hret := @toNat_shiftOne 0 (msbBit 32 size + 1) hover
    have hhalf : (BitVec.ofNat 32 (2 ^ msbBit 32 size)).toNat = 2 ^ msbBit 32 size := by
      rw [BitVec.toNat_ofNat, Nat.mod_eq_of_lt (Nat.pow_lt_pow_right Nat.one_lt_two hbits)]
    have hge : size ≤ BitVec.ofNat 32 (2 ^ msbBit 32 size) := by
      rw [BitVec.le_def]
      omega
    have hleast : ctrlSizeRegRoundUp 0 size alignment ≤ BitVec.ofNat 32 (2 ^ msbBit 32 size) :=
      (hround 0).2 ⟨hge, ctrlSizeToReg_pow halign hhalf (by omega)⟩
    unfold ctrlSizeRegRoundUp at hleast
    rw [if_neg (not_not.mpr hinvalid)] at hleast
    dsimp only at hleast
    have hnot : ¬ shiftOne 0 (msbBit 32 size + 1) < alignment := by
      rw [BitVec.lt_def, hret, halign, Nat.not_lt]
      exact Nat.pow_le_pow_right Nat.two_pos (by omega)
    rw [if_neg hnot, BitVec.le_def, hret, hhalf, pow_succ] at hleast
    have hpos := Nat.two_pow_pos (msbBit 32 size)
    omega
  · -- the shift may give anything, and also a number that is no size
    have hmem := (hround 0xffffffff).1.2
    unfold ctrlSizeRegRoundUp shiftOne at hmem
    rw [if_neg (not_not.mpr hinvalid), if_neg hover] at hmem
    dsimp only at hmem
    have hge : ¬ (0xffffffff : BitVec 32) < alignment := by
      have halt := alignment.isLt
      rw [BitVec.lt_def]
      change ¬ 2 ^ 32 - 1 < alignment.toNat
      omega
    rw [if_neg hge] at hmem
    obtain ⟨k, hk⟩ := (ctrlSizeToReg_ne_noSize_iff halign).mp hmem
    rw [← pow_add] at hk
    change 2 ^ 32 - 1 = 2 ^ (p + k) at hk
    cases hpk : p + k with
    | zero =>
      rw [hpk] at hk
      omega
    | succ n =>
      rw [hpk, pow_succ] at hk
      omega

/-- The sizes that are rounded up to the next size that can be written are those that can be written
themselves and those below one half of the alignment. -/
theorem ctrlSizeRegRoundUp_iff (halign : ∃ p, alignment.toNat = 2 ^ p) (hpos : 1 ≤ size.toNat)
    (hle : size.toNat ≤ 2 ^ 31) :
    RoundsUp size alignment ↔
      ctrlSizeToReg size alignment ≠ noSize ∨ 2 * size.toNat < alignment.toNat := by
  obtain ⟨p, hp⟩ := halign
  have hsize : size ≠ 0 := by
    rintro rfl
    exact absurd hpos (by decide)
  constructor
  · intro hround
    by_contra hnot
    rw [not_or, not_not] at hnot
    exact not_roundsUp hp hsize hle hnot.1 hnot.2 hround
  · rintro (hvalid | hsmall)
    · exact roundsUp_of_valid hvalid
    · exact roundsUp_of_small hp hsize hsmall

/-- A size of 16 KB is rounded up to an alignment of 64 KB. -/
theorem ctrlSizeRegRoundUp_quarter : RoundsUp 0x4000 0x10000 :=
  (ctrlSizeRegRoundUp_iff ⟨16, rfl⟩ (by decide) (by decide)).mpr (Or.inr (by decide))

/-- The size three is rounded up to eight, past four. -/
theorem ctrlSizeRegRoundUp_three :
    ctrlSizeRegRoundUp 0 3 1 = 8 ∧ ctrlSizeToReg 4 1 ≠ noSize ∧ ¬ RoundsUp 3 1 := by
  refine ⟨by decide, by decide, ?_⟩
  exact not_roundsUp (p := 0) rfl (by decide) (by decide) (by decide) (by decide)

end Mv88fxx81.Soc
