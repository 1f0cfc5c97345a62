import Mv88fxx81.Cesa.Command
import Mv88fxx81.Cesa.MbufCopy

/-!
# The IV of a channel

`mvCesaCryptoIvSet` writes the IV of the user to the slot of a channel in the SRAM and
fills up the slot with random numbers. The pointer to the rest of the slot is moved by
the size of the rest, and not by the size of the IV.
-/

namespace Mv88fxx81.Cesa

/-- `MV_CESA_MAX_IV_LENGTH`. -/
def maxIvLength : ℕ := 16

/-- `cesaSramVirtPtr->cryptoIV[chan]`, as an offset in the SRAM. -/
def cryptoIvSlot (chan : Fin 2) : ℕ := (sramCryptoIV chan).toNat

/-- The bytes of an `int` in memory. -/
def intBytes (number : UInt32) : ℕ → UInt8 := fun j => (number >>> UInt32.ofNat (8 * j)).toUInt8

/-- The loop of `mvCesaCryptoIvSet`. The `k`-th call of `mvOsRand` returns `rand k`. -/
def randomLoop (rand : ℕ → UInt32) (k pSramIV ivSize : ℕ) (sram : ℕ → UInt8) : ℕ → UInt8 :=
  if ivSize = 0 then sram
  else
    let size := min ivSize 4
    randomLoop rand (k + 1) (pSramIV + size) (ivSize - size)
      (memcpy sram pSramIV (intBytes (rand k)) 0 size)
termination_by ivSize

/-- `mvCesaCryptoIvSet`. -/
def mvCesaCryptoIvSet (rand : ℕ → UInt32) (chan : Fin 2) (pIV : Option (ℕ → UInt8)) (ivSize : ℕ)
    (sram : ℕ → UInt8) : ℕ → UInt8 :=
  let pSramIV := cryptoIvSlot chan
  let ivSize := if ivSize > maxIvLength then maxIvLength else ivSize
  match pIV with
  | some iv =>
    let sram := memcpy sram pSramIV iv 0 ivSize
    let ivSize := maxIvLength - ivSize
    randomLoop rand 0 (pSramIV + ivSize) ivSize sram
  | none => randomLoop rand 0 pSramIV ivSize sram

variable {rand : ℕ → UInt32} {sram : ℕ → UInt8}

/-- The loop writes the bytes of the random numbers, one number after another. -/
theorem randomLoop_apply (k pSramIV ivSize x : ℕ) :
    randomLoop rand k pSramIV ivSize sram x =
      if pSramIV ≤ x ∧ x < pSramIV + ivSize then
        intBytes (rand (k + (x - pSramIV) / 4)) ((x - pSramIV) % 4)
      else sram x := by
  induction ivSize using Nat.strongRecOn generalizing k pSramIV sram with
  | ind ivSize ih =>
    rw [randomLoop]
    by_cases hzero : ivSize = 0
    · rw [if_pos hzero, if_neg (by omega)]
    · rw [if_neg hzero, ih (ivSize - min ivSize 4) (by omega)]
      unfold memcpy
      by_cases hlater : pSramIV + min ivSize 4 ≤ x ∧ x < pSramIV + ivSize
      · have hword : (x - pSramIV) / 4 = (x - (pSramIV + 4)) / 4 + 1 := by omega
        have hbyte : (x - pSramIV) % 4 = (x - (pSramIV + 4)) % 4 := by omega
        rw [if_pos (by omega), if_pos (by omega), hword, hbyte,
          show min ivSize 4 = 4 by omega, Nat.add_right_comm k 1, Nat.add_assoc k]
      · rw [if_neg (by omega)]
        by_cases hfirst : pSramIV ≤ x ∧ x < pSramIV + min ivSize 4
        · rw [if_pos hfirst, if_pos (by omega), show (x - pSramIV) / 4 = 0 by omega,
            show (x - pSramIV) % 4 = x - pSramIV by omega, Nat.zero_add, Nat.add_zero]
        · rw [if_neg hfirst, if_neg (by omega)]

/-- The SRAM after an IV of at most 16 bytes was set: the random bytes are behind an offset of the
size of the rest of the slot. -/
theorem mvCesaCryptoIvSet_apply (chan : Fin 2) (iv : ℕ → UInt8) {ivSize : ℕ}
    (hsize : ivSize ≤ maxIvLength) (x : ℕ) :
    mvCesaCryptoIvSet rand chan (some iv) ivSize sram x =
      if cryptoIvSlot chan + (16 - ivSize) ≤ x ∧
          x < cryptoIvSlot chan + (16 - ivSize) + (16 - ivSize) then
        intBytes (rand ((x - (cryptoIvSlot chan + (16 - ivSize))) / 4))
          ((x - (cryptoIvSlot chan + (16 - ivSize))) % 4)
      else if cryptoIvSlot chan ≤ x ∧ x < cryptoIvSlot chan + ivSize then
        iv (x - cryptoIvSlot chan)
      else sram x := by
  have hle : ¬ ivSize > maxIvLength := by omega
  simp only [mvCesaCryptoIvSet, if_neg hle, randomLoop_apply, memcpy, Nat.zero_add]
  rfl

/-- The slot of a channel begins with the IV of the user, and nothing outside of it has changed. -/
structure IvKept (chan : Fin 2) (iv : ℕ → UInt8) (ivSize : ℕ) (sram sram' : ℕ → UInt8) : Prop where
  iv : ∀ j < ivSize, sram' (cryptoIvSlot chan + j) = iv j
  frame : ∀ x, x < cryptoIvSlot chan ∨ cryptoIvSlot chan + maxIvLength ≤ x → sram' x = sram x

/-- The bytes of a number of four equal bytes. -/
theorem intBytes_repeated (b : UInt8) {j : ℕ} (hj : j < 4) :
    intBytes (b.toUInt32 * 0x01010101) j = b := by
  have hall : ∀ b : BitVec 8, ∀ j : Fin 4,
      (((UInt8.ofBitVec b).toUInt32 * 0x01010101) >>> UInt32.ofNat (8 * j.val)).toUInt8 =
        UInt8.ofBitVec b := by
    decide
  exact hall b.toBitVec ⟨j, hj⟩

/-- An IV of 1 to 16 bytes is kept whole and nothing outside of the slot is written, whatever the
random numbers are, exactly when it has 8 or 16 bytes. -/
theorem mvCesaCryptoIvSet_keepsIv_iff (chan : Fin 2) (iv : ℕ → UInt8) {ivSize : ℕ}
    (hpos : 1 ≤ ivSize) (hle : ivSize ≤ 16) :
    (∀ rand sram, IvKept chan iv ivSize sram
      (mvCesaCryptoIvSet rand chan (some iv) ivSize sram)) ↔ ivSize = 8 ∨ ivSize = 16 := by
  constructor
  · intro hkept
    by_contra hsize
    rw [not_or] at hsize
    by_cases hshort : ivSize < 8
    · -- the random bytes reach behind the slot
      have hframe := (hkept (fun _ => 0) fun _ => 1).frame (cryptoIvSlot chan + 16)
        (Or.inr (Nat.le_refl _))
      rw [mvCesaCryptoIvSet_apply chan iv hle, if_pos (by omega)] at hframe
      have hzero : ∀ j, intBytes 0 j = 0 := by
        intro j
        simp [intBytes]
      rw [hzero] at hframe
      exact absurd hframe (by decide)
    · -- they are written over the end of the IV
      have hiv := (hkept (fun _ => (iv (16 - ivSize) + 1).toUInt32 * 0x01010101) fun _ => 0).iv
        (16 - ivSize) (by omega)
      rw [mvCesaCryptoIvSet_apply chan iv hle, if_pos (by omega),
        intBytes_repeated _ (Nat.mod_lt _ (by decide))] at hiv
      exact absurd hiv (by simp)
  · intro hsize rand sram
    refine ⟨fun j hj => ?_, fun x hx => ?_⟩
    · rw [mvCesaCryptoIvSet_apply chan iv hle, if_neg (by omega), if_pos (by omega),
        Nat.add_sub_cancel_left]
    · unfold maxIvLength at hx
      rw [mvCesaCryptoIvSet_apply chan iv hle, if_neg (by omega), if_neg (by omega)]

/-- The IV of AES. -/
theorem mvCesaCryptoIvSet_aes :
    IvKept 0 (fun i => UInt8.ofNat i) 16 (fun _ => 0)
      (mvCesaCryptoIvSet (fun _ => 0) 0 (some fun i => UInt8.ofNat i) 16 fun _ => 0) :=
  (mvCesaCryptoIvSet_keepsIv_iff 0 _ (by decide) (by decide)).mpr (Or.inr rfl) _ _

/-- The rest of the slot behind an IV of four bytes is written behind an offset of 12, over the IV
of the other channel. -/
theorem mvCesaCryptoIvSet_overrun :
    ∃ rand sram, ¬ IvKept 0 (fun _ => 0) 4 sram
      (mvCesaCryptoIvSet rand 0 (some fun _ => 0) 4 sram) := by
  refine ⟨fun _ => 0, fun _ => 1, fun hkept => ?_⟩
  have hframe := hkept.frame (cryptoIvSlot 0 + 16) (Or.inr (Nat.le_refl _))
  rw [mvCesaCryptoIvSet_apply 0 _ (by decide), if_pos (by decide)] at hframe
  exact absurd hframe (by decide)

end Mv88fxx81.Cesa
