import Mathlib.Data.List.Basic
import Mathlib.Tactic.IntervalCases

/-!
# Words and bytes

The hash code views byte arrays as arrays of 32-bit words of a little-endian
processor and keeps 64-bit bit counts in two words. The software exchanges
chaining values with the engine in the opposite byte order.
-/

namespace Mv88fxx81.Cesa

/-- The word a little-endian processor loads from four bytes. -/
def loadWord (b0 b1 b2 b3 : UInt8) : UInt32 :=
  b0.toUInt32 ||| b1.toUInt32 <<< 8 ||| b2.toUInt32 <<< 16 ||| b3.toUInt32 <<< 24

/-- The words a little-endian processor sees in a byte array. -/
def loadWords : List UInt8 → List UInt32
  | b0 :: b1 :: b2 :: b3 :: bytes => loadWord b0 b1 b2 b3 :: loadWords bytes
  | _ => []

/-- The bytes a little-endian processor stores for a word. -/
def storeWord (w : UInt32) : List UInt8 :=
  [w.toUInt8, (w >>> 8).toUInt8, (w >>> 16).toUInt8, (w >>> 24).toUInt8]

/-- `MV_BYTE_SWAP_32BIT`. -/
def byteSwap (x : UInt32) : UInt32 :=
  (x &&& 0xff) <<< 24 ||| (x &&& 0xff00) <<< 8 ||| (x &&& 0xff0000) >>> 8 |||
    (x &&& 0xff000000) >>> 24

@[simp] theorem storeWord_length (w : UInt32) : (storeWord w).length = 4 := rfl

/-- The bits of a swapped word: the bytes change places, the bits of a byte do not. -/
theorem byteSwap_bit (x : UInt32) (i : ℕ) (hi : i < 32) :
    (byteSwap x).toBitVec.getLsbD i = x.toBitVec.getLsbD (8 * (3 - i / 8) + i % 8) := by
  simp only [byteSwap, UInt32.toBitVec_or, UInt32.toBitVec_and, UInt32.toBitVec_shiftLeft,
    UInt32.toBitVec_shiftRight]
  interval_cases i <;> simp

/-- Swapping the bytes of a word twice gives it back. -/
@[simp] theorem byteSwap_byteSwap (x : UInt32) : byteSwap (byteSwap x) = x := by
  apply UInt32.toBitVec_inj.mp
  apply BitVec.eq_of_getLsbD_eq
  intro i hi
  rw [byteSwap_bit _ _ hi, byteSwap_bit _ _ (by omega)]
  congr 1
  omega

/-- The bits of a word that was loaded. -/
theorem loadWord_bit (b0 b1 b2 b3 : UInt8) (i : ℕ) (hi : i < 32) :
    (loadWord b0 b1 b2 b3).toBitVec.getLsbD i =
      if i < 8 then b0.toBitVec.getLsbD i else if i < 16 then b1.toBitVec.getLsbD (i - 8)
      else if i < 24 then b2.toBitVec.getLsbD (i - 16) else b3.toBitVec.getLsbD (i - 24) := by
  simp only [loadWord, UInt32.toBitVec_or, UInt32.toBitVec_shiftLeft, UInt8.toBitVec_toUInt32]
  interval_cases i <;> simp

/-- Swapping the bytes of a word is loading them in the other order. -/
theorem byteSwap_loadWord (b0 b1 b2 b3 : UInt8) :
    byteSwap (loadWord b0 b1 b2 b3) = loadWord b3 b2 b1 b0 := by
  apply UInt32.toBitVec_inj.mp
  apply BitVec.eq_of_getLsbD_eq
  intro i hi
  rw [byteSwap_bit _ _ hi, loadWord_bit _ _ _ _ _ (by omega), loadWord_bit _ _ _ _ _ hi]
  interval_cases i <;> simp

/-- A byte of a word is given by eight of its bits. -/
theorem shiftRight_toUInt8 {w : UInt32} {b : UInt8} {k : ℕ} (hk : k < 32)
    (hbits : ∀ i < 8, w.toBitVec.getLsbD (k + i) = b.toBitVec.getLsbD i) :
    (w >>> UInt32.ofNat k).toUInt8 = b := by
  apply UInt8.toBitVec_inj.mp
  apply BitVec.eq_of_getLsbD_eq
  intro i hi
  have hmod : k % 32 = k := by omega
  simp [hi, hbits i hi, Nat.mod_eq_of_lt (show k < 4294967296 by omega), hmod]

/-- The bytes of a word that was loaded. -/
theorem storeWord_loadWord (b0 b1 b2 b3 : UInt8) :
    storeWord (loadWord b0 b1 b2 b3) = [b0, b1, b2, b3] := by
  have h0 : (loadWord b0 b1 b2 b3 >>> UInt32.ofNat 0).toUInt8 = b0 := by
    refine shiftRight_toUInt8 (by omega) fun i hi => ?_
    rw [loadWord_bit _ _ _ _ _ (by omega), if_pos (by omega), Nat.zero_add]
  have h1 : (loadWord b0 b1 b2 b3 >>> UInt32.ofNat 8).toUInt8 = b1 := by
    refine shiftRight_toUInt8 (by omega) fun i hi => ?_
    rw [loadWord_bit _ _ _ _ _ (by omega), if_neg (by omega), if_pos (by omega),
      Nat.add_sub_cancel_left]
  have h2 : (loadWord b0 b1 b2 b3 >>> UInt32.ofNat 16).toUInt8 = b2 := by
    refine shiftRight_toUInt8 (by omega) fun i hi => ?_
    rw [loadWord_bit _ _ _ _ _ (by omega), if_neg (by omega), if_neg (by omega),
      if_pos (by omega), Nat.add_sub_cancel_left]
  have h3 : (loadWord b0 b1 b2 b3 >>> UInt32.ofNat 24).toUInt8 = b3 := by
    refine shiftRight_toUInt8 (by omega) fun i hi => ?_
    rw [loadWord_bit _ _ _ _ _ (by omega), if_neg (by omega), if_neg (by omega),
      if_neg (by omega), Nat.add_sub_cancel_left]
  rw [show UInt32.ofNat 0 = 0 from rfl, UInt32.shiftRight_zero] at h0
  exact congrArg₂ _ h0 (congrArg₂ _ h1 (congrArg₂ _ h2 (congrArg₂ _ h3 rfl)))

/-- Every word is loaded from its bytes. -/
theorem exists_loadWord (w : UInt32) : ∃ b0 b1 b2 b3, w = loadWord b0 b1 b2 b3 := by
  refine ⟨w.toUInt8, (w >>> 8).toUInt8, (w >>> 16).toUInt8, (w >>> 24).toUInt8, ?_⟩
  apply UInt32.toBitVec_inj.mp
  apply BitVec.eq_of_getLsbD_eq
  intro i hi
  rw [loadWord_bit _ _ _ _ _ hi]
  interval_cases i <;> simp

/-- Storing a swapped word stores the bytes in the other order. -/
theorem storeWord_byteSwap (w : UInt32) : storeWord (byteSwap w) = (storeWord w).reverse := by
  obtain ⟨b0, b1, b2, b3, rfl⟩ := exists_loadWord w
  rw [byteSwap_loadWord, storeWord_loadWord, storeWord_loadWord]
  rfl

/-- The low word of the bit counter gives the number of bytes in the buffer. -/
theorem pendingBytes_eq {bits0 bits1 : UInt32} {done n : ℕ} (hwhole : 64 ∣ done)
    (hbits : bits0.toNat + 2 ^ 32 * bits1.toNat = 8 * (done + n) % 2 ^ 64) :
    ((bits0 >>> 3) &&& 0x3f).toNat = n % 64 := by
  have hmask : ((bits0 >>> 3) &&& 0x3f).toNat = bits0.toNat / 8 % 64 := by
    rw [UInt32.toNat_and, UInt32.toNat_shiftRight]
    simp only [UInt32.reduceToNat, Nat.shiftRight_eq_div_pow]
    exact Nat.and_two_pow_sub_one_eq_mod (bits0.toNat / 2 ^ (3 % 32)) 6
  rw [hmask]
  have := bits0.toNat_lt
  omega

/-- The low word of a bit count after `len` more bytes. -/
theorem lowBits_add (bits0 : UInt32) {len : ℕ} (hlen : len < 2 ^ 32) :
    (bits0 + UInt32.ofNat len <<< 3).toNat = (bits0.toNat + 8 * len) % 2 ^ 32 := by
  rw [UInt32.toNat_add, UInt32.toNat_shiftLeft, UInt32.toNat_ofNat', Nat.mod_eq_of_lt hlen]
  simp only [UInt32.reduceToNat, Nat.shiftLeft_eq, Nat.reduceMod, Nat.reducePow]
  omega

/-- The carry of `len` bytes into the high word that does not come from the addition. -/
theorem highBits_of (len : ℕ) (hlen : len < 2 ^ 32) :
    (UInt32.ofNat len >>> 29).toNat = len / 2 ^ 29 := by
  rw [UInt32.toNat_shiftRight, UInt32.toNat_ofNat', Nat.mod_eq_of_lt hlen]
  simp [Nat.shiftRight_eq_div_pow]

end Mv88fxx81.Cesa
