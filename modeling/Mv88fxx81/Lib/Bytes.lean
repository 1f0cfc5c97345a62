import Mathlib.Algebra.Group.Nat.Defs
import Mathlib.Data.Nat.Notation

/-!
# Bytes of machine words

Facts about cutting bytes out of a word and joining them.
-/

namespace Bytes

variable {v w : ℕ}

/-- A statement about a byte holds if it holds for all numbers below 256. -/
theorem byte_induction {P : UInt8 → Prop} (h : ∀ n < 256, P (UInt8.ofNat n)) (byte : UInt8) :
    P byte := by
  have hbyte := h byte.toNat byte.toNat_lt
  rwa [UInt8.ofNat_toNat] at hbyte

/-- The value of two words side by side. -/
theorem toNat_append_eq (x : BitVec v) (y : BitVec w) :
    (x ++ y).toNat = x.toNat * 2 ^ w + y.toNat := by
  rw [BitVec.toNat_append, ← Nat.shiftLeft_add_eq_or_of_lt y.isLt, Nat.shiftLeft_eq]

/-- A byte that is cut out of a word by a mask and a shift. -/
theorem byte_mask {mask x : BitVec w} {n : ℕ} (hmask : ∀ i < 8, mask.getLsbD (n + i) = true) :
    ((x &&& mask) >>> n).setWidth 8 = x.extractLsb' n 8 := by
  ext i hi
  simp [hmask i hi]

/-- The number that bytes stand for, the most significant one first. -/
def bigEndianNat (bytes : List UInt8) : ℕ := bytes.foldl (fun n byte => 256 * n + byte.toNat) 0

/-- A value that is put in front of lower bits. -/
theorem toNat_or_shiftLeft {x y k : UInt32} (hk : k.toNat < 32) (hx : x.toNat < 2 ^ k.toNat)
    (hy : y.toNat * 2 ^ k.toNat < 2 ^ 32) :
    (x ||| y <<< k).toNat = y.toNat * 2 ^ k.toNat + x.toNat := by
  have hshift : (y <<< k).toNat = y.toNat <<< k.toNat := by
    rw [UInt32.toNat_shiftLeft, Nat.mod_eq_of_lt hk, Nat.shiftLeft_eq, Nat.mod_eq_of_lt hy]
  rw [UInt32.toNat_or, hshift, Nat.or_comm, ← Nat.shiftLeft_add_eq_or_of_lt hx, Nat.shiftLeft_eq]

end Bytes
