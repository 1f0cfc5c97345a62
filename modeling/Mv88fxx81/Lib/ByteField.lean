import Mathlib.Algebra.Group.Defs
import Mathlib.Data.Nat.Notation

/-!
# The field of bytes

A byte stands for a polynomial over two elements, modulo `x^8 + x^4 + x^3 + x + 1`. The sum is the
exclusive or. A product is additive in both factors, so what is known of it for the powers of `x`
is known for all bytes.
-/

namespace ByteField

/-- A byte as an element of the field. -/
abbrev Byte := BitVec 8

/-- A byte times `x`. -/
def xtime (b : Byte) : Byte := (b <<< 1) ^^^ if b.getLsbD 7 then 0x1b else 0

/-- The product, from the lowest bits of the first factor. -/
def mulBits : ℕ → Byte → Byte → Byte
  | 0, _, _ => 0
  | n + 1, a, b => (if a.getLsbD 0 then b else 0) ^^^ mulBits n (a >>> 1) (xtime b)

/-- The product of two bytes. -/
def mul (a b : Byte) : Byte := mulBits 8 a b

/-- A map that keeps sums. -/
def Additive (f : Byte → Byte) : Prop := ∀ a b, f (a ^^^ b) = f a ^^^ f b

variable {f g : Byte → Byte} {a b c : Byte}

/-! ### Additive maps -/

/-- An additive map keeps zero. -/
theorem Additive.map_zero (hf : Additive f) : f 0 = 0 := by
  have h := hf 0 0
  rw [BitVec.xor_self, BitVec.xor_self] at h
  exact h

/-- The identity is additive. -/
theorem Additive.id : Additive fun b => b := fun _ _ => rfl

/-- The zero map is additive. -/
theorem Additive.zero : Additive fun _ => 0 := fun _ _ => BitVec.xor_self.symm

/-- Additive maps compose. -/
theorem Additive.comp (hf : Additive f) (hg : Additive g) : Additive fun b => f (g b) := by
  intro a b
  dsimp only
  rw [hg, hf]

/-- Sums of two sums, the other way round. -/
theorem xor_xor_xor_comm (a b c d : Byte) : (a ^^^ b) ^^^ (c ^^^ d) = (a ^^^ c) ^^^ (b ^^^ d) := by
  rw [BitVec.xor_assoc, ← BitVec.xor_assoc b, BitVec.xor_comm b c, BitVec.xor_assoc c,
    ← BitVec.xor_assoc a]

/-- Additive maps add up. -/
theorem Additive.add (hf : Additive f) (hg : Additive g) : Additive fun b => f b ^^^ g b := by
  intro a b
  dsimp only
  rw [hf, hg, xor_xor_xor_comm]

/-- The bits of a byte that are set, as powers of `x`. -/
def bitOf (b : Byte) (i : ℕ) : Byte := if b.getLsbD i then (1 : Byte) <<< i else 0

/-- A byte is the sum of its bits. -/
theorem eq_bits (b : Byte) :
    b = bitOf b 0 ^^^ (bitOf b 1 ^^^ (bitOf b 2 ^^^ (bitOf b 3 ^^^ (bitOf b 4 ^^^
      (bitOf b 5 ^^^ (bitOf b 6 ^^^ bitOf b 7)))))) := by
  revert b
  decide

/-- Additive maps that agree on the powers of `x` are equal. -/
theorem Additive.ext (hf : Additive f) (hg : Additive g)
    (hbasis : ∀ i < 8, f ((1 : Byte) <<< i) = g ((1 : Byte) <<< i)) : f b = g b := by
  have hbit : ∀ i < 8, f (bitOf b i) = g (bitOf b i) := by
    intro i hi
    unfold bitOf
    by_cases hbit : b.getLsbD i = true
    · rw [if_pos hbit]
      exact hbasis i hi
    · rw [if_neg hbit, hf.map_zero, hg.map_zero]
  rw [eq_bits b, hf, hf, hf, hf, hf, hf, hf, hg, hg, hg, hg, hg, hg, hg, hbit 0 (by decide),
    hbit 1 (by decide), hbit 2 (by decide), hbit 3 (by decide), hbit 4 (by decide),
    hbit 5 (by decide), hbit 6 (by decide), hbit 7 (by decide)]

/-! ### The product -/

/-- Multiplication by `x` is additive. -/
theorem xtime_additive : Additive xtime := by
  intro a b
  unfold xtime
  rw [BitVec.shiftLeft_xor_distrib, BitVec.getLsbD_xor, xor_xor_xor_comm]
  congr 1
  cases a.getLsbD 7
  all_goals cases b.getLsbD 7
  all_goals decide

/-- Products are additive in the second factor. -/
theorem mulBits_additive_right (n : ℕ) (a : Byte) : Additive fun b => mulBits n a b := by
  induction n generalizing a with
  | zero => exact Additive.zero
  | succ n ih =>
    have hbit : Additive fun b => if a.getLsbD 0 then b else 0 := by
      by_cases h : a.getLsbD 0 = true
      · simp only [if_pos h]
        exact Additive.id
      · simp only [if_neg h]
        exact Additive.zero
    exact hbit.add ((ih (a >>> 1)).comp xtime_additive)

/-- Products are additive in the first factor. -/
theorem mulBits_additive_left (n : ℕ) (b : Byte) : Additive fun a => mulBits n a b := by
  induction n generalizing b with
  | zero => exact Additive.zero
  | succ n ih =>
    have hbit : Additive fun a : Byte => if a.getLsbD 0 then b else 0 := by
      intro a a'
      dsimp only
      rw [BitVec.getLsbD_xor]
      cases a.getLsbD 0 <;> cases a'.getLsbD 0 <;> simp
    have hshift : Additive fun a : Byte => a >>> 1 := fun a a' => BitVec.ushiftRight_xor_distrib ..
    exact hbit.add ((ih (xtime b)).comp hshift)

/-- Multiplication from the left is additive. -/
theorem mul_additive_right (a : Byte) : Additive (mul a) := mulBits_additive_right 8 a

/-- Multiplication from the right is additive. -/
theorem mul_additive_left (b : Byte) : Additive fun a => mul a b := mulBits_additive_left 8 b

/-- Products distribute over sums. -/
theorem mul_xor (a b c : Byte) : mul a (b ^^^ c) = mul a b ^^^ mul a c := mul_additive_right a b c

/-- Sums distribute over products. -/
theorem xor_mul (a b c : Byte) : mul (a ^^^ b) c = mul a c ^^^ mul b c := mul_additive_left c a b

/-- A statement on the powers of `x` that `decide` can check. -/
theorem mul_comm (a b : Byte) : mul a b = mul b a := by
  refine Additive.ext (mul_additive_right a) (mul_additive_left a) fun i hi => ?_
  refine Additive.ext (f := fun a => mul a ((1 : Byte) <<< i)) (g := mul ((1 : Byte) <<< i))
    (mul_additive_left _) (mul_additive_right _) fun j hj => ?_
  have hbasis : ∀ i < 8, ∀ j < 8, mul ((1 : Byte) <<< j) ((1 : Byte) <<< i) =
      mul ((1 : Byte) <<< i) ((1 : Byte) <<< j) := by decide
  exact hbasis i hi j hj

/-- Multiplication is associative. -/
theorem mul_assoc (a b c : Byte) : mul (mul a b) c = mul a (mul b c) := by
  refine Additive.ext (mul_additive_right (mul a b))
    ((mul_additive_right a).comp (mul_additive_right b)) fun i hi => ?_
  refine Additive.ext (f := fun b => mul (mul a b) ((1 : Byte) <<< i))
    (g := fun b => mul a (mul b ((1 : Byte) <<< i)))
    ((mul_additive_left _).comp (mul_additive_right a))
    ((mul_additive_right a).comp (mul_additive_left _)) fun j hj => ?_
  refine Additive.ext (f := fun a => mul (mul a ((1 : Byte) <<< j)) ((1 : Byte) <<< i))
    (g := fun a => mul a (mul ((1 : Byte) <<< j) ((1 : Byte) <<< i)))
    ((mul_additive_left _).comp (mul_additive_left _)) (mul_additive_left _) fun k hk => ?_
  have hbasis : ∀ i < 8, ∀ j < 8, ∀ k < 8,
      mul (mul ((1 : Byte) <<< k) ((1 : Byte) <<< j)) ((1 : Byte) <<< i) =
        mul ((1 : Byte) <<< k) (mul ((1 : Byte) <<< j) ((1 : Byte) <<< i)) := by decide
  exact hbasis i hi j hj k hk

/-- One is neutral on the left. -/
theorem one_mul (b : Byte) : mul 1 b = b :=
  Additive.ext (mul_additive_right 1) Additive.id (by decide)

/-- One is neutral on the right. -/
theorem mul_one (b : Byte) : mul b 1 = b := (mul_comm b 1).trans (one_mul b)

/-- A product with zero on the right. -/
theorem mul_zero (a : Byte) : mul a 0 = 0 := (mul_additive_right a).map_zero

/-- A product with zero on the left. -/
theorem zero_mul (b : Byte) : mul 0 b = 0 := (mul_additive_left b).map_zero

/-! ### Powers and inverses -/

/-- A power of a byte. -/
def pow (a : Byte) : ℕ → Byte
  | 0 => 1
  | n + 1 => mul a (pow a n)

/-- Powers with a sum in the exponent. -/
theorem pow_add (a : Byte) (m n : ℕ) : pow a (m + n) = mul (pow a m) (pow a n) := by
  induction m with
  | zero => rw [Nat.zero_add, pow, one_mul]
  | succ m ih => rw [Nat.succ_add, pow, pow, ih, mul_assoc]

/-- A factor whose product with a given one is one is unique. -/
theorem factor_unique (hb : mul a b = 1) (hc : mul a c = 1) : b = c :=
  calc b = mul b (mul a c) := by rw [hc, mul_one]
    _ = mul (mul a b) c := by rw [← mul_assoc, mul_comm b a]
    _ = c := by rw [hb, one_mul]

open Classical in
/-- The inverse of a byte, with zero as its own. -/
noncomputable def inverse (a : Byte) : Byte :=
  if h : ∃ b, mul a b = 1 then h.choose else 0

/-- Inverses are unique. -/
theorem inverse_eq (h : mul a b = 1) : inverse a = b := by
  have hexists : ∃ b, mul a b = 1 := ⟨b, h⟩
  rw [inverse, dif_pos hexists]
  exact factor_unique hexists.choose_spec h

/-- The inverse of zero is zero. -/
theorem inverse_zero : inverse 0 = 0 := by
  refine dif_neg ?_
  rintro ⟨b, h⟩
  rw [zero_mul] at h
  exact absurd h (by decide)

end ByteField
