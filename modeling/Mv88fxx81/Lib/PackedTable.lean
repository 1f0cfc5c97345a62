import Mathlib.Data.List.Basic
import Mathlib.Data.Nat.Notation

/-!
# A table as one number

A table of bytes is also a number to the base 256. A look-up is then a shift, which the kernel
computes in one step, so that statements about whole tables can be decided.
-/

namespace PackedTable

variable {table : List ℕ}

/-- The number whose digits are the entries. -/
def pack : List ℕ → ℕ
  | [] => 0
  | x :: table => x + 256 * pack table

/-- The entries are bytes. -/
def Bytes (table : List ℕ) : Prop := ∀ x ∈ table, x < 256

instance : Decidable (Bytes table) := inferInstanceAs (Decidable (∀ x ∈ table, x < 256))

/-- A byte of a packed table. -/
theorem pack_shiftRight (hbytes : Bytes table) (i : ℕ) :
    (pack table >>> (8 * i)) % 256 = table.getD i 0 := by
  induction table generalizing i with
  | nil => rw [pack, Nat.zero_shiftRight, List.getD_nil]
  | cons x table ih =>
    have hx : x < 256 := hbytes x List.mem_cons_self
    have hrest : Bytes table := fun y hy => hbytes y (List.mem_cons_of_mem x hy)
    cases i with
    | zero =>
      rw [pack, Nat.mul_zero, Nat.shiftRight_zero, List.getD_cons_zero, Nat.add_mul_mod_self_left,
        Nat.mod_eq_of_lt hx]
    | succ i =>
      have hdigit : (x + 256 * pack table) >>> 8 = pack table := by
        rw [Nat.shiftRight_eq_div_pow]
        omega
      rw [pack, Nat.mul_succ, Nat.add_comm (8 * i) 8, Nat.shiftRight_add, hdigit, ih hrest i,
        List.getD_cons_succ]

/-- The same as a bit vector. -/
theorem ofNat_getD (hbytes : Bytes table) (i : ℕ) :
    BitVec.ofNat 8 (table.getD i 0) = BitVec.ofNat 8 (pack table >>> (8 * i)) := by
  apply BitVec.eq_of_toNat_eq
  rw [← pack_shiftRight hbytes i, BitVec.toNat_ofNat, BitVec.toNat_ofNat]
  exact Nat.mod_mod _ _

end PackedTable
