import Mathlib.Algebra.BigOperators.Fin
import Mathlib.Algebra.BigOperators.Ring.Finset
import Mathlib.Algebra.Order.BigOperators.Group.Finset
import Mathlib.Logic.Function.Basic

/-!
# Paired parities

A block of `2 ^ n` positions is guarded by two parities for each address bit: one over the
positions whose address has the bit clear and one over those whose address has it set. A
changed position changes exactly one parity of every pair, and which ones they are spells its
address. Two changed positions change both parities of some pairs and none of the others.
-/

namespace PairedParity

variable {n : ℕ} {p q : Fin n → Bool}

/-- A truth value for each address bit and each of its two values. -/
abbrev Pairs (n : ℕ) := Fin n → Bool → Bool

/-- The parities that a position takes part in. -/
def column (position : Fin n → Bool) : Pairs n := fun k value => position k == value

/-- The entries that differ. -/
def diff (d e : Pairs n) : Pairs n := fun k value => d k value ^^ e k value

/-- The number of entries set. -/
def weight (d : Pairs n) : ℕ := ∑ k, ((d k false).toNat + (d k true).toNat)

/-- The set parities spell the address. -/
@[simp] theorem column_true (k : Fin n) : column p k true = p k := by
  simp [column]

/-- Every position takes part in one parity of each pair. -/
theorem weight_column : weight (column p) = n := by
  have hpair : ∀ k, (column p k false).toNat + (column p k true).toNat = 1 := by
    intro k
    unfold column
    cases p k <;> rfl
  rw [weight, Finset.sum_congr rfl fun k _ => hpair k]
  simp

/-- Two positions share both parities of a pair or none. -/
theorem weight_diff_column :
    weight (diff (column p) (column q)) = 2 * ∑ k, (p k ^^ q k).toNat := by
  have hpair : ∀ k, (diff (column p) (column q) k false).toNat +
      (diff (column p) (column q) k true).toNat = 2 * (p k ^^ q k).toNat := by
    intro k
    unfold diff column
    cases p k <;> cases q k <;> rfl
  rw [weight, Finset.mul_sum]
  exact Finset.sum_congr rfl fun k _ => hpair k

/-- Two different positions differ in some parity. -/
theorem weight_diff_column_pos (hpq : p ≠ q) : 0 < weight (diff (column p) (column q)) := by
  obtain ⟨k, hk⟩ := Function.ne_iff.mp hpq
  have hterm : 0 < (p k ^^ q k).toNat := by
    cases hp : p k <;> cases hq : q k <;> simp_all
  have hsum := Finset.sum_pos' (s := Finset.univ) (f := fun k => (p k ^^ q k).toNat)
    (fun i _ => Nat.zero_le _) ⟨k, Finset.mem_univ k, hterm⟩
  rw [weight_diff_column]
  omega

/-- Numbering the entries pair by pair. -/
theorem weight_pairs {m : ℕ} (f : ℕ → Bool) :
    weight (fun (k : Fin m) value => f (2 * k + value.toNat)) =
      ∑ j ∈ Finset.range (2 * m), (f j).toNat := by
  induction m with
  | zero => rfl
  | succ m ih =>
    have hdouble : 2 * (m + 1) = 2 * m + 1 + 1 := by omega
    rw [hdouble, Finset.sum_range_succ, Finset.sum_range_succ, ← ih, weight, Fin.sum_univ_castSucc,
      weight]
    simp only [Fin.val_castSucc, Fin.val_last, Bool.toNat_false, Bool.toNat_true, Nat.add_zero]
    omega

/-! ### Changing one term of a fold -/

section Fold

variable {ι α : Type} (op : α → α → α) {f : ι → α} {i : ι} {δ : α} {indexes : List ι}

/-- A change outside the listed indexes is not seen. -/
theorem foldl_update_notMem [DecidableEq ι] (hi : i ∉ indexes) (a b : α) :
    indexes.foldl (fun r k => op r (Function.update f i b k)) a =
      indexes.foldl (fun r k => op r (f k)) a := by
  induction indexes generalizing a with
  | nil => rfl
  | cons k indexes ih =>
    obtain ⟨hik, hrest⟩ := List.ne_and_not_mem_of_not_mem_cons hi
    simp only [List.foldl_cons]
    rw [Function.update_of_ne (Ne.symm hik), ih hrest]

/-- A start value can be taken out of a fold. -/
theorem foldl_op_start [Std.Associative op] [Std.Commutative op] (a : α) :
    indexes.foldl (fun r k => op r (f k)) (op a δ) =
      op (indexes.foldl (fun r k => op r (f k)) a) δ := by
  induction indexes generalizing a with
  | nil => rfl
  | cons k indexes ih =>
    simp only [List.foldl_cons]
    rw [← ih]
    congr 1
    have hassoc : ∀ x y z, op (op x y) z = op x (op y z) := Std.Associative.assoc
    have hcomm : ∀ x y, op x y = op y x := Std.Commutative.comm
    rw [hassoc, hcomm δ, ← hassoc]

/-- A change at one of the listed indexes changes the fold in the same way. -/
theorem foldl_update_mem [DecidableEq ι] [Std.Associative op] [Std.Commutative op]
    (hnodup : indexes.Nodup) (hi : i ∈ indexes) (a : α) :
    indexes.foldl (fun r k => op r (Function.update f i (op (f i) δ) k)) a =
      op (indexes.foldl (fun r k => op r (f k)) a) δ := by
  induction indexes generalizing a with
  | nil => cases hi
  | cons k indexes ih =>
    obtain ⟨hk, hnodup'⟩ := List.nodup_cons.mp hnodup
    simp only [List.foldl_cons]
    cases hi with
    | head =>
      have hassoc : ∀ x y z, op (op x y) z = op x (op y z) := Std.Associative.assoc
      rw [Function.update_self, ← hassoc, foldl_update_notMem op hk, foldl_op_start]
    | tail _ hi =>
      have hki : k ≠ i := fun h => hk (h ▸ hi)
      rw [Function.update_of_ne hki, ih hnodup' hi]

end Fold

end PairedParity
