import Mathlib.Algebra.BigOperators.Group.Finset.Basic
import Mathlib.Algebra.Order.BigOperators.Group.Finset
import Mathlib.Data.Fintype.Basic
import Mathlib.Order.CompletePartialOrder
import Mathlib.Order.Interval.Set.Disjoint

/-!
# Blocks one behind the other

Blocks of given sizes are laid out from 0 on, in their order and without gaps. They share no
element.
-/

namespace Contiguous

variable {m : ℕ} {size size' : Fin m → ℕ} {n n' : ℕ} {i j : Fin m}

/-- The size of the first `n` blocks, which is where the next one starts. -/
def start (size : Fin m → ℕ) (n : ℕ) : ℕ :=
  ∑ k ∈ Finset.univ.filter fun k : Fin m => (k : ℕ) < n, size k

/-- The elements of a block. -/
def block (size : Fin m → ℕ) (i : Fin m) : Set ℕ := Set.Ico (start size i) (start size i + size i)

@[simp]
theorem start_zero : start size 0 = 0 := by
  simp [start]

/-- A block starts where the one before it ends. -/
theorem start_succ (size : Fin m → ℕ) (i : Fin m) :
    start size (i + 1) = start size i + size i := by
  have hinsert : (Finset.univ.filter fun k : Fin m => (k : ℕ) < i + 1) =
      insert i (Finset.univ.filter fun k : Fin m => (k : ℕ) < i) := by
    ext k
    simp only [Finset.mem_filter, Finset.mem_univ, true_and, Finset.mem_insert, Fin.ext_iff]
    omega
  have hnew : i ∉ Finset.univ.filter fun k : Fin m => (k : ℕ) < i := by
    simp
  unfold start
  rw [hinsert, Finset.sum_insert hnew, Nat.add_comm]

theorem start_mono (hle : n ≤ n') : start size n ≤ start size n' := by
  apply Finset.sum_le_sum_of_subset
  intro k hk
  simp only [Finset.mem_filter, Finset.mem_univ, true_and] at hk ⊢
  omega

/-- A block ends before a later one starts. -/
theorem start_add_le (size : Fin m → ℕ) (hlt : i < j) : start size i + size i ≤ start size j := by
  rw [← start_succ]
  exact start_mono hlt

/-- Different blocks share no element. -/
theorem block_disjoint (size : Fin m → ℕ) (hne : i ≠ j) :
    Disjoint (block size i) (block size j) := by
  rcases lt_or_gt_of_ne hne with hlt | hlt
  · have hle := start_add_le size hlt
    unfold block
    rw [Set.Ico_disjoint_Ico]
    omega
  · have hle := start_add_le size hlt
    unfold block
    rw [Set.Ico_disjoint_Ico]
    omega

end Contiguous
