import Mathlib.Algebra.BigOperators.Group.Finset.Basic
import Mathlib.Algebra.Order.BigOperators.Group.Finset

/-!
# Segments one behind the other

Segments of given sizes are laid out one behind the other from zero on. Every
offset before the end of the last segment lies in exactly one of them.
-/

namespace Segments

variable {size : ℕ → ℕ} {m n offset : ℕ}

/-- Where a segment begins. -/
def start (size : ℕ → ℕ) (n : ℕ) : ℕ := ∑ i ∈ Finset.range n, size i

@[simp]
theorem start_zero : start size 0 = 0 := rfl

theorem start_succ (size : ℕ → ℕ) (n : ℕ) : start size (n + 1) = start size n + size n :=
  Finset.sum_range_succ size n

/-- A later segment begins behind the end of an earlier one. -/
theorem start_add_size_le (hlt : m < n) : start size m + size m ≤ start size n := by
  rw [← start_succ]
  exact Finset.sum_le_sum_of_subset (Finset.range_mono hlt)

/-- The offset lies in a segment. -/
def In (size : ℕ → ℕ) (offset n : ℕ) : Prop :=
  start size n ≤ offset ∧ offset < start size n + size n

/-- No offset lies in two segments. -/
theorem In.unique (hm : In size offset m) (hn : In size offset n) : m = n := by
  obtain ⟨hstart, hend⟩ := hm
  obtain ⟨hstart', hend'⟩ := hn
  rcases Nat.lt_trichotomy m n with hlt | heq | hlt
  · have hle := @start_add_size_le size _ _ hlt
    omega
  · exact heq
  · have hle := @start_add_size_le size _ _ hlt
    omega

/-- Every offset before the end lies in a segment. -/
theorem exists_in (hoffset : offset < start size n) : ∃ m < n, In size offset m := by
  induction n with
  | zero => cases hoffset
  | succ n ih =>
    by_cases hlt : offset < start size n
    · obtain ⟨m, hm, hin⟩ := ih hlt
      exact ⟨m, by omega, hin⟩
    · rw [start_succ] at hoffset
      exact ⟨n, Nat.lt_succ_self n, Nat.le_of_not_lt hlt, hoffset⟩

/-- A segment ends before the end of the layout. -/
theorem In.lt_start (hin : In size offset m) (hlt : m < n) : offset < start size n :=
  Nat.lt_of_lt_of_le hin.2 (start_add_size_le hlt)

/-- Segments of one size. -/
theorem start_of_const {unit : ℕ} (hsize : ∀ i < n, size i = unit) : start size n = n * unit := by
  induction n with
  | zero => rw [start_zero, Nat.zero_mul]
  | succ n ih =>
    rw [start_succ, ih fun i hi => hsize i (Nat.lt_succ_of_lt hi), hsize n (Nat.lt_succ_self n),
      Nat.succ_mul]

/-- The segments behind a segment, laid out on their own. -/
theorem start_add (m n : ℕ) :
    start size (m + n) = start size m + start (fun i => size (m + i)) n := by
  induction n with
  | zero => rw [start_zero, Nat.add_zero, Nat.add_zero]
  | succ n ih =>
    rw [← Nat.add_assoc, start_succ, ih, start_succ, Nat.add_assoc]

end Segments
