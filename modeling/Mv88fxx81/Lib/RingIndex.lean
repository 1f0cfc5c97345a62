import Mathlib.Data.Nat.Notation
import Mathlib.Tactic.SplitIfs

/-!
# Positions of a ring

The cells of a ring are numbered below its capacity. Positions are counted from a
moving head, so that position `k` is `k` steps after the head.
-/

namespace RingIndex

variable {capacity head i j : ℕ}

/-- The cell after a given one. -/
def next (capacity cell : ℕ) : ℕ := if cell = capacity - 1 then 0 else cell + 1

/-- The cell of position `i`, for positions up to the capacity. -/
def cell (capacity head i : ℕ) : ℕ :=
  if head + i < capacity then head + i else head + i - capacity

@[simp] theorem cell_zero (hhead : head < capacity) : cell capacity head 0 = head := by
  simp [cell, hhead]

/-- Positions up to the capacity are cells of the ring. -/
theorem cell_lt (hhead : head < capacity) (hi : i ≤ capacity) :
    cell capacity head i < capacity := by
  unfold cell
  split_ifs <;> omega

/-- The position one round after the head is the head. -/
theorem cell_capacity : cell capacity head capacity = head := by
  unfold cell
  split_ifs <;> omega

/-- Different positions of one round are different cells. -/
theorem cell_inj (hi : i < capacity) (hj : j < capacity) :
    cell capacity head i = cell capacity head j ↔ i = j := by
  unfold cell
  split_ifs <;> omega

/-- Every cell has a position. -/
theorem exists_cell (hhead : head < capacity) (hi : i < capacity) :
    ∃ k < capacity, cell capacity head k = i := by
  by_cases hle : head ≤ i
  · refine ⟨i - head, by omega, ?_⟩
    unfold cell
    split_ifs <;> omega
  · refine ⟨i + capacity - head, by omega, ?_⟩
    unfold cell
    split_ifs <;> omega

/-- A cell after the head and up to one round later is the head only there. -/
theorem cell_eq_head (hhead : head < capacity) (hi : i ≤ capacity) :
    cell capacity head i = head ↔ i = 0 ∨ i = capacity := by
  unfold cell
  split_ifs <;> omega

/-- The cell after a position is that of the next position. -/
theorem next_cell (hhead : head < capacity) (hi : i < capacity) :
    next capacity (cell capacity head i) = cell capacity head (i + 1) := by
  unfold next cell
  split_ifs <;> omega

theorem next_lt (hhead : head < capacity) : next capacity head < capacity := by
  unfold next
  split_ifs <;> omega

/-- Moving the head by one cell renumbers the positions. -/
theorem cell_next (hhead : head < capacity) (hi : i < capacity) :
    cell capacity (next capacity head) i = cell capacity head (i + 1) := by
  unfold next cell
  split_ifs <;> omega

end RingIndex
