import Mathlib.Data.List.Basic
import Mathlib.Logic.Function.Basic

/-!
# Gather lists

The entries of a gather list stand in an array, and each of them says where some items lie. The
list stands for these items, one entry's behind the other's.
-/

namespace Mv88fxx81.Gather

variable {α β : Type*} {read read' : β → List α} {arr arr' : ℕ → β} {first n : ℕ}

/-- The items of the `n` entries from `first` on. -/
def gather (read : β → List α) (arr : ℕ → β) (first : ℕ) : ℕ → List α
  | 0 => []
  | n + 1 => gather read arr first n ++ read (arr (first + n))

@[simp]
theorem gather_zero : gather read arr first 0 = [] := rfl

/-- The last entry adds its items at the end. -/
theorem gather_succ :
    gather read arr first (n + 1) = gather read arr first n ++ read (arr (first + n)) := rfl

/-- The first entry adds its items at the front. -/
theorem gather_succ_left :
    gather read arr first (n + 1) = read (arr first) ++ gather read arr (first + 1) n := by
  induction n with
  | zero => rw [gather_succ, gather_zero, gather_zero, List.nil_append, List.append_nil,
      Nat.add_zero]
  | succ n ih =>
    rw [gather_succ, ih, gather_succ, List.append_assoc, Nat.add_assoc first 1 n, Nat.add_comm 1 n]

/-- Entries with the same items make the same list. -/
theorem gather_congr (hread : ∀ i < n, read (arr (first + i)) = read' (arr' (first + i))) :
    gather read arr first n = gather read' arr' first n := by
  induction n with
  | zero => rfl
  | succ n ih =>
    rw [gather_succ, gather_succ, ih fun i hi => hread i (by omega), hread n (by omega)]

/-- An entry outside of the list does not matter. -/
theorem gather_update {i : ℕ} {entry : β} (hi : i < first ∨ first + n ≤ i) :
    gather read (Function.update arr i entry) first n = gather read arr first n := by
  apply gather_congr
  intro j hj
  rw [Function.update_of_ne]
  omega

/-- The list with an entry written behind its end. -/
theorem gather_update_succ {entry : β} :
    gather read (Function.update arr (first + n) entry) first (n + 1) =
      gather read arr first n ++ read entry := by
  rw [gather_succ, gather_update (Or.inr (Nat.le_refl _)), Function.update_self]

/-- The list with an entry written before its start. -/
theorem gather_update_left {entry : β} :
    gather read (Function.update arr first entry) first (n + 1) =
      read entry ++ gather read arr (first + 1) n := by
  rw [gather_succ_left, gather_update (Or.inl (Nat.lt_succ_self _)), Function.update_self]

/-- A list whose entries give the items of the parts of another one. -/
theorem gather_eq_flatten {parts : List (List α)}
    (hread : ∀ i part, parts[i]? = some part → read (arr (first + i)) = part) :
    gather read arr first parts.length = parts.flatten := by
  induction parts generalizing first with
  | nil => rfl
  | cons part parts ih =>
    rw [List.length_cons, gather_succ_left, List.flatten_cons]
    have hfirst := hread 0 part List.getElem?_cons_zero
    rw [Nat.add_zero] at hfirst
    rw [hfirst, ih]
    intro i part' hpart
    have hnext := hread (i + 1) part' (by rw [List.getElem?_cons_succ, hpart])
    rwa [Nat.add_comm i 1, ← Nat.add_assoc] at hnext

end Mv88fxx81.Gather
