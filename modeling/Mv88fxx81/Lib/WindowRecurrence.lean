import Mathlib.Data.Nat.Notation
import Mathlib.Logic.Function.Basic

/-!
# Sequences that a window determines

In a sequence of this kind a term comes from the one before it and from the one a fixed number of
places back. The first terms determine the others. When the older term can be told from the newer
one, the last terms determine the sequence as well.
-/

namespace WindowRecurrence

variable {α : Type*} {next : ℕ → α → α → α} {k last : ℕ} {v w : ℕ → α}

/-- Up to `last`, a term comes from the one `k` places back and the one before. -/
def Follows (next : ℕ → α → α → α) (k last : ℕ) (w : ℕ → α) : Prop :=
  ∀ i, k ≤ i → i < last → w i = next i (w (i - k)) (w (i - 1))

/-- The last terms determine the sequence. -/
theorem eq_of_end (hk : 2 ≤ k) (hnext : ∀ i b, Function.Injective fun a => next i a b)
    (hw : Follows next k last w) (hv : Follows next k last v)
    (hend : ∀ i, last ≤ i + k → i < last → w i = v i) {i : ℕ} (hi : i < last) : w i = v i := by
  -- The places after `i` come first.
  obtain ⟨rest, hrest⟩ : ∃ rest, rest + i = last := ⟨last - i, by omega⟩
  induction rest using Nat.strongRecOn generalizing i with
  | _ rest ih =>
    by_cases hwindow : last ≤ i + k
    · exact hend i hwindow hi
    · have hsum := ih (rest - k) (by omega) (show i + k < last by omega) (by omega)
      have hbefore := ih (rest - (k - 1)) (by omega) (show i + k - 1 < last by omega) (by omega)
      have hstep := hw (i + k) (by omega) (by omega)
      rw [hsum, hv (i + k) (by omega) (by omega), hbefore, Nat.add_sub_cancel] at hstep
      exact (hnext _ _ hstep).symm

end WindowRecurrence
