import Mathlib.Algebra.BigOperators.Group.List.Basic
import Mathlib.Algebra.GroupWithZero.Nat

/-!
# Data in fragments

Data that is kept in a sequence of fragments is described by their sizes. Positions
count the bytes of all fragments in their order, and are located by a fragment and an
offset in it.
-/

namespace Fragments

variable {sizes rest : List ℕ} {size offset n p q : ℕ}

/-- A fragment that begins at position `p` is empty. -/
def EmptyAt : List ℕ → ℕ → Prop
  | [], _ => False
  | size :: sizes, p => (size = 0 ∧ p = 0) ∨ (size ≤ p ∧ EmptyAt sizes (p - size))

/-- A fragment ends at position `p`. -/
def EndsAt : List ℕ → ℕ → Prop
  | [], _ => False
  | size :: sizes, p => size = p ∨ (size ≤ p ∧ EndsAt sizes (p - size))

instance decidableEmptyAt : (sizes : List ℕ) → (p : ℕ) → Decidable (EmptyAt sizes p)
  | [], _ => inferInstanceAs (Decidable False)
  | size :: sizes, p =>
    have := decidableEmptyAt sizes (p - size)
    inferInstanceAs (Decidable (_ ∨ _))

instance decidableEndsAt : (sizes : List ℕ) → (p : ℕ) → Decidable (EndsAt sizes p)
  | [], _ => inferInstanceAs (Decidable False)
  | size :: sizes, p =>
    have := decidableEndsAt sizes (p - size)
    inferInstanceAs (Decidable (_ ∨ _))

/-- `n` bytes can be visited one by one, from `offset` in the first fragment on. At
the end of a fragment the walk goes on at the start of the next one, which must not be
empty. -/
def Walks : List ℕ → ℕ → ℕ → Prop
  | _, _, 0 => True
  | [], _, _ + 1 => False
  | size :: sizes, offset, n + 1 =>
    offset < size ∧
      if offset + 1 < size then Walks (size :: sizes) (offset + 1) n else Walks sizes 0 n

/-- A walk succeeds if it stays in the data and begins or goes on at no empty
fragment. -/
theorem walks_iff (hoffset : offset = 0 ∨ offset < sizes.headD 0) :
    Walks sizes offset n ↔
      (n = 0 ∨ offset + n ≤ sizes.sum) ∧ ∀ q < n, ¬ EmptyAt sizes (offset + q) := by
  induction n generalizing sizes offset with
  | zero => simp [Walks]
  | succ n ih =>
    cases sizes with
    | nil =>
      obtain rfl : offset = 0 := by simpa using hoffset
      simp [Walks]
    | cons size rest =>
      simp only [List.headD_cons] at hoffset
      simp only [Walks, List.sum_cons]
      by_cases hempty : size = 0
      · subst hempty
        obtain rfl : offset = 0 := by omega
        constructor
        · rintro ⟨h, -⟩
          omega
        · rintro ⟨-, h⟩
          exact absurd (Or.inl ⟨rfl, rfl⟩) (h 0 (by omega))
      have hinside : offset < size := by omega
      have hfirst : ¬ EmptyAt (size :: rest) offset := by
        simp only [EmptyAt]
        omega
      by_cases hnext : offset + 1 < size
      · rw [if_pos hnext, ih (Or.inr hnext)]
        constructor
        · rintro ⟨-, hrange, hall⟩
          refine ⟨Or.inr ?_, ?_⟩
          · simp only [List.sum_cons] at hrange
            omega
          · intro q hq
            cases q with
            | zero => exact hfirst
            | succ q =>
              rw [show offset + (q + 1) = offset + 1 + q by omega]
              exact hall q (by omega)
        · rintro ⟨hrange, hall⟩
          refine ⟨hinside, Or.inr ?_, ?_⟩
          · simp only [List.sum_cons]
            omega
          · intro q hq
            rw [show offset + 1 + q = offset + (q + 1) by omega]
            exact hall (q + 1) (by omega)
      · rw [if_neg hnext, ih (Or.inl rfl)]
        have hshift : ∀ q, EmptyAt (size :: rest) (offset + (q + 1)) ↔ EmptyAt rest (0 + q) := by
          intro q
          simp only [EmptyAt]
          rw [show offset + (q + 1) - size = 0 + q by omega]
          constructor
          · rintro (h | ⟨-, h⟩)
            · omega
            · exact h
          · exact fun h => Or.inr ⟨by omega, h⟩
        constructor
        · rintro ⟨-, hrange, hall⟩
          refine ⟨Or.inr (by omega), ?_⟩
          intro q hq
          cases q with
          | zero => exact hfirst
          | succ q =>
            rw [hshift]
            exact hall q (by omega)
        · rintro ⟨hrange, hall⟩
          refine ⟨hinside, by omega, ?_⟩
          intro q hq
          rw [← hshift]
          exact hall (q + 1) (by omega)

/-- What is left of the first fragment ends where the fragment does. -/
theorem endsAt_drop (hoffset : offset ≤ size) (hq : 0 < q) :
    EndsAt (size :: rest) (offset + q) ↔ EndsAt ((size - offset) :: rest) q := by
  have hend : size = offset + q ↔ size - offset = q := by omega
  have hle : size ≤ offset + q ↔ size - offset ≤ q := by omega
  simp only [EndsAt]
  rw [hend, hle, show offset + q - size = q - (size - offset) by omega]

/-- The fragments after the first one end where they do after its end. -/
theorem endsAt_add (hq : 0 < q) : EndsAt (size :: rest) (size + q) ↔ EndsAt rest q := by
  simp only [EndsAt, Nat.add_sub_cancel_left]
  constructor
  · rintro (h | ⟨-, h⟩)
    · omega
    · exact h
  · exact fun h => Or.inr ⟨by omega, h⟩

/-- No fragment ends inside the first one. -/
theorem not_endsAt_of_lt (hq : q < size) : ¬ EndsAt (size :: rest) q := by
  simp only [EndsAt]
  omega

end Fragments
