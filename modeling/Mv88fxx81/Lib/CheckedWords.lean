import Mathlib.Algebra.Group.Nat.Defs
import Mathlib.Data.Nat.Notation

/-!
# Checked computations with words

An operation on words faults where its result is not defined, or where it does not fit a word. A
computation that goes through a fault ends there.
-/

namespace CheckedWords

/-- What goes wrong in a computation with words. -/
inductive Fault
  | divisionByZero
  | shiftAmount
  | overflow
  deriving DecidableEq, Repr

/-- A computation that may fault. -/
abbrev Checked (α : Type) := Except Fault α

variable {n : ℕ}

/-- The quotient of two words. -/
def div (a b : BitVec n) : Checked (BitVec n) :=
  if b = 0 then throw .divisionByZero else pure (a / b)

/-- The product of two words. -/
def mul (a b : BitVec n) : Checked (BitVec n) :=
  if a.toNat * b.toNat < 2 ^ n then pure (a * b) else throw .overflow

/-- A word shifted left by the amount in another one. -/
def shiftLeft (a amount : BitVec n) : Checked (BitVec n) :=
  if amount.toNat < n then
    if a.toNat * 2 ^ amount.toNat < 2 ^ n then pure (a <<< amount.toNat) else throw .overflow
  else throw .shiftAmount

section Sequences

variable {α β : Type} {x : Checked α} {f : α → Checked β}

/-- A computation goes through without a fault. -/
def Completes (x : Checked α) : Prop := ∃ a, x = .ok a

/-- A computation without a fault goes on. -/
@[simp]
theorem ok_bind {a : α} : (Except.ok a >>= f : Checked β) = f a := rfl

/-- A fault ends a computation. -/
@[simp]
theorem error_bind {fault : Fault} : (Except.error fault >>= f : Checked β) = .error fault := rfl

/-- A sequence of computations succeeds when each does. -/
theorem bind_eq_ok {b : β} : x >>= f = .ok b ↔ ∃ a, x = .ok a ∧ f a = .ok b := by
  cases x with
  | error fault =>
    constructor
    · intro h
      cases h
    · rintro ⟨_, h, _⟩
      cases h
  | ok a =>
    constructor
    · exact fun h => ⟨a, rfl, h⟩
    · rintro ⟨_, h, hf⟩
      cases h
      exact hf

/-- A value completes. -/
theorem completes_pure (a : α) : Completes (pure a : Checked α) := ⟨a, rfl⟩

/-- A fault does not complete. -/
theorem not_completes_error {fault : Fault} : ¬ Completes (.error fault : Checked α) := by
  rintro ⟨_, h⟩
  cases h

/-- A sequence completes if both parts do. -/
theorem completes_bind : Completes (x >>= f) ↔ ∃ a, x = .ok a ∧ Completes (f a) := by
  constructor
  · rintro ⟨b, h⟩
    obtain ⟨a, ha, hb⟩ := bind_eq_ok.mp h
    exact ⟨a, ha, b, hb⟩
  · rintro ⟨a, ha, b, hb⟩
    exact ⟨b, bind_eq_ok.mpr ⟨a, ha, hb⟩⟩

end Sequences

variable {a b amount c : BitVec n}

/-- When a division has a result. -/
theorem div_eq_ok : div a b = .ok c ↔ b ≠ 0 ∧ a / b = c := by
  unfold div
  by_cases hzero : b = 0
  · rw [if_pos hzero]
    constructor
    · intro h
      cases h
    · exact fun h => absurd hzero h.1
  · rw [if_neg hzero]
    constructor
    · intro h
      exact ⟨hzero, Except.ok.inj h⟩
    · exact fun h => congrArg _ h.2

/-- When a product has no overflow. -/
theorem mul_eq_ok : mul a b = .ok c ↔ a.toNat * b.toNat < 2 ^ n ∧ a * b = c := by
  unfold mul
  by_cases hfits : a.toNat * b.toNat < 2 ^ n
  · rw [if_pos hfits]
    constructor
    · intro h
      exact ⟨hfits, Except.ok.inj h⟩
    · exact fun h => congrArg _ h.2
  · rw [if_neg hfits]
    constructor
    · intro h
      cases h
    · exact fun h => absurd h.1 hfits

/-- When a shift loses no bit. -/
theorem shiftLeft_eq_ok : shiftLeft a amount = .ok c ↔
    (amount.toNat < n ∧ a.toNat * 2 ^ amount.toNat < 2 ^ n) ∧ a <<< amount.toNat = c := by
  unfold shiftLeft
  by_cases hamount : amount.toNat < n
  · rw [if_pos hamount]
    by_cases hfits : a.toNat * 2 ^ amount.toNat < 2 ^ n
    · rw [if_pos hfits]
      constructor
      · intro h
        exact ⟨⟨hamount, hfits⟩, Except.ok.inj h⟩
      · exact fun h => congrArg _ h.2
    · rw [if_neg hfits]
      constructor
      · intro h
        cases h
      · exact fun h => absurd h.1.2 hfits
  · rw [if_neg hamount]
    constructor
    · intro h
      cases h
    · exact fun h => absurd h.1.1 hamount

/-- A product that fits is the product of the numbers. -/
theorem toNat_mul_of_fits (hfits : a.toNat * b.toNat < 2 ^ n) :
    (a * b).toNat = a.toNat * b.toNat := by
  rw [BitVec.toNat_mul, Nat.mod_eq_of_lt hfits]

/-- A shifted word that fits is a multiple of a power of two. -/
theorem toNat_shiftLeft_of_fits {k : ℕ} (hfits : a.toNat * 2 ^ k < 2 ^ n) :
    (a <<< k).toNat = a.toNat * 2 ^ k := by
  rw [BitVec.toNat_shiftLeft, Nat.shiftLeft_eq, Nat.mod_eq_of_lt hfits]

end CheckedWords
