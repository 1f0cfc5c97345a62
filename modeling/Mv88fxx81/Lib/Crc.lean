import Mathlib.Data.Nat.Notation

/-!
# Cyclic redundancy checks

A cyclic redundancy check shifts the message through a register of fixed width, most
significant bit first. The register, started at zero, is linear in the message for the
exclusive or, and two linear maps are equal when they agree on the words with one bit set.
-/

namespace Crc

variable {w n : ℕ}

/-- One message bit is shifted into the register; `poly` lists the low terms of the
polynomial. -/
def step (poly register : BitVec w) (bit : Bool) : BitVec w :=
  if register.msb ^^ bit then (register <<< 1) ^^^ poly else register <<< 1

/-- The register after a message, from zero and without a final inversion. -/
def check (poly : BitVec w) (message : List Bool) : BitVec w := message.foldl (step poly) 0#w

/-- The bits of a word, the most significant first. -/
def bits (word : BitVec n) : List Bool := (List.range n).map fun k => word.getLsbD (n - 1 - k)

/-- The bits of two words one after the other. -/
theorem bits_append {m : ℕ} (x : BitVec m) (y : BitVec n) : bits (x ++ y) = bits x ++ bits y := by
  apply List.ext_getElem
  · simp [bits]
  · intro k hk _
    have hkn : k < m + n := by simpa [bits] using hk
    by_cases hkm : k < m
    · have hhigh : ¬ m + n - 1 - k < n := by omega
      have hindex : m + n - 1 - k - n = m - 1 - k := by omega
      rw [List.getElem_append_left (by simpa [bits] using hkm)]
      simp [bits, BitVec.getLsbD_append, hhigh, hindex]
    · have hlow : m + n - 1 - k < n := by omega
      have hindex : n - 1 - (k - m) = m + n - 1 - k := by omega
      rw [List.getElem_append_right (by simpa [bits] using hkm)]
      simp [bits, BitVec.getLsbD_append, hlow, hindex]

/-! ### Linear maps -/

/-- A map between words that respects the exclusive or. -/
def Linear (f : BitVec n → BitVec w) : Prop := ∀ x y, f (x ^^^ y) = f x ^^^ f y

/-- A linear map takes the zero word to the zero word. -/
theorem Linear.zero {f : BitVec n → BitVec w} (hf : Linear f) : f 0#n = 0#w := by
  have h := hf 0#n 0#n
  rwa [BitVec.xor_self, BitVec.xor_self] at h

/-- Linear maps that agree on every word with one bit set are equal. -/
theorem Linear.ext {f g : BitVec n → BitVec w} (hf : Linear f) (hg : Linear g)
    (hagree : ∀ i < n, f (BitVec.twoPow n i) = g (BitVec.twoPow n i)) (x : BitVec n) :
    f x = g x := by
  -- The induction bounds the bits that may be set.
  suffices hbits : ∀ k ≤ n, ∀ x : BitVec n, (∀ i, k ≤ i → x.getLsbD i = false) → f x = g x by
    exact hbits n (Nat.le_refl n) x fun i hi => BitVec.getLsbD_of_ge x i hi
  intro k
  induction k with
  | zero =>
    intro _ x hx
    have hzero : x = 0#n := BitVec.eq_of_getLsbD_eq fun i _ => by simp [hx i (Nat.zero_le i)]
    rw [hzero, hf.zero, hg.zero]
  | succ k ih =>
    intro hk x hx
    cases hbit : x.getLsbD k with
    | false =>
      apply ih (by omega) x
      intro i hi
      by_cases hik : i = k
      · rw [hik, hbit]
      · exact hx i (by omega)
    | true =>
      have hsplit : x = (x ^^^ BitVec.twoPow n k) ^^^ BitVec.twoPow n k := by
        rw [BitVec.xor_assoc, BitVec.xor_self, BitVec.xor_zero]
      have hrest : f (x ^^^ BitVec.twoPow n k) = g (x ^^^ BitVec.twoPow n k) := by
        apply ih (by omega)
        intro i hi
        rw [BitVec.getLsbD_xor, BitVec.getLsbD_twoPow]
        by_cases hik : i = k
        · subst hik
          simp [hbit, show i < n by omega]
        · rw [hx i (by omega)]
          simp [Ne.symm hik]
      rw [hsplit, hf, hg, hrest, hagree k (by omega)]

/-! ### The register is linear -/

/-- One step is linear in the register and the message bit together. -/
theorem step_xor (poly r s : BitVec w) (a b : Bool) :
    step poly (r ^^^ s) (a ^^ b) = step poly r a ^^^ step poly s b := by
  unfold step
  rw [BitVec.msb_xor, BitVec.shiftLeft_xor_distrib]
  have hswap : ((r.msb ^^ s.msb) ^^ (a ^^ b)) = ((r.msb ^^ a) ^^ (s.msb ^^ b)) := by
    cases r.msb <;> cases s.msb <;> cases a <;> cases b <;> rfl
  rw [hswap]
  cases hr : r.msb ^^ a <;> cases hs : s.msb ^^ b <;> simp only [Bool.xor_false, Bool.xor_true,
    Bool.not_false, Bool.not_true, Bool.false_eq_true, if_true, if_false]
  · rw [BitVec.xor_assoc]
  · rw [BitVec.xor_assoc, BitVec.xor_assoc, BitVec.xor_comm poly]
  · rw [BitVec.xor_assoc, ← BitVec.xor_assoc poly, BitVec.xor_comm poly (s <<< 1),
      BitVec.xor_assoc (s <<< 1), BitVec.xor_self, BitVec.xor_zero]

/-- A run of the register over the bits of an exclusive or, from any two registers. -/
theorem foldl_step_xor (poly : BitVec w) (f g : ℕ → Bool) (indexes : List ℕ) (r s : BitVec w) :
    (indexes.map fun k => (f k ^^ g k)).foldl (step poly) (r ^^^ s) =
      (indexes.map f).foldl (step poly) r ^^^ (indexes.map g).foldl (step poly) s := by
  induction indexes generalizing r s with
  | nil => rfl
  | cons k indexes ih =>
    simp only [List.map_cons, List.foldl_cons]
    rw [step_xor]
    exact ih _ _

/-- The check of a word is linear in the word. -/
theorem check_bits_linear (poly : BitVec w) :
    Linear fun word : BitVec n => check poly (bits word) := by
  intro x y
  have h := foldl_step_xor poly (fun k => x.getLsbD (n - 1 - k)) (fun k => y.getLsbD (n - 1 - k))
    (List.range n) 0#w 0#w
  rw [BitVec.xor_self] at h
  simpa only [check, bits, BitVec.getLsbD_xor] using h

end Crc
