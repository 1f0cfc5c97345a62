import Mathlib.Data.List.GetD
import Mathlib.Tactic.SplitIfs

/-!
# Memory that is programmed by clearing bits

Programming a byte of a memory of this kind clears the bits that are clear in the
data, and cannot set a bit. Data fit a range of the memory when all the bits that
they set are set there; then programming stores the data.
-/

namespace NorMemory

variable {mem : ℕ → BitVec 8} {a i n : ℕ} {b : BitVec 8} {xs ys : List (BitVec 8)}

/-- Program a range from `a` on. -/
def program (mem : ℕ → BitVec 8) (a : ℕ) (bytes : List (BitVec 8)) : ℕ → BitVec 8 := fun x =>
  if a ≤ x ∧ x < a + bytes.length then mem x &&& bytes.getD (x - a) 0 else mem x

/-- The data set only bits that are set in the memory. -/
def Fits (mem : ℕ → BitVec 8) (a : ℕ) (bytes : List (BitVec 8)) : Prop :=
  ∀ i b, bytes[i]? = some b → mem (a + i) &&& b = b

/-- The content of a range of `n` bytes. -/
def stored (mem : ℕ → BitVec 8) (a n : ℕ) : List (BitVec 8) :=
  (List.range n).map fun i => mem (a + i)

@[simp] theorem stored_length : (stored mem a n).length = n := by simp [stored]

theorem stored_getElem? (hi : i < n) : (stored mem a n)[i]? = some (mem (a + i)) := by
  simp [stored, hi]

/-- The content of a range in two parts. -/
theorem stored_add {m : ℕ} : stored mem a (m + n) = stored mem a m ++ stored mem (a + m) n := by
  simp [stored, List.range_add, Nat.add_assoc]

@[simp] theorem program_nil : program mem a [] = mem := by
  funext x
  unfold program
  rw [if_neg (by simp)]

theorem program_outside (hi : i < a ∨ a + xs.length ≤ i) : program mem a xs i = mem i := by
  unfold program
  rw [if_neg (by omega)]

theorem program_inside (hi : xs[i]? = some b) : program mem a xs (a + i) = mem (a + i) &&& b := by
  obtain ⟨hlt, rfl⟩ := List.getElem?_eq_some_iff.mp hi
  unfold program
  rw [if_pos (by omega), Nat.add_sub_cancel_left]
  simp [hlt]

/-- Data that fit are stored. -/
theorem Fits.stores (hfits : Fits mem a xs) (hi : xs[i]? = some b) :
    program mem a xs (a + i) = b := by
  rw [program_inside hi]
  exact hfits i b hi

/-- Programming two ranges one behind the other. -/
theorem program_append :
    program (program mem a xs) (a + xs.length) ys = program mem a (xs ++ ys) := by
  funext x
  unfold program
  rw [List.length_append]
  by_cases hleft : x < a + xs.length
  · rw [if_neg (by omega)]
    by_cases ha : a ≤ x
    · rw [if_pos ⟨ha, hleft⟩, if_pos (by omega), List.getD_append _ _ _ _ (by omega)]
    · rw [if_neg (by omega), if_neg (by omega)]
  · by_cases hright : x < a + xs.length + ys.length
    · rw [if_pos (by omega), if_neg (by omega), if_pos (by omega),
        List.getD_append_right _ _ _ _ (by omega), Nat.sub_sub]
    · rw [if_neg (by omega), if_neg (by omega), if_neg (by omega)]

/-- Data fit in two parts. -/
theorem fits_append : Fits mem a (xs ++ ys) ↔ Fits mem a xs ∧ Fits mem (a + xs.length) ys := by
  constructor
  · intro hfits
    refine ⟨fun i b hi => ?_, fun i b hi => ?_⟩
    · apply hfits i b
      rw [List.getElem?_append_left (List.getElem?_eq_some_iff.mp hi).1]
      exact hi
    · rw [Nat.add_assoc]
      apply hfits (xs.length + i) b
      rw [List.getElem?_append_right (by omega), Nat.add_sub_cancel_left]
      exact hi
  · rintro ⟨hleft, hright⟩ i b hi
    by_cases hlt : i < xs.length
    · rw [List.getElem?_append_left hlt] at hi
      exact hleft i b hi
    · rw [List.getElem?_append_right (by omega)] at hi
      have hmem := hright (i - xs.length) b hi
      rwa [(by omega : a + xs.length + (i - xs.length) = a + i)] at hmem

/-- What has been programmed does not matter to the data behind it. -/
theorem Fits.behind (hfits : Fits mem (a + xs.length) ys) :
    Fits (program mem a xs) (a + xs.length) ys := by
  intro i b hi
  rw [program_outside (by omega)]
  exact hfits i b hi

/-- What is in the memory can be programmed. -/
theorem fits_stored : Fits mem a (stored mem a n) := by
  intro i b hi
  have hlt := (List.getElem?_eq_some_iff.mp hi).1
  rw [stored_length] at hlt
  rw [stored_getElem? hlt] at hi
  obtain rfl := Option.some.inj hi
  exact BitVec.and_self

/-- Programming what is in the memory changes nothing. -/
theorem program_same (hsame : ∀ i b, xs[i]? = some b → mem (a + i) = b) :
    program mem a xs = mem := by
  funext x
  by_cases hx : a ≤ x ∧ x < a + xs.length
  · obtain ⟨i, rfl⟩ := Nat.exists_eq_add_of_le hx.1
    have hi : xs[i]? = some (xs.get ⟨i, by omega⟩) := List.getElem?_eq_getElem _
    rw [program_inside hi, hsame i _ hi, BitVec.and_self]
  · exact program_outside (by omega)

theorem program_stored : program mem a (stored mem a n) = mem := by
  apply program_same
  intro i b hi
  have hlt := (List.getElem?_eq_some_iff.mp hi).1
  rw [stored_length] at hlt
  rw [stored_getElem? hlt] at hi
  exact Option.some.inj hi

/-- Programming what is in the memory before and behind the data changes nothing there. -/
theorem program_between {m : ℕ} :
    program mem a (stored mem a m ++ xs ++ stored mem (a + m + xs.length) n) =
      program mem (a + m) xs := by
  have hleft : program mem a (stored mem a m ++ xs) = program mem (a + m) xs := by
    rw [← program_append, program_stored, stored_length]
  have hbehind : stored mem (a + m + xs.length) n =
      stored (program mem (a + m) xs) (a + m + xs.length) n := by
    unfold stored
    apply List.map_congr_left
    intro i _
    rw [program_outside (by omega)]
  rw [← program_append, hleft, List.length_append, stored_length, hbehind, ← Nat.add_assoc,
    program_stored]

/-- Each byte is as it was or programmed. -/
def Partly (mem mem' : ℕ → BitVec 8) (a : ℕ) (bytes : List (BitVec 8)) : Prop :=
  ∀ x, mem' x = mem x ∨ mem' x = program mem a bytes x

/-- The first `k` bytes are programmed, and the others may be. -/
structure Upto (mem mem' : ℕ → BitVec 8) (a : ℕ) (bytes : List (BitVec 8)) (k : ℕ) : Prop where
  partly : Partly mem mem' a bytes
  programmed : ∀ x < a + k, mem' x = program mem a bytes x

variable {mem' mem₁ : ℕ → BitVec 8} {k : ℕ}

theorem Partly.refl : Partly mem mem a xs := fun _ => .inl rfl

theorem Partly.full : Partly mem (program mem a xs) a xs := fun _ => .inr rfl

/-- A part of the data is programmed, once or again. -/
theorem Partly.step (hmem : Partly mem mem₁ a xs)
    (hpart : ∀ j b, ys[j]? = some b → xs[i + j]? = some b) :
    Partly mem (program mem₁ (a + i) ys) a xs := by
  intro x
  by_cases hx : a + i ≤ x ∧ x < a + i + ys.length
  · obtain ⟨j, rfl⟩ := Nat.exists_eq_add_of_le hx.1
    have hlt : j < ys.length := by omega
    obtain ⟨b, hj⟩ : ∃ b, ys[j]? = some b := ⟨_, List.getElem?_eq_getElem hlt⟩
    have hprogram : program mem a xs (a + i + j) = mem (a + i + j) &&& b := by
      rw [Nat.add_assoc]
      exact program_inside (hpart j b hj)
    right
    rw [program_inside hj, hprogram]
    rcases hmem (a + i + j) with h | h
    · rw [h]
    · rw [h, hprogram, BitVec.and_assoc, BitVec.and_self]
  · rw [program_outside (by omega)]
    exact hmem x

theorem Partly.upto_zero (hmem : Partly mem mem' a xs) : Upto mem mem' a xs 0 := by
  refine ⟨hmem, ?_⟩
  intro x hx
  rcases hmem x with h | h
  · rw [h, program_outside (by omega)]
  · exact h

/-- All the data are programmed. -/
theorem Upto.eq_program (hmem : Upto mem mem' a xs k) (hk : xs.length ≤ k) :
    mem' = program mem a xs := by
  funext x
  by_cases hx : x < a + xs.length
  · exact hmem.programmed x (by omega)
  · rcases hmem.partly x with h | h
    · rw [h, program_outside (by omega)]
    · exact h

/-- The data are programmed behind other data. -/
theorem Upto.after (hmem : Upto (program mem a xs) mem' (a + xs.length) ys k) :
    Upto mem mem' a (xs ++ ys) (xs.length + k) := by
  refine ⟨?_, ?_⟩
  · intro x
    rcases hmem.partly x with h | h
    · by_cases hx : x < a + xs.length
      · right
        rw [h, ← program_append, program_outside (.inl hx)]
      · left
        rw [h, program_outside (by omega)]
    · right
      rw [h, program_append]
  · intro x hx
    rw [hmem.programmed x (by omega), program_append]

/-- The data are the first part of other data. -/
theorem Upto.before (hmem : Upto mem mem' a xs k) (hk : k ≤ xs.length) :
    Upto mem mem' a (xs ++ ys) k := by
  have hsame : ∀ x < a + xs.length, program mem a (xs ++ ys) x = program mem a xs x := by
    intro x hx
    rw [← program_append, program_outside (.inl hx)]
  refine ⟨?_, ?_⟩
  · intro x
    by_cases hx : x < a + xs.length
    · rw [hsame x hx]
      exact hmem.partly x
    · left
      rcases hmem.partly x with h | h
      · exact h
      · rw [h, program_outside (by omega)]
  · intro x hx
    rw [hsame x (by omega)]
    exact hmem.programmed x hx

theorem Upto.outside (hmem : Upto mem mem' a xs k) (hi : i < a ∨ a + xs.length ≤ i) :
    mem' i = mem i := by
  rcases hmem.partly i with h | h
  · exact h
  · rw [h, program_outside hi]

theorem Upto.inside (hmem : Upto mem mem' a xs k) (hfits : Fits mem a xs) (hi : i < k)
    (hb : xs[i]? = some b) : mem' (a + i) = b := by
  rw [hmem.programmed (a + i) (by omega)]
  exact hfits.stores hb

end NorMemory
