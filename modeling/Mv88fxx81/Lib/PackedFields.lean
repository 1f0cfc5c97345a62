import Mathlib.Algebra.Group.Nat.Defs
import Mathlib.Data.List.Basic
import Mathlib.Data.Nat.Notation

/-!
# Words of packed fields

Several values share a word. Each is shifted to its place and the results are joined. When the
places are apart and every value fits its own, each value is read back from its place, and a place
apart from all of them reads as zero.
-/

namespace PackedFields

variable {w : ℕ}

/-- The value of a word between an offset and the offset plus a width. -/
def field (word : BitVec w) (offs width : ℕ) : ℕ := (word.extractLsb' offs width).toNat

/-- A value and its place in the word. -/
structure Packed (w : ℕ) where
  value : BitVec w
  offs : ℕ
  width : ℕ

/-- The value fits its place, and the place the word. -/
def Packed.Fits (f : Packed w) : Prop := f.value.toNat < 2 ^ f.width ∧ f.offs + f.width ≤ w

/-- Two places share no bit. -/
def Apart (offs width offs' width' : ℕ) : Prop := offs + width ≤ offs' ∨ offs' + width' ≤ offs

/-- The word of some values. -/
def pack : List (Packed w) → BitVec w
  | [] => 0
  | f :: fields => f.value <<< f.offs ||| pack fields

variable {a b v : BitVec w} {f : Packed w} {fields : List (Packed w)}
  {offs width offs' width' : ℕ}

@[simp]
theorem field_zero : field (0 : BitVec w) offs width = 0 := by
  unfold field
  simp

theorem field_or : field (a ||| b) offs width = field a offs width ||| field b offs width := by
  unfold field
  rw [BitVec.extractLsb'_or, BitVec.toNat_or]

/-- A place is read from its bits. -/
theorem field_congr (hbits : ∀ i, offs ≤ i → i < offs + width → a.getLsbD i = b.getLsbD i) :
    field a offs width = field b offs width := by
  have heq : a.extractLsb' offs width = b.extractLsb' offs width := by
    apply BitVec.eq_of_getLsbD_eq
    intro i hi
    rw [BitVec.getLsbD_extractLsb', BitVec.getLsbD_extractLsb',
      hbits (offs + i) (by omega) (by omega)]
  unfold field
  rw [heq]

theorem field_eq (word : BitVec w) (offs width : ℕ) :
    field word offs width = word.toNat / 2 ^ offs % 2 ^ width := by
  unfold field
  rw [BitVec.extractLsb'_toNat, Nat.shiftRight_eq_div_pow]

/-- A place is read in two parts. -/
theorem field_split (word : BitVec w) (offs m n : ℕ) :
    field word offs (m + n) = field word offs m + 2 ^ m * field word (offs + m) n := by
  rw [field_eq, field_eq, field_eq, Nat.pow_add, Nat.mod_mul, Nat.pow_add, Nat.div_div_eq_div_mul]

/-- The bits of a small value. -/
theorem getLsbD_of_lt (hv : v.toNat < 2 ^ width) {i : ℕ} (hi : width ≤ i) : v.getLsbD i = false :=
  Nat.testBit_lt_two_pow (Nat.lt_of_lt_of_le hv (Nat.pow_le_pow_right (by omega) hi))

/-- A shifted value is read back from its place. -/
theorem field_shiftLeft_self (hv : v.toNat < 2 ^ width) (hfit : offs + width ≤ w) :
    field (v <<< offs) offs width = v.toNat := by
  have hbits : (v <<< offs).extractLsb' offs width = v.setWidth width := by
    apply BitVec.eq_of_getLsbD_eq
    intro i hi
    have hlt : offs + i < w := by omega
    simp only [BitVec.getLsbD_extractLsb', BitVec.getLsbD_shiftLeft, BitVec.getLsbD_setWidth, hi,
      hlt, decide_true, Bool.true_and, Nat.add_sub_cancel_left]
    simp
  unfold field
  rw [hbits, BitVec.toNat_setWidth, Nat.mod_eq_of_lt hv]

/-- A shifted value leaves no trace outside its place. -/
theorem field_shiftLeft_apart (hv : v.toNat < 2 ^ width) (hapart : Apart offs width offs' width') :
    field (v <<< offs) offs' width' = 0 := by
  have hbits : (v <<< offs).extractLsb' offs' width' = 0 := by
    apply BitVec.eq_of_getLsbD_eq
    intro i hi
    rw [BitVec.getLsbD_extractLsb', BitVec.getLsbD_shiftLeft]
    by_cases hlow : offs' + i < offs
    · simp [hlow]
    · have hhigh : width ≤ offs' + i - offs := by
        unfold Apart at hapart
        omega
      simp [getLsbD_of_lt hv hhigh]
  unfold field
  rw [hbits]
  rfl

/-- A place apart from those of all values. -/
theorem field_pack_apart (hfits : ∀ g ∈ fields, g.Fits)
    (hapart : ∀ g ∈ fields, Apart g.offs g.width offs width) :
    field (pack fields) offs width = 0 := by
  induction fields with
  | nil => exact field_zero
  | cons g fields ih =>
    have hhead := field_shiftLeft_apart (hfits g List.mem_cons_self).1
      (hapart g List.mem_cons_self)
    have htail := ih (fun g' hg => hfits g' (List.mem_cons_of_mem _ hg))
      (fun g' hg => hapart g' (List.mem_cons_of_mem _ hg))
    rw [pack, field_or, hhead, htail]
    rfl

theorem Apart.symm (hapart : Apart offs width offs' width') : Apart offs' width' offs width :=
  Or.symm hapart

/-- Every value is read back from its place. -/
theorem field_pack_of_mem (hfits : ∀ g ∈ fields, g.Fits)
    (hpairs : fields.Pairwise fun g g' => Apart g.offs g.width g'.offs g'.width)
    (hmem : f ∈ fields) : field (pack fields) f.offs f.width = f.value.toNat := by
  induction fields with
  | nil => exact absurd hmem List.not_mem_nil
  | cons g fields ih =>
    obtain ⟨hhead, htail⟩ := List.pairwise_cons.mp hpairs
    have hfit : ∀ g' ∈ fields, g'.Fits := fun g' hg => hfits g' (List.mem_cons_of_mem _ hg)
    rw [pack, field_or]
    rcases List.mem_cons.mp hmem with rfl | hin
    · obtain ⟨hvalue, hplace⟩ := hfits f List.mem_cons_self
      have hrest := field_pack_apart hfit (fun g' hg => (hhead g' hg).symm)
      rw [field_shiftLeft_self hvalue hplace, hrest]
      exact Nat.or_zero _
    · have hfirst := field_shiftLeft_apart (hfits g List.mem_cons_self).1 (hhead f hin)
      rw [hfirst, ih hfit htail hin]
      exact Nat.zero_or _

end PackedFields
