import Mv88fxx81.Nflash.EccParity

/-!
# Correcting by the ECC

`fixEcc3` compares the stored ECC of a block with the one of its contents. The number of
differing bits tells one flipped bit of the block from one flipped bit of the ECC and from
two flipped bits of the block.
-/

namespace Mv88fxx81.Nflash

open Bytes PairedParity

variable {d d' page : Page} {stored : Ecc} {i : ℕ} {b : UInt8}

/-! ### What is compared -/

/-- The bits in which two ECCs differ, as `ecc_bit` numbers them. -/
def eccDiffers (e e' : Ecc) (n : ℕ) : Bool := eccBit e n ^^ eccBit e' n

/-- The number of bits in which two ECCs differ. -/
def eccDistance (e e' : Ecc) : ℕ := ∑ n ∈ Finset.range 24, (eccDiffers e e' n).toNat

/-- Seven turns of the loop take the bits of an inverted byte. -/
theorem takeBits_not (byte : UInt8) : takeBits 7 (~~~byte) =
    ((List.range 8).map fun n => (!byte.toNat.testBit n).toUInt8, ~~~byte >>> 7) :=
  byte_induction (P := fun byte => takeBits 7 (~~~byte) =
    ((List.range 8).map fun n => (!byte.toNat.testBit n).toUInt8, ~~~byte >>> 7))
    (by decide +kernel) byte

/-- `ecc_bit` for a stored and a calculated ECC. -/
def comparedBits (e e' : Ecc) : List UInt8 :=
  eccBits (takeBits 7 (~~~e.byte0)).1 (takeBits 7 (~~~e.byte1)).1 (takeBits 7 (~~~e.byte2)).1
    (takeBits 7 (~~~e'.byte0)).1 (takeBits 7 (~~~e'.byte1)).1 (takeBits 7 (~~~e'.byte2)).1

/-- The sum of two inverted bits. -/
theorem not_toUInt8_xor (v w : Bool) : (!v).toUInt8 ^^^ (!w).toUInt8 = (v ^^ w).toUInt8 := by
  cases v <;> cases w <;> rfl

/-- The compared bits are those in which the ECCs differ. -/
theorem comparedBits_eq (e e' : Ecc) :
    comparedBits e e' = (List.range 24).map fun n => (eccDiffers e e' n).toUInt8 := by
  simp only [comparedBits, takeBits_not, eccBits, List.range_succ, List.range_zero, List.nil_append,
    List.cons_append, List.map_cons, List.map_nil, List.drop_succ_cons, List.drop_zero,
    List.take_succ_cons, List.take_zero, List.zipWith_cons_cons, List.zipWith_nil_left,
    not_toUInt8_xor]
  rfl

/-- `ecc_sum` counts the differing bits. -/
theorem eccSum_toNat {f : ℕ → Bool} {m : ℕ} (hm : m < 256) :
    (eccSum ((List.range m).map fun n => (f n).toUInt8)).toNat =
      ∑ n ∈ Finset.range m, (f n).toNat := by
  have hbound : ∀ k, ∑ n ∈ Finset.range k, (f n).toNat ≤ k := by
    intro k
    have h := Finset.sum_le_card_nsmul (Finset.range k) (fun n => (f n).toNat) 1
      fun n _ => Bool.toNat_le (f n)
    simpa using h
  induction m with
  | zero => rfl
  | succ m ih =>
    have ih := ih (by omega)
    have hlast : ((f m).toUInt8).toNat = (f m).toNat := by cases f m <;> rfl
    have hm' := hbound m
    have hone := Bool.toNat_le (f m)
    rw [Finset.sum_range_succ]
    simp only [eccSum, List.range_succ, List.map_append, List.map_cons, List.map_nil,
      List.foldl_append, List.foldl_cons, List.foldl_nil] at ih ⊢
    rw [UInt8.toNat_add, ih, hlast]
    omega

/-- The sum counts the bits in which the ECCs differ. -/
theorem eccSum_comparedBits (e e' : Ecc) :
    (eccSum (comparedBits e e')).toNat = eccDistance e e' := by
  rw [comparedBits_eq]
  exact eccSum_toNat (by omega)

/-- The sum, as the code compares it. -/
theorem eccSum_eq_iff (e e' : Ecc) (n : UInt8) :
    eccSum (comparedBits e e') = n ↔ eccDistance e e' = n.toNat := by
  rw [← eccSum_comparedBits, UInt8.toNat_inj]

/-- The bytes of a stored ECC after they were shifted out. -/
def shiftedOut (e : Ecc) : Ecc :=
  { byte0 := ~~~e.byte0 >>> 7, byte1 := ~~~e.byte1 >>> 7, byte2 := ~~~e.byte2 >>> 7 }

/-! ### The results of `fixEcc3` -/

/-- The page after the bit that `ecc_bit` names was inverted. -/
def corrected (page : Page) (stored : Ecc) : Page :=
  flipBit page (findByte (comparedBits stored (genEcc3 page)))
    (findBit (comparedBits stored (genEcc3 page)))

/-- Flipping a bit twice changes nothing. -/
theorem flipBit_flipBit : flipBit (flipBit d i b) i b = d := by
  funext k
  by_cases hk : k = i
  · subst hk
    unfold flipBit
    rw [Function.update_self, Function.update_self, UInt8.xor_assoc, UInt8.xor_self, UInt8.xor_zero]
  · unfold flipBit
    rw [Function.update_of_ne hk, Function.update_of_ne hk]

/-- A page whose ECC agrees is passed. -/
theorem fixEcc3_pass (hstored : stored = genEcc3 page) :
    fixEcc3 page stored =
      { retVal := .pass, pageData := page, eccOrig := stored, accessed := List.range 256 } :=
  if_pos hstored

/-- Without a match, the distance of the two ECCs selects the result. -/
theorem fixEcc3_eq (hstored : stored ≠ genEcc3 page) :
    fixEcc3 page stored =
      if eccDistance stored (genEcc3 page) = 11 then
        { retVal := if stored = genEcc3 (corrected page stored) then .fix else .failData
          pageData :=
            if stored = genEcc3 (corrected page stored) then corrected page stored else page
          eccOrig := shiftedOut stored
          accessed := List.range 256 ++ [findByte (comparedBits stored (genEcc3 page))] }
      else
        { retVal := if eccDistance stored (genEcc3 page) = 1 then .fail else .failData
          pageData := page
          eccOrig := shiftedOut stored
          accessed := List.range 256 } := by
  have hshifted : Ecc.mk (takeBits 7 (~~~stored.byte0)).2 (takeBits 7 (~~~stored.byte1)).2
      (takeBits 7 (~~~stored.byte2)).2 = shiftedOut stored := by
    simp only [takeBits_not, shiftedOut]
  have heleven := eccSum_eq_iff stored (genEcc3 page) 11
  have hone := eccSum_eq_iff stored (genEcc3 page) 1
  refine (if_neg hstored).trans ?_
  change (if eccSum (comparedBits stored (genEcc3 page)) = 11 then _
    else if eccSum (comparedBits stored (genEcc3 page)) = 1 then _ else _) = _
  by_cases hdistance : eccDistance stored (genEcc3 page) = 11
  · rw [if_pos hdistance, if_pos (heleven.mpr hdistance), hshifted]
    change (if stored = genEcc3 (corrected page stored) then _ else _) = _
    by_cases hfixed : stored = genEcc3 (corrected page stored)
    · rw [if_pos hfixed, if_pos hfixed, if_pos hfixed]
      rfl
    · rw [if_neg hfixed, if_neg hfixed, if_neg hfixed]
      simp only [flipBit_flipBit]
      rfl
  · rw [if_neg hdistance, if_neg (mt heleven.mp hdistance), hshifted]
    by_cases hsingle : eccDistance stored (genEcc3 page) = 1
    · rw [if_pos hsingle, if_pos (hone.mpr hsingle)]
      rfl
    · rw [if_neg hsingle, if_neg (mt hone.mp hsingle)]
      rfl

/-! ### The ECCs of two blocks -/

/-- The parities of a block as truth values. -/
def parities (d : Page) : Pairs 11 := fun k value => isSet (parity d k value)

/-- The parities that a flipped bit changes. -/
theorem parities_flipBit (hi : i < 256) (hb : b < 8) :
    parities (flipBit d i b) = diff (parities d) (column (address i b)) := by
  funext k value
  exact isSet_parity_flipBit hi hb k value

/-- ECCs differ where the parities do. -/
theorem eccDiffers_genEcc3 (k : Fin 11) (value : Bool) :
    eccDiffers (genEcc3 d) (genEcc3 d') (2 * k + value.toNat) =
      diff (parities d) (parities d') k value := by
  rw [eccDiffers, eccBit_genEcc3, eccBit_genEcc3]
  exact Bool.not_xor_not _ _

/-- The two unused bits never differ. -/
theorem eccDiffers_unused (d d' : Page) :
    eccDiffers (genEcc3 d) (genEcc3 d') 22 = false ∧
      eccDiffers (genEcc3 d) (genEcc3 d') 23 = false := by
  constructor
  · rw [eccDiffers, eccBit_genEcc3_unused.1, eccBit_genEcc3_unused.1]
    rfl
  · rw [eccDiffers, eccBit_genEcc3_unused.2, eccBit_genEcc3_unused.2]
    rfl

/-- The two unused bits do not count where they agree. -/
theorem sum_range_used {f : ℕ → Bool} (hlow : f 22 = false) (hhigh : f 23 = false) :
    ∑ n ∈ Finset.range 24, (f n).toNat = ∑ n ∈ Finset.range (2 * 11), (f n).toNat := by
  rw [Finset.sum_range_succ, Finset.sum_range_succ, hlow, hhigh]
  simp only [Bool.toNat_false, Nat.add_zero, Nat.reduceMul]

/-- Generated ECCs differ in as many bits as the parities of their blocks. -/
theorem eccDistance_genEcc3 :
    eccDistance (genEcc3 d) (genEcc3 d') = weight (diff (parities d) (parities d')) := by
  obtain ⟨hlow, hhigh⟩ := eccDiffers_unused d d'
  have hpairs := weight_pairs (m := 11) (eccDiffers (genEcc3 d) (genEcc3 d'))
  simp only [eccDiffers_genEcc3] at hpairs
  have hused := sum_range_used hlow hhigh
  exact hused.trans hpairs.symm

/-- An ECC does not differ from itself. -/
theorem eccDistance_self (e : Ecc) : eccDistance e e = 0 := by
  simp [eccDistance, eccDiffers]

/-- The difference to a difference. -/
theorem diff_self_left (p q : Pairs 11) : diff (diff p q) p = q := by
  funext k value
  simp [diff, Bool.xor_comm]

/-- An ECC is given by its bytes. -/
theorem Ecc.eq_of_bytes {e e' : Ecc} (h₀ : e.byte0 = e'.byte0) (h₁ : e.byte1 = e'.byte1)
    (h₂ : e.byte2 = e'.byte2) : e = e' := by
  cases e
  cases e'
  simp_all

/-- Two blocks that agree have the same ECC. -/
theorem genEcc3_congr (hsame : ∀ k < 256, d k = d' k) : genEcc3 d = genEcc3 d' := by
  have hfold : ∀ (f : Page → ℕ → UInt8), (∀ k < 256, f d k = f d' k) →
      ∀ (indexes : List ℕ), (∀ k ∈ indexes, k < 256) → ∀ x : UInt8,
      indexes.foldl (fun r k => r ^^^ f d k) x = indexes.foldl (fun r k => r ^^^ f d' k) x := by
    intro f hf indexes
    induction indexes with
    | nil => exact fun _ _ => rfl
    | cons k indexes ih =>
      intro hindexes x
      simp only [List.foldl_cons]
      rw [hf k (hindexes k List.mem_cons_self)]
      exact ih (fun k hk => hindexes k (List.mem_cons_of_mem _ hk)) _
  have hparitr : ∀ k < 256, paritr d k = paritr d' k := by
    intro k hk
    rw [paritr, paritr, hsame k hk]
  have hrange : ∀ k ∈ List.range 256, k < 256 := fun k hk => List.mem_range.mp hk
  have hparitc : paritc d = paritc d' := hfold (fun d => d) hsame (List.range 256) hrange 0
  have hsum : sum d = sum d' := hfold paritr hparitr (List.range 256) hrange 0
  have hstripe : ∀ k < 8, stripe (2 ^ (k + 1)) (2 ^ k) d = stripe (2 ^ (k + 1)) (2 ^ k) d' := by
    intro k hk
    rw [stripe_eq, stripe_eq]
    apply hfold paritr hparitr
    intro j hj
    rw [stripeIndexes_eq k hk] at hj
    exact hrange j (List.mem_of_mem_filter hj)
  have hrow : ∀ first n, first + n / 2 < 8 → rowBit d first n = rowBit d' first n := by
    intro first n hn
    unfold rowBit rowParity
    rw [hstripe _ hn, hsum]
  have hcolumn : ∀ n, columnBit d n = columnBit d' n := by
    intro n
    unfold columnBit columnParity
    rw [hparitc]
  apply Ecc.eq_of_bytes
  · rw [byte0_eq, byte0_eq]
    simp (disch := omega) only [hrow]
  · rw [byte1_eq, byte1_eq]
    simp (disch := omega) only [hrow]
  · rw [byte2_eq, byte2_eq]
    simp only [hcolumn]

end Mv88fxx81.Nflash
