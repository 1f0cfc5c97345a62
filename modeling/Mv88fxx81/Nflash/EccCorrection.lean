import Mathlib.Data.Finset.Card
import Mathlib.Data.Fintype.Prod
import Mathlib.Tactic.IntervalCases
import Mv88fxx81.Nflash.EccFix

/-!
# What the ECC corrects and what it may touch

One flipped bit of a block is corrected, two are detected and one flipped bit of the ECC is
reported. On any other corruption the page is changed only if the result matches the ECC.
-/

namespace Mv88fxx81.Nflash

open Bytes PairedParity

variable {d page given : Page} {stored : Ecc} {i : ℕ} {b : UInt8}

/-! ### One flipped bit of the block -/

theorem toUInt8_toNat (value : Bool) : value.toUInt8.toNat = value.toNat := by
  cases value <;> rfl

/-- The number that eight bits stand for. -/
theorem sum_testBit : ∀ i < 256, (i.testBit 7).toNat <<< 7 + (i.testBit 6).toNat <<< 6 +
    (i.testBit 5).toNat <<< 5 + (i.testBit 4).toNat <<< 4 + (i.testBit 3).toNat <<< 3 +
    (i.testBit 2).toNat <<< 2 + (i.testBit 1).toNat <<< 1 + (i.testBit 0).toNat = i := by
  decide +kernel

theorem findByte_eq {f : ℕ → Bool} (hf : ∀ k < 8, f (2 * k + 7) = i.testBit k)
    (hunused : f 23 = false) (hi : i < 256) :
    findByte ((List.range 24).map fun n => (f n).toUInt8) = i := by
  have hvalue : findByte ((List.range 24).map fun n => (f n).toUInt8) =
      (f 23).toUInt8.toNat <<< 8 + (f 21).toUInt8.toNat <<< 7 + (f 19).toUInt8.toNat <<< 6 +
        (f 17).toUInt8.toNat <<< 5 + (f 15).toUInt8.toNat <<< 4 + (f 13).toUInt8.toNat <<< 3 +
        (f 11).toUInt8.toNat <<< 2 + (f 9).toUInt8.toNat <<< 1 + (f 7).toUInt8.toNat := rfl
  rw [hvalue, hunused, hf 7 (by omega), hf 6 (by omega), hf 5 (by omega), hf 4 (by omega),
    hf 3 (by omega), hf 2 (by omega), hf 1 (by omega), hf 0 (by omega)]
  simp only [toUInt8_toNat, Bool.toNat_false, Nat.zero_shiftLeft, Nat.zero_add]
  exact sum_testBit i hi

theorem findBit_testBit : ∀ n : ℕ, n < 8 → ((n.testBit 2).toUInt8 <<< (2 : UInt8) : UInt8) +
    (n.testBit 1).toUInt8 <<< (1 : UInt8) + (n.testBit 0).toUInt8 = UInt8.ofNat n := by
  decide

theorem findBit_eq {f : ℕ → Bool} (hf : ∀ k < 3, f (2 * k + 1) = b.toNat.testBit k)
    (hb : b < 8) : findBit ((List.range 24).map fun n => (f n).toUInt8) = b := by
  have hvalue : findBit ((List.range 24).map fun n => (f n).toUInt8) =
      (f 5).toUInt8 <<< 2 + (f 3).toUInt8 <<< 1 + (f 1).toUInt8 := rfl
  have hbits := findBit_testBit b.toNat (UInt8.lt_iff_toNat_lt.mp hb)
  rw [UInt8.ofNat_toNat] at hbits
  rw [hvalue, hf 2 (by omega), hf 1 (by omega), hf 0 (by omega), hbits]

/-- One flipped bit changes one parity of every pair, which spell its address. -/
theorem eccDiffers_flipBit (page : Page) (hi : i < 256) (hb : b < 8) (k : Fin 11) (value : Bool) :
    eccDiffers (genEcc3 (flipBit page i b)) (genEcc3 page) (2 * k + value.toNat) =
      column (address i b) k value := by
  rw [eccDiffers_genEcc3, parities_flipBit hi hb, diff_self_left]

theorem eccDistance_flipBit (page : Page) (hi : i < 256) (hb : b < 8) :
    eccDistance (genEcc3 (flipBit page i b)) (genEcc3 page) = 11 := by
  rw [eccDistance_genEcc3, parities_flipBit hi hb, diff_self_left, weight_column]

/-- The bit that the differing ECC bits name is the flipped one. -/
theorem corrected_flipBit (hi : i < 256) (hb : b < 8) :
    corrected page (genEcc3 (flipBit page i b)) = flipBit page i b := by
  have hdiffers := eccDiffers_flipBit page hi hb
  have hbyte : findByte (comparedBits (genEcc3 (flipBit page i b)) (genEcc3 page)) = i := by
    rw [comparedBits_eq]
    refine findByte_eq (fun k hk => ?_) (eccDiffers_unused _ _).2 hi
    have hcolumn := hdiffers ⟨k + 3, by omega⟩ true
    rw [column_true] at hcolumn
    simpa [address, Nat.mul_add] using hcolumn
  have hbit : findBit (comparedBits (genEcc3 (flipBit page i b)) (genEcc3 page)) = b := by
    rw [comparedBits_eq]
    refine findBit_eq (fun k hk => ?_) hb
    have hcolumn := hdiffers ⟨k, by omega⟩ true
    rw [column_true] at hcolumn
    simpa [address, hk] using hcolumn
  rw [corrected, hbyte, hbit]

/-- One flipped bit is corrected. -/
theorem fixEcc3_flipBit (page : Page) (hi : i < 256) (hb : b < 8) :
    (fixEcc3 page (genEcc3 (flipBit page i b))).retVal = .fix ∧
      (fixEcc3 page (genEcc3 (flipBit page i b))).pageData = flipBit page i b := by
  have hdistance := eccDistance_flipBit page hi hb
  have hne : genEcc3 (flipBit page i b) ≠ genEcc3 page := by
    intro heq
    rw [heq, eccDistance_self] at hdistance
    omega
  rw [fixEcc3_eq hne, if_pos hdistance, corrected_flipBit hi hb]
  simp

/-! ### Two flipped bits of the block -/

/-- Two flipped bits change the ECC in an even number of bits. -/
theorem eccDistance_flipBit_flipBit (page : Page) {j : ℕ} {c : UInt8} (hi : i < 256) (hb : b < 8)
    (hj : j < 256) (hc : c < 8) :
    eccDistance (genEcc3 (flipBit (flipBit page i b) j c)) (genEcc3 page) =
      weight (diff (column (address i b)) (column (address j c))) := by
  rw [eccDistance_genEcc3, parities_flipBit hj hc, parities_flipBit hi hb]
  congr 1
  funext k value
  simp only [diff]
  cases parities page k value <;> cases column (address i b) k value <;>
    cases column (address j c) k value <;> rfl

/-- Different bits of a block have different addresses. -/
theorem address_injective {j : ℕ} {c : UInt8} (hi : i < 256) (hb : b < 8) (hj : j < 256)
    (hc : c < 8) (heq : address i b = address j c) : i = j ∧ b = c := by
  have hrow : ∀ k < 8, i.testBit k = j.testBit k := by
    intro k hk
    have h := congrFun heq ⟨k + 3, by omega⟩
    simpa [address] using h
  have hcolumn : ∀ k < 3, b.toNat.testBit k = c.toNat.testBit k := by
    intro k hk
    have h := congrFun heq ⟨k, by omega⟩
    simpa [address, hk] using h
  constructor
  · rw [← sum_testBit i hi, ← sum_testBit j hj]
    simp (disch := omega) only [hrow]
  · have hb' := findBit_testBit b.toNat (UInt8.lt_iff_toNat_lt.mp hb)
    have hc' := findBit_testBit c.toNat (UInt8.lt_iff_toNat_lt.mp hc)
    rw [UInt8.ofNat_toNat] at hb' hc'
    rw [← hb', ← hc']
    simp (disch := omega) only [hcolumn]

/-- Two flipped bits are detected, and the page is left alone. -/
theorem fixEcc3_flipBit_flipBit (page : Page) {j : ℕ} {c : UInt8} (hi : i < 256) (hb : b < 8)
    (hj : j < 256) (hc : c < 8) (hne : ¬ (i = j ∧ b = c)) :
    (fixEcc3 page (genEcc3 (flipBit (flipBit page i b) j c))).retVal = .failData ∧
      (fixEcc3 page (genEcc3 (flipBit (flipBit page i b) j c))).pageData = page := by
  have hdistance := eccDistance_flipBit_flipBit page hi hb hj hc
  have hpos := weight_diff_column_pos fun heq => hne (address_injective hi hb hj hc heq)
  have heven := weight_diff_column (p := address i b) (q := address j c)
  rw [← hdistance] at hpos heven
  have hstored : genEcc3 (flipBit (flipBit page i b) j c) ≠ genEcc3 page := by
    intro heq
    rw [heq, eccDistance_self] at hpos
    omega
  rw [fixEcc3_eq hstored, if_neg (by omega), if_neg (by omega)]
  exact ⟨rfl, rfl⟩

/-! ### One flipped bit of the ECC -/

/-- The byte and the bit of an ECC that `ecc_bit` numbers `n`. -/
def eccPlace (n : ℕ) : Fin 3 × ℕ :=
  if n < 6 then (2, n + 2) else if n < 14 then (0, n - 6) else if n < 22 then (1, n - 14)
  else (2, n - 22)

/-- The bytes of an ECC by number. -/
def Ecc.byte (e : Ecc) : Fin 3 → UInt8
  | 0 => e.byte0
  | 1 => e.byte1
  | 2 => e.byte2

theorem eccBit_eq (e : Ecc) (n : ℕ) :
    eccBit e n = (e.byte (eccPlace n).1).toNat.testBit (eccPlace n).2 := by
  unfold eccBit eccPlace
  by_cases h₂ : n < 6
  · rw [if_pos h₂, if_pos h₂]
    rfl
  · rw [if_neg h₂, if_neg h₂]
    by_cases h₀ : n < 14
    · rw [if_pos h₀, if_pos h₀]
      rfl
    · rw [if_neg h₀, if_neg h₀]
      by_cases h₁ : n < 22
      · rw [if_pos h₁, if_pos h₁]
        rfl
      · rw [if_neg h₁, if_neg h₁]
        rfl

theorem eccPlace_lt : ∀ n < 24, (eccPlace n).2 < 8 := by
  decide

theorem eccPlace_injective : ∀ n < 24, ∀ k < 24, eccPlace n = eccPlace k → n = k := by
  decide

/-- One bit of an ECC is inverted. -/
def flipEcc (e : Ecc) (k : ℕ) : Ecc :=
  let mask : Fin 3 → UInt8 := fun byte =>
    if byte = (eccPlace k).1 then 1 <<< UInt8.ofNat (eccPlace k).2 else 0
  { byte0 := e.byte0 ^^^ mask 0, byte1 := e.byte1 ^^^ mask 1, byte2 := e.byte2 ^^^ mask 2 }

theorem flipEcc_byte (e : Ecc) (k : ℕ) (byte : Fin 3) : (flipEcc e k).byte byte =
    e.byte byte ^^^ (if byte = (eccPlace k).1 then 1 <<< UInt8.ofNat (eccPlace k).2 else 0) := by
  match byte with
  | 0 | 1 | 2 => rfl

theorem one_shiftLeft_testBit : ∀ k < 8, ∀ n < 8,
    ((1 : UInt8) <<< UInt8.ofNat k).toNat.testBit n = (n == k) := by
  decide

/-- A flipped bit of a byte. -/
theorem xor_testBit (x : UInt8) {k n : ℕ} (hk : k < 8) (hn : n < 8) :
    (x ^^^ 1 <<< UInt8.ofNat k).toNat.testBit n = (x.toNat.testBit n ^^ (n == k)) := by
  rw [UInt8.toNat_xor, Nat.testBit_xor, one_shiftLeft_testBit k hk n hn]

theorem eccDiffers_flipEcc (e : Ecc) {k n : ℕ} (hk : k < 24) (hn : n < 24) :
    eccDiffers (flipEcc e k) e n = (n == k) := by
  rw [eccDiffers, eccBit_eq, eccBit_eq, flipEcc_byte]
  by_cases hbyte : (eccPlace n).1 = (eccPlace k).1
  · rw [if_pos hbyte, xor_testBit _ (eccPlace_lt k hk) (eccPlace_lt n hn)]
    have hcancel : ∀ v w : Bool, ((v ^^ w) ^^ v) = w := by decide
    rw [hcancel, Bool.eq_iff_iff, beq_iff_eq, beq_iff_eq]
    constructor
    · intro hbit
      exact eccPlace_injective n hn k hk (Prod.ext hbyte hbit)
    · rintro rfl
      rfl
  · have hne : n ≠ k := by
      rintro rfl
      exact hbyte rfl
    rw [if_neg hbyte, UInt8.xor_zero, Bool.xor_self, beq_eq_false_iff_ne.mpr hne]

theorem eccDistance_flipEcc (e : Ecc) {k : ℕ} (hk : k < 24) : eccDistance (flipEcc e k) e = 1 := by
  have hterms : ∀ n ∈ Finset.range 24, (eccDiffers (flipEcc e k) e n).toNat = (n == k).toNat := by
    intro n hn
    rw [eccDiffers_flipEcc e hk (Finset.mem_range.mp hn)]
  have hsum : ∀ k < 24, ∑ n ∈ Finset.range 24, (n == k).toNat = 1 := by decide
  rw [eccDistance, Finset.sum_congr rfl hterms, hsum k hk]

/-- One flipped bit of the ECC is reported, and the page is left alone. -/
theorem fixEcc3_flipEcc {k : ℕ} (hk : k < 24) :
    (fixEcc3 d (flipEcc (genEcc3 d) k)).retVal = .fail ∧
      (fixEcc3 d (flipEcc (genEcc3 d) k)).pageData = d := by
  have hdistance := eccDistance_flipEcc (genEcc3 d) hk
  have hne : flipEcc (genEcc3 d) k ≠ genEcc3 d := by
    intro heq
    rw [heq, eccDistance_self] at hdistance
    omega
  rw [fixEcc3_eq hne, if_neg (by omega), if_pos hdistance]
  exact ⟨rfl, rfl⟩

/-! ### Blocks that differ in a given number of bits -/

/-- The bits in which two blocks differ. -/
def differences (d d' : Page) : Finset (Fin 256 × Fin 8) :=
  Finset.univ.filter fun p => (d p.1).toNat.testBit p.2 ≠ (d' p.1).toNat.testBit p.2

theorem mem_differences {d d' : Page} {p : Fin 256 × Fin 8} :
    p ∈ differences d d' ↔ (d p.1).toNat.testBit p.2 ≠ (d' p.1).toNat.testBit p.2 := by
  simp [differences]

/-- Blocks without differing bits agree. -/
theorem eq_of_differences_empty {d d' : Page} (hempty : differences d d' = ∅) :
    ∀ j < 256, d j = d' j := by
  intro j hj
  apply UInt8.toNat_inj.mp
  apply Nat.eq_of_testBit_eq
  intro n
  by_cases hn : n < 8
  · have hnot : (⟨j, hj⟩, ⟨n, hn⟩) ∉ differences d d' := by
      rw [hempty]
      exact Finset.notMem_empty _
    rw [mem_differences, not_not] at hnot
    exact hnot
  · have hhigh : ∀ x : UInt8, x.toNat.testBit n = false := by
      intro x
      apply Nat.testBit_lt_two_pow
      exact Nat.lt_of_lt_of_le x.toNat_lt (Nat.pow_le_pow_right (by omega) (by omega))
    rw [hhigh, hhigh]

/-- The bit of a place in a block, as a byte index and a shift. -/
abbrev flipPlace (d : Page) (p : Fin 256 × Fin 8) : Page := flipBit d p.1 (UInt8.ofNat p.2)

theorem place_lt (p : Fin 256 × Fin 8) : UInt8.ofNat p.2 < 8 := by
  have h : ∀ n : Fin 8, UInt8.ofNat n < 8 := by decide
  exact h p.2

/-- Inverting a bit settles or makes one difference. -/
theorem mem_differences_flipPlace {d d' : Page} {p q : Fin 256 × Fin 8} :
    q ∈ differences (flipPlace d p) d' ↔ ¬ (q ∈ differences d d' ↔ q = p) := by
  rw [mem_differences, mem_differences]
  by_cases hbyte : (q.1 : ℕ) = p.1
  · have hflip : flipPlace d p q.1 = d q.1 ^^^ 1 <<< UInt8.ofNat p.2 := by
      rw [hbyte]
      exact Function.update_self _ _ _
    have hq : q = p ↔ ((q.2 : ℕ) == p.2) = true := by
      rw [beq_iff_eq, Prod.ext_iff, Fin.ext_iff, Fin.ext_iff]
      exact and_iff_right hbyte
    rw [hflip, xor_testBit _ p.2.isLt q.2.isLt, hq]
    cases (d q.1).toNat.testBit q.2 <;> cases (d' q.1).toNat.testBit q.2 <;>
      cases ((q.2 : ℕ) == p.2) <;> decide
  · have hflip : flipPlace d p q.1 = d q.1 := Function.update_of_ne hbyte _ _
    have hq : q ≠ p := by
      rintro rfl
      exact hbyte rfl
    rw [hflip]
    simp [hq]

/-- Inverting the only differing bit gives the other block. -/
theorem differences_flip_singleton {d d' : Page} {p : Fin 256 × Fin 8}
    (hp : differences d d' = {p}) : differences (flipPlace d p) d' = ∅ := by
  ext q
  rw [mem_differences_flipPlace, hp, Finset.mem_singleton]
  simp

theorem differences_flip_pair {d d' : Page} {p q : Fin 256 × Fin 8} (hpq : p ≠ q)
    (hdiff : differences d d' = {p, q}) : differences (flipPlace d p) d' = {q} := by
  ext r
  rw [mem_differences_flipPlace, hdiff, Finset.mem_insert, Finset.mem_singleton]
  constructor
  · intro h
    by_cases hr : r = q
    · exact hr
    · exact absurd ⟨fun hmem => hmem.resolve_right hr, Or.inl⟩ h
  · rintro rfl h
    exact hpq (h.mp (Or.inr rfl)).symm

/-- The ECC of 256 bytes corrects one flipped bit and detects two. -/
theorem fixEcc3_corrects_one_detects_two (d : Page) :
    ((fixEcc3 d (genEcc3 d)).retVal = .pass ∧ (fixEcc3 d (genEcc3 d)).pageData = d) ∧
      (∀ given, (differences given d).card = 1 →
        (fixEcc3 given (genEcc3 d)).retVal = .fix ∧
          ∀ j, (fixEcc3 given (genEcc3 d)).pageData j = if j < 256 then d j else given j) ∧
      (∀ given, (differences given d).card = 2 →
        (fixEcc3 given (genEcc3 d)).retVal ≠ .pass ∧
          (fixEcc3 given (genEcc3 d)).retVal ≠ .fix ∧
          (fixEcc3 given (genEcc3 d)).pageData = given) ∧
      (∀ k < 22, (fixEcc3 d (flipEcc (genEcc3 d) k)).retVal = .fail ∧
        (fixEcc3 d (flipEcc (genEcc3 d) k)).pageData = d) := by
  refine ⟨?_, ?_, ?_, ?_⟩
  · rw [fixEcc3_pass rfl]
    exact ⟨rfl, rfl⟩
  · intro given hcard
    obtain ⟨p, hp⟩ := Finset.card_eq_one.mp hcard
    have hsame := eq_of_differences_empty (differences_flip_singleton hp)
    obtain ⟨hret, hpage⟩ := fixEcc3_flipBit given p.1.isLt (place_lt p)
    rw [← genEcc3_congr hsame]
    refine ⟨hret, fun j => ?_⟩
    rw [hpage]
    by_cases hj : j < 256
    · rw [if_pos hj]
      exact hsame j hj
    · have hne : j ≠ p.1 := by omega
      rw [if_neg hj]
      exact Function.update_of_ne hne _ _
  · intro given hcard
    obtain ⟨p, q, hpq, hdiff⟩ := Finset.card_eq_two.mp hcard
    have hsame := eq_of_differences_empty
      (differences_flip_singleton (differences_flip_pair hpq hdiff))
    have hne : ¬ ((p.1 : ℕ) = q.1 ∧ UInt8.ofNat p.2 = UInt8.ofNat q.2) := by
      rintro ⟨hbyte, hbit⟩
      have hinj : ∀ a c : Fin 8, UInt8.ofNat a = UInt8.ofNat c → a = c := by decide
      exact hpq (Prod.ext (Fin.ext hbyte) (hinj _ _ hbit))
    obtain ⟨hret, hpage⟩ := fixEcc3_flipBit_flipBit given p.1.isLt (place_lt p)
      q.1.isLt (place_lt q) hne
    rw [← genEcc3_congr hsame, hret]
    exact ⟨nofun, nofun, hpage⟩
  · intro k hk
    exact fixEcc3_flipEcc (by omega)

/-! ### Any corruption -/

/-- What is promised of `fixEcc3` for any page and any stored ECC. -/
structure FixSafe (page : Page) (stored : Ecc) : Prop where
  /-- Only the block is accessed. -/
  inside : ∀ k ∈ (fixEcc3 page stored).accessed, k < eccBlockSize
  /-- The page is changed by a correction only. -/
  untouched : (fixEcc3 page stored).retVal ≠ .fix → (fixEcc3 page stored).pageData = page
  /-- A correction is reported when the page matches the ECC only. -/
  matching : (fixEcc3 page stored).retVal = .fix →
    genEcc3 (fixEcc3 page stored).pageData = stored
  /-- The stored ECC is only read. -/
  eccKept : (fixEcc3 page stored).eccOrig = stored

/-- The page is changed only if it then matches the ECC, which is reported as a correction. -/
theorem fixEcc3_page (page : Page) (stored : Ecc) :
    ((fixEcc3 page stored).retVal ≠ .fix → (fixEcc3 page stored).pageData = page) ∧
      ((fixEcc3 page stored).retVal = .fix →
        genEcc3 (fixEcc3 page stored).pageData = stored) := by
  by_cases hpass : stored = genEcc3 page
  · rw [fixEcc3_pass hpass]
    exact ⟨fun _ => rfl, nofun⟩
  · rw [fixEcc3_eq hpass]
    by_cases heleven : eccDistance stored (genEcc3 page) = 11
    · rw [if_pos heleven]
      by_cases hfixed : stored = genEcc3 (corrected page stored)
      · simp only [if_pos hfixed]
        exact ⟨fun h => absurd rfl h, fun _ => hfixed.symm⟩
      · simp only [if_neg hfixed]
        exact ⟨fun _ => trivial, nofun⟩
    · rw [if_neg heleven]
      refine ⟨fun _ => rfl, ?_⟩
      by_cases hone : eccDistance stored (genEcc3 page) = 1
      · simp only [if_pos hone]
        exact nofun
      · simp only [if_neg hone]
        exact nofun

/-- Shifting a byte out of place keeps only the value `1`. -/
theorem shiftedOut_eq_iff : shiftedOut stored = stored ↔ stored = ⟨1, 1, 1⟩ := by
  have hbyte : ∀ x : UInt8, ~~~x >>> 7 = x ↔ x = 1 :=
    byte_induction (P := fun x => ~~~x >>> 7 = x ↔ x = 1)
      (by decide +kernel)
  obtain ⟨x₀, x₁, x₂⟩ := stored
  simp only [shiftedOut, Ecc.mk.injEq, hbyte]

/-- A set unused bit puts the byte to correct outside of the block. -/
theorem le_findByte {f : ℕ → Bool} (hunused : f 23 = true) :
    256 ≤ findByte ((List.range 24).map fun n => (f n).toUInt8) := by
  have hvalue : findByte ((List.range 24).map fun n => (f n).toUInt8) =
      (f 23).toUInt8.toNat <<< 8 + (f 21).toUInt8.toNat <<< 7 + (f 19).toUInt8.toNat <<< 6 +
        (f 17).toUInt8.toNat <<< 5 + (f 15).toUInt8.toNat <<< 4 + (f 13).toUInt8.toNat <<< 3 +
        (f 11).toUInt8.toNat <<< 2 + (f 9).toUInt8.toNat <<< 1 + (f 7).toUInt8.toNat := rfl
  rw [hvalue, hunused]
  have hhigh : (true.toUInt8.toNat) <<< 8 = 256 := rfl
  omega

/-- `fixEcc3` keeps its promises for the ECC of the page, and for one stored ECC that survives
being shifted out as long as no byte to correct is looked for. -/
theorem fixSafe_iff (page : Page) (stored : Ecc) :
    FixSafe page stored ↔ stored = genEcc3 page ∨
      (stored = ⟨1, 1, 1⟩ ∧ eccDistance stored (genEcc3 page) ≠ 11) := by
  obtain ⟨huntouched, hmatching⟩ := fixEcc3_page page stored
  have hblock : ∀ k ∈ List.range 256, k < eccBlockSize := by
    intro k hk
    rw [List.mem_range] at hk
    exact hk
  by_cases hpass : stored = genEcc3 page
  · refine iff_of_true ⟨?_, huntouched, hmatching, ?_⟩ (.inl hpass)
    · rw [fixEcc3_pass hpass]
      dsimp only
      exact hblock
    · rw [fixEcc3_pass hpass]
  · have hkept : (fixEcc3 page stored).eccOrig = shiftedOut stored := by
      rw [fixEcc3_eq hpass]
      by_cases heleven : eccDistance stored (genEcc3 page) = 11
      · rw [if_pos heleven]
      · rw [if_neg heleven]
    constructor
    · intro hsafe
      have hones : stored = ⟨1, 1, 1⟩ := shiftedOut_eq_iff.mp (hkept ▸ hsafe.eccKept)
      refine .inr ⟨hones, fun heleven => ?_⟩
      have hunused : eccDiffers stored (genEcc3 page) 23 = true := by
        rw [eccDiffers, eccBit_genEcc3_unused.2, hones]
        rfl
      have hfar := le_findByte hunused
      rw [← comparedBits_eq] at hfar
      have hinside := hsafe.inside (findByte (comparedBits stored (genEcc3 page)))
      rw [fixEcc3_eq hpass, if_pos heleven] at hinside
      have hlt := hinside (List.mem_append_right _ List.mem_cons_self)
      rw [eccBlockSize] at hlt
      omega
    · rintro (hsame | ⟨hones, hdistance⟩)
      · exact absurd hsame hpass
      · refine ⟨?_, huntouched, hmatching, ?_⟩
        · rw [fixEcc3_eq hpass, if_neg hdistance]
          dsimp only
          exact hblock
        · rw [hkept]
          exact shiftedOut_eq_iff.mpr hones

/-- A block of zeros has the ECC `FF FF FF`; with one flipped bit in the stored ECC, its bytes
are lost. -/
theorem not_fixSafe : ¬ FixSafe (fun _ => 0) ⟨0xfe, 0xff, 0xff⟩ := by
  intro hsafe
  have hkept := hsafe.eccKept
  revert hkept
  decide +kernel

end Mv88fxx81.Nflash
