import Mv88fxx81.Lib.Bytes
import Mv88fxx81.Lib.Literals
import Mv88fxx81.Lib.PairedParity
import Mv88fxx81.Nflash.Ecc3

/-!
# The parities of an ECC

The 22 used bits of an ECC are eleven pairs of parities, one pair for every address bit of a
position in the block: three bits for the place in the byte and eight for the byte.
-/

namespace Mv88fxx81.Nflash

open Bytes PairedParity

variable {d : Page} {i : ℕ} {b : UInt8}

/-- The value of a parity. -/
def isSet (parit : UInt8) : Bool := parit ≠ 0

/-- A byte that holds a parity. -/
def IsBit (x : UInt8) : Prop := ∃ value : Bool, x = value.toUInt8

/-- Zero is a bit. -/
theorem isBit_zero : IsBit 0 := ⟨false, rfl⟩

/-- One is a bit. -/
theorem isBit_one : IsBit 1 := ⟨true, rfl⟩

/-- The sum of two bits. -/
theorem IsBit.xor {x y : UInt8} (hx : IsBit x) (hy : IsBit y) : IsBit (x ^^^ y) := by
  obtain ⟨v, rfl⟩ := hx
  obtain ⟨w, rfl⟩ := hy
  exact ⟨v ^^ w, by cases v <;> cases w <;> rfl⟩

/-- Which sums of bits are set. -/
theorem isSet_xor {x y : UInt8} (hx : IsBit x) (hy : IsBit y) :
    isSet (x ^^^ y) = (isSet x ^^ isSet y) := by
  obtain ⟨v, rfl⟩ := hx
  obtain ⟨w, rfl⟩ := hy
  cases v <;> cases w <;> rfl

/-- The bit of a truth value. -/
@[simp] theorem isSet_toUInt8 (value : Bool) : isSet value.toUInt8 = value := by
  cases value <;> rfl

/-- A sum of bits is a bit. -/
theorem isBit_foldl {ι : Type} {f : ι → UInt8} (hf : ∀ k, IsBit (f k)) (indexes : List ι)
    {x : UInt8} (hx : IsBit x) : IsBit (indexes.foldl (fun r k => r ^^^ f k) x) := by
  induction indexes generalizing x with
  | nil => exact hx
  | cons k indexes ih => exact ih (hx.xor (hf k))

/-! ### The parity of some bits of a byte -/

/-- The masks of the bits of a byte. -/
def bitMasks : List UInt8 := [0x01, 0x02, 0x04, 0x08, 0x10, 0x20, 0x40, 0x80]

/-- A masked byte is zero or the mask. -/
theorem and_bitMask {mask : UInt8} (hmask : mask ∈ bitMasks) (x : UInt8) :
    x &&& mask = 0 ∨ x &&& mask = mask := by
  have hpow : bitMasks.map UInt8.toBitVec = (List.range 8).map (BitVec.twoPow 8) := rfl
  obtain ⟨k, -, hk⟩ := List.mem_map.mp (hpow ▸ List.mem_map_of_mem hmask)
  have hand : (x &&& mask).toBitVec = if x.toBitVec.getLsbD k then mask.toBitVec else 0#8 := by
    rw [UInt8.toBitVec_and, ← hk, BitVec.and_twoPow]
  cases hbit : x.toBitVec.getLsbD k with
  | false =>
    left
    apply UInt8.eq_of_toBitVec_eq
    rw [hand, hbit]
    rfl
  | true =>
    right
    apply UInt8.eq_of_toBitVec_eq
    rw [hand, hbit, if_pos rfl]

/-- A masked bit of a byte is a bit. -/
theorem isBit_paritBit (x mask : UInt8) : IsBit (paritBit x mask) := by
  unfold paritBit
  by_cases hx : x &&& mask ≠ 0
  · rw [if_pos hx]
    exact isBit_one
  · rw [if_neg hx]
    exact isBit_zero

/-- The masked bit of a sum. -/
theorem paritBit_xor {mask : UInt8} (hmask : mask ∈ bitMasks) (x y : UInt8) :
    paritBit (x ^^^ y) mask = paritBit x mask ^^^ paritBit y mask := by
  have hand : (x ^^^ y) &&& mask = (x &&& mask) ^^^ (y &&& mask) := by
    apply UInt8.eq_of_toBitVec_eq
    ext i hi
    simp only [UInt8.toBitVec_and, UInt8.toBitVec_xor, BitVec.getElem_and, BitVec.getElem_xor,
      Bool.and_xor_distrib_right]
  have hpos : mask ≠ 0 := by
    rintro rfl
    revert hmask
    decide
  unfold paritBit
  rw [hand]
  rcases and_bitMask hmask x with hx | hx <;> rcases and_bitMask hmask y with hy | hy <;>
    rw [hx, hy] <;> simp [hpos]

/-- The parity of the bits that some masks select. -/
def maskParity (masks : List UInt8) (x : UInt8) : UInt8 :=
  masks.foldl (fun parit mask => parit ^^^ paritBit x mask) 0

/-- The parity under some masks is a bit. -/
theorem isBit_maskParity (masks : List UInt8) (x : UInt8) : IsBit (maskParity masks x) :=
  isBit_foldl (isBit_paritBit x) masks isBit_zero

/-- The parity of an exclusive or, also from given parities of earlier bits. -/
theorem foldl_paritBit_xor {masks : List UInt8} (hmasks : ∀ mask ∈ masks, mask ∈ bitMasks)
    (x y r s : UInt8) :
    masks.foldl (fun parit mask => parit ^^^ paritBit (x ^^^ y) mask) (r ^^^ s) =
      masks.foldl (fun parit mask => parit ^^^ paritBit x mask) r ^^^
        masks.foldl (fun parit mask => parit ^^^ paritBit y mask) s := by
  induction masks generalizing r s with
  | nil => rfl
  | cons mask masks ih =>
    have hmask := hmasks mask List.mem_cons_self
    have hterm : r ^^^ s ^^^ (paritBit x mask ^^^ paritBit y mask) =
        (r ^^^ paritBit x mask) ^^^ (s ^^^ paritBit y mask) := by ac_rfl
    simp only [List.foldl_cons]
    rw [paritBit_xor hmask, hterm]
    exact ih (fun mask hmem => hmasks mask (List.mem_cons_of_mem _ hmem)) _ _

/-- The parity of a sum. -/
theorem maskParity_xor {masks : List UInt8} (hmasks : ∀ mask ∈ masks, mask ∈ bitMasks)
    (x y : UInt8) : maskParity masks (x ^^^ y) = maskParity masks x ^^^ maskParity masks y :=
  foldl_paritBit_xor hmasks x y 0 0

/-! ### Column parities -/

/-- The parities over the bits of a byte whose place has bit `k` clear or set. -/
def columnMasks : Fin 3 → Bool → List UInt8
  | 0, false => [0x40, 0x10, 0x04, 0x01]
  | 0, true => [0x80, 0x20, 0x08, 0x02]
  | 1, false => [0x20, 0x10, 0x02, 0x01]
  | 1, true => [0x80, 0x40, 0x08, 0x04]
  | 2, false => [0x08, 0x04, 0x02, 0x01]
  | 2, true => [0x80, 0x40, 0x20, 0x10]

/-- The parity over the places of one kind in all bytes. -/
def columnParity (d : Page) (k : Fin 3) (value : Bool) : UInt8 :=
  maskParity (columnMasks k value) (paritc d)

/-- The columns are made of the masks of single bits. -/
theorem columnMasks_subset :
    ∀ k : Fin 3, ∀ value, ∀ mask ∈ columnMasks k value, mask ∈ bitMasks := by
  decide +kernel

/-- One bit takes part in one parity of every pair. -/
theorem columnParity_bit : ∀ k : Fin 3, ∀ value, ∀ n < 8,
    maskParity (columnMasks k value) (1 <<< UInt8.ofNat n) = (n.testBit k == value).toUInt8 := by
  decide

/-- A flipped bit changes the column sums by one bit. -/
theorem paritc_flipBit (hi : i < 256) : paritc (flipBit d i b) = paritc d ^^^ 1 <<< b :=
  foldl_update_mem (· ^^^ ·) List.nodup_range (List.mem_range.mpr hi) 0

/-- A flipped bit changes the column parities it belongs to. -/
theorem columnParity_flipBit (hi : i < 256) (hb : b < 8) (k : Fin 3) (value : Bool) :
    columnParity (flipBit d i b) k value =
      columnParity d k value ^^^ (b.toNat.testBit k == value).toUInt8 := by
  have hbit := columnParity_bit k value b.toNat (UInt8.lt_iff_toNat_lt.mp hb)
  rw [UInt8.ofNat_toNat] at hbit
  rw [columnParity, paritc_flipBit hi, maskParity_xor (columnMasks_subset k value), hbit]
  rfl

/-! ### Row parities -/

/-- The parity tables give the parity of all bits. -/
theorem byteParity_eq (byte : UInt8) : byteParity byte = maskParity bitMasks byte :=
  byte_induction (P := fun byte => byteParity byte = maskParity bitMasks byte)
    (by decide +kernel) byte

/-- The parity of a byte is a bit. -/
theorem isBit_byteParity (byte : UInt8) : IsBit (byteParity byte) := by
  rw [byteParity_eq]
  exact isBit_maskParity _ _

/-- A byte with one bit has odd parity. -/
theorem maskParity_bit : ∀ n < 8, maskParity bitMasks (1 <<< UInt8.ofNat n) = 1 := by
  decide

/-- A flipped bit inverts the parity of its byte. -/
theorem byteParity_flip (byte : UInt8) (hb : b < 8) :
    byteParity (byte ^^^ 1 <<< b) = byteParity byte ^^^ 1 := by
  have hbit := maskParity_bit b.toNat (UInt8.lt_iff_toNat_lt.mp hb)
  rw [UInt8.ofNat_toNat] at hbit
  rw [byteParity_eq, byteParity_eq, maskParity_xor (fun _ hmask => hmask), hbit]

/-- A flipped bit changes the parity of its byte. -/
theorem paritr_flipBit (hb : b < 8) :
    paritr (flipBit d i b) = Function.update (paritr d) i (paritr d i ^^^ 1) := by
  funext k
  by_cases hk : k = i
  · subst hk
    simp only [paritr, flipBit, Function.update_self]
    exact byteParity_flip (d k) hb
  · simp only [paritr, flipBit, Function.update_of_ne hk]

/-- The bytes of every second stripe. -/
def stripeIndexes (step width : ℕ) : List ℕ :=
  (List.range' 0 (256 / step) step).flatMap fun i => (List.range width).map (i + ·)

/-- A stripe is a sum of parities. -/
theorem stripe_eq (step width : ℕ) :
    stripe step width d = (stripeIndexes step width).foldl (fun r k => r ^^^ paritr d k) 0 := by
  simp only [stripe, stripeIndexes, List.foldl_flatMap, List.foldl_map]

/-- The stripes of `2 ^ k` bytes have the bytes whose address bit `k` is clear. -/
theorem stripeIndexes_eq : ∀ k < 8,
    stripeIndexes (2 ^ (k + 1)) (2 ^ k) = (List.range 256).filter fun i => !i.testBit k := by
  decide +kernel

/-- A stripe has every byte once. -/
theorem stripeIndexes_nodup {k : ℕ} (hk : k < 8) :
    (stripeIndexes (2 ^ (k + 1)) (2 ^ k)).Nodup := by
  rw [stripeIndexes_eq k hk]
  exact List.nodup_range.filter _

/-- The bytes of a stripe have the bit of its width clear. -/
theorem mem_stripeIndexes {k : ℕ} (hk : k < 8) (hi : i < 256) :
    i ∈ stripeIndexes (2 ^ (k + 1)) (2 ^ k) ↔ i.testBit k = false := by
  rw [stripeIndexes_eq k hk, List.mem_filter, List.mem_range]
  simp [hi]

/-- A stripe is a bit. -/
theorem isBit_stripe (step width : ℕ) : IsBit (stripe step width d) := by
  rw [stripe_eq]
  exact isBit_foldl (fun k => isBit_byteParity (d k)) _ isBit_zero

/-- A flipped bit inverts the parities of the stripes that contain its byte. -/
theorem stripe_flipBit {k : ℕ} (hk : k < 8) (hi : i < 256) (hb : b < 8) :
    stripe (2 ^ (k + 1)) (2 ^ k) (flipBit d i b) =
      stripe (2 ^ (k + 1)) (2 ^ k) d ^^^ (!i.testBit k).toUInt8 := by
  rw [stripe_eq, stripe_eq, paritr_flipBit hb]
  cases hbit : i.testBit k with
  | false =>
    exact foldl_update_mem (· ^^^ ·) (stripeIndexes_nodup hk)
      ((mem_stripeIndexes hk hi).mpr hbit) 0
  | true =>
    have hnot : i ∉ stripeIndexes (2 ^ (k + 1)) (2 ^ k) := by
      rw [mem_stripeIndexes hk hi, hbit]
      exact Bool.noConfusion
    rw [foldl_update_notMem (· ^^^ ·) hnot]
    exact UInt8.xor_zero.symm

/-- The sum of all parities is a bit. -/
theorem isBit_sum : IsBit (sum d) := isBit_foldl (fun k => isBit_byteParity (d k)) _ isBit_zero

/-- A flipped bit changes the sum of all parities. -/
theorem sum_flipBit (hi : i < 256) (hb : b < 8) : sum (flipBit d i b) = sum d ^^^ 1 := by
  unfold sum
  rw [paritr_flipBit hb]
  exact foldl_update_mem (· ^^^ ·) List.nodup_range (List.mem_range.mpr hi) 0

/-- The other stripes have what the first ones lack of the whole. -/
theorem otherStripe_eq {x y : UInt8} (hx : IsBit x) (hy : IsBit y) :
    otherStripe x y = x ^^^ y := by
  obtain ⟨v, rfl⟩ := hx
  obtain ⟨w, rfl⟩ := hy
  cases v <;> cases w <;> rfl

/-- The parity over the stripes of `2 ^ k` bytes of one kind. -/
def rowParity (d : Page) (k : ℕ) : Bool → UInt8
  | false => stripe (2 ^ (k + 1)) (2 ^ k) d
  | true => otherStripe (sum d) (stripe (2 ^ (k + 1)) (2 ^ k) d)

/-- The row parities are bits. -/
theorem isBit_rowParity {k : ℕ} : ∀ value, IsBit (rowParity d k value)
  | false => isBit_stripe _ _
  | true => by
    rw [rowParity, otherStripe_eq isBit_sum (isBit_stripe _ _)]
    exact isBit_sum.xor (isBit_stripe _ _)

/-- A flipped bit changes the row parities it belongs to. -/
theorem rowParity_flipBit {k : ℕ} (hk : k < 8) (hi : i < 256) (hb : b < 8) (value : Bool) :
    rowParity (flipBit d i b) k value = rowParity d k value ^^^ (i.testBit k == value).toUInt8 := by
  cases value with
  | false =>
    rw [rowParity, rowParity, stripe_flipBit hk hi hb]
    cases i.testBit k <;> rfl
  | true =>
    simp only [rowParity]
    rw [otherStripe_eq isBit_sum (isBit_stripe _ _), otherStripe_eq isBit_sum (isBit_stripe _ _),
      stripe_flipBit hk hi hb, sum_flipBit hi hb]
    obtain ⟨v, hv⟩ := isBit_sum (d := d)
    obtain ⟨w, hw⟩ := isBit_stripe (d := d) (2 ^ (k + 1)) (2 ^ k)
    rw [hv, hw]
    cases v <;> cases w <;> cases i.testBit k <;> rfl

/-! ### The bits of an ECC -/

/-- The parities of a block: three pairs of columns, eight pairs of rows. -/
def parity (d : Page) (k : Fin 11) (value : Bool) : UInt8 :=
  if hk : k.val < 3 then columnParity d ⟨k, hk⟩ value else rowParity d (k - 3) value

/-- The address bits of a bit of a block. -/
def address (i : ℕ) (b : UInt8) (k : Fin 11) : Bool :=
  if k.val < 3 then b.toNat.testBit k else i.testBit (k - 3)

/-- All parities are bits. -/
theorem isBit_parity (k : Fin 11) (value : Bool) : IsBit (parity d k value) := by
  unfold parity
  by_cases hk : k.val < 3
  · rw [dif_pos hk]
    exact isBit_maskParity _ _
  · rw [dif_neg hk]
    exact isBit_rowParity value

/-- A flipped bit inverts the parities that it takes part in. -/
theorem isSet_parity_flipBit (hi : i < 256) (hb : b < 8) (k : Fin 11) (value : Bool) :
    isSet (parity (flipBit d i b) k value) =
      (isSet (parity d k value) ^^ column (address i b) k value) := by
  have hflip : parity (flipBit d i b) k value =
      parity d k value ^^^ (column (address i b) k value).toUInt8 := by
    unfold parity column address
    by_cases hk : k.val < 3
    · rw [dif_pos hk, dif_pos hk, if_pos hk]
      exact columnParity_flipBit hi hb ⟨k, hk⟩ value
    · rw [dif_neg hk, dif_neg hk, if_neg hk]
      exact rowParity_flipBit (by omega) hi hb value
  rw [hflip, isSet_xor (isBit_parity k value) ⟨_, rfl⟩, isSet_toUInt8]

/-- The bits of an ECC as `ecc_bit` numbers them. -/
def eccBit (e : Ecc) (n : ℕ) : Bool :=
  if n < 6 then e.byte2.toNat.testBit (n + 2)
  else if n < 14 then e.byte0.toNat.testBit (n - 6)
  else if n < 22 then e.byte1.toNat.testBit (n - 14)
  else e.byte2.toNat.testBit (n - 22)

/-- A bit is that of a truth value. -/
theorem IsBit.eq {x : UInt8} (hx : IsBit x) : x = (isSet x).toUInt8 := by
  obtain ⟨value, rfl⟩ := hx
  rw [isSet_toUInt8]

/-- The bits of a byte that is packed from bits and inverted. -/
theorem packed_bits (v₀ v₁ v₂ v₃ v₄ v₅ v₆ v₇ : Bool) (n : Fin 8) :
    (~~~(v₇.toUInt8 <<< 7 ||| v₆.toUInt8 <<< 6 ||| v₅.toUInt8 <<< 5 ||| v₄.toUInt8 <<< 4 |||
      v₃.toUInt8 <<< 3 ||| v₂.toUInt8 <<< 2 ||| v₁.toUInt8 <<< 1 ||| v₀.toUInt8)).toNat.testBit n =
      !([v₀, v₁, v₂, v₃, v₄, v₅, v₆, v₇].get n) := by
  rw [← UInt8.toNat_toBitVec, ← BitVec.getLsbD]
  simp only [UInt8.toBitVec_not, BitVec.getLsbD_not, UInt8.toBitVec_or, BitVec.getLsbD_or,
    UInt8.toBitVec_shiftLeft]
  match n with
  | 0 | 1 | 2 | 3 | 4 | 5 | 6 | 7 => simp

/-- The bits of a byte that is made of eight parities. -/
theorem packed_testBit {x : ℕ → UInt8} (hx : ∀ n, IsBit (x n)) (n : Fin 8) :
    (~~~(x 7 <<< 7 ||| x 6 <<< 6 ||| x 5 <<< 5 ||| x 4 <<< 4 ||| x 3 <<< 3 ||| x 2 <<< 2 |||
      x 1 <<< 1 ||| x 0)).toNat.testBit n = !isSet (x n) := by
  have hbits := packed_bits (isSet (x 0)) (isSet (x 1)) (isSet (x 2)) (isSet (x 3)) (isSet (x 4))
    (isSet (x 5)) (isSet (x 6)) (isSet (x 7)) n
  simp only [← (hx _).eq] at hbits
  rw [hbits]
  match n with
  | 0 | 1 | 2 | 3 | 4 | 5 | 6 | 7 => rfl

/-- The rows whose parities are in byte `0` (`first = 0`) and byte `1` (`first = 4`). -/
def rowBit (d : Page) (first n : ℕ) : UInt8 := rowParity d (first + n / 2) (n % 2 == 1)

/-- The first byte of the ECC. -/
theorem byte0_eq : (genEcc3 d).byte0 = ~~~(rowBit d 0 7 <<< 7 ||| rowBit d 0 6 <<< 6 |||
    rowBit d 0 5 <<< 5 ||| rowBit d 0 4 <<< 4 ||| rowBit d 0 3 <<< 3 ||| rowBit d 0 2 <<< 2 |||
    rowBit d 0 1 <<< 1 ||| rowBit d 0 0) := rfl

/-- The second byte of the ECC. -/
theorem byte1_eq : (genEcc3 d).byte1 = ~~~(rowBit d 4 7 <<< 7 ||| rowBit d 4 6 <<< 6 |||
    rowBit d 4 5 <<< 5 ||| rowBit d 4 4 <<< 4 ||| rowBit d 4 3 <<< 3 ||| rowBit d 4 2 <<< 2 |||
    rowBit d 4 1 <<< 1 ||| rowBit d 4 0) := rfl

/-- The columns whose parities are in byte `2`, after the two unused bits. -/
def columnBit (d : Page) : ℕ → UInt8
  | 0 | 1 => 0
  | n + 2 => columnParity d (Fin.ofNat 3 (n / 2)) (n % 2 == 1)

/-- The third byte of the ECC. -/
theorem byte2_eq : (genEcc3 d).byte2 = ~~~(columnBit d 7 <<< 7 ||| columnBit d 6 <<< 6 |||
    columnBit d 5 <<< 5 ||| columnBit d 4 <<< 4 ||| columnBit d 3 <<< 3 ||| columnBit d 2 <<< 2 |||
    columnBit d 1 <<< 1 ||| columnBit d 0) := by
  have h₁ : columnBit d 1 = 0 := rfl
  have h₂ : columnBit d 2 = parit1_2 (paritc d) := by
    simp [columnBit, columnParity, maskParity, columnMasks, parit1_2]
  have h₃ : columnBit d 3 = parit1_1 (paritc d) := by
    simp [columnBit, columnParity, maskParity, columnMasks, parit1_1]
  have h₄ : columnBit d 4 = parit2_2 (paritc d) := by
    simp [columnBit, columnParity, maskParity, columnMasks, parit2_2]
  have h₅ : columnBit d 5 = parit2_1 (paritc d) := by
    simp [columnBit, columnParity, maskParity, columnMasks, parit2_1]
  have h₆ : columnBit d 6 = parit4_2 (paritc d) := by
    simp [columnBit, columnParity, maskParity, columnMasks, parit4_2]
  have h₇ : columnBit d 7 = parit4_1 (paritc d) := by
    simp [columnBit, columnParity, maskParity, columnMasks, parit4_1]
  rw [h₁, h₂, h₃, h₄, h₅, h₆, h₇]
  rfl

/-- The bits of the third byte are bits. -/
theorem isBit_columnBit : ∀ n, IsBit (columnBit d n)
  | 0 | 1 => isBit_zero
  | _ + 2 => isBit_maskParity _ _

/-- A bit of the first byte. -/
theorem byte0_testBit {n : ℕ} (hn : n < 8) :
    (genEcc3 d).byte0.toNat.testBit n = !isSet (rowBit d 0 n) := by
  rw [byte0_eq]
  exact packed_testBit (x := rowBit d 0) (fun _ => isBit_rowParity _) ⟨n, hn⟩

/-- A bit of the second byte. -/
theorem byte1_testBit {n : ℕ} (hn : n < 8) :
    (genEcc3 d).byte1.toNat.testBit n = !isSet (rowBit d 4 n) := by
  rw [byte1_eq]
  exact packed_testBit (x := rowBit d 4) (fun _ => isBit_rowParity _) ⟨n, hn⟩

/-- A bit of the third byte. -/
theorem byte2_testBit {n : ℕ} (hn : n < 8) :
    (genEcc3 d).byte2.toNat.testBit n = !isSet (columnBit d n) := by
  rw [byte2_eq]
  exact packed_testBit isBit_columnBit ⟨n, hn⟩

/-- A place among paired entries names its pair and its half. -/
theorem pair_index (k : ℕ) (value : Bool) :
    (2 * k + value.toNat) / 2 = k ∧ ((2 * k + value.toNat) % 2 == 1) = value := by
  cases value with
  | false => simp
  | true =>
    constructor
    · simp only [Bool.toNat_true]
      omega
    · simp [Nat.add_mod]

/-- The used bits of an ECC are the inverted parities. -/
theorem eccBit_genEcc3 (k : Fin 11) (value : Bool) :
    eccBit (genEcc3 d) (2 * k + value.toNat) = !isSet (parity d k value) := by
  have hvalue : value.toNat ≤ 1 := Bool.toNat_le value
  have hkey : eccBit (genEcc3 d) (2 * k + value.toNat) = !isSet (
      if k.val < 3 then columnBit d (2 * k + value.toNat + 2)
      else if k.val < 7 then rowBit d 0 (2 * (k - 3) + value.toNat)
      else rowBit d 4 (2 * (k - 7) + value.toNat)) := by
    unfold eccBit
    by_cases hcolumn : k.val < 3
    · rw [if_pos (by omega), if_pos hcolumn, byte2_testBit (by omega)]
    · by_cases hlow : k.val < 7
      · have hindex : 2 * k.val + value.toNat - 6 = 2 * (k - 3) + value.toNat := by omega
        rw [if_neg (by omega), if_pos (by omega), if_neg hcolumn, if_pos hlow, hindex,
          byte0_testBit (by omega)]
      · have hindex : 2 * k.val + value.toNat - 14 = 2 * (k - 7) + value.toNat := by omega
        rw [if_neg (by omega), if_neg (by omega), if_pos (by omega), if_neg hcolumn, if_neg hlow,
          hindex, byte1_testBit (by omega)]
  rw [hkey]
  unfold parity
  by_cases hcolumn : k.val < 3
  · obtain ⟨hpair, hhalf⟩ := pair_index k value
    have hfin : Fin.ofNat 3 k.val = ⟨k, hcolumn⟩ := Fin.ext (Nat.mod_eq_of_lt hcolumn)
    rw [if_pos hcolumn, dif_pos hcolumn, columnBit, hpair, hhalf, hfin]
  · rw [if_neg hcolumn, dif_neg hcolumn]
    by_cases hlow : k.val < 7
    · obtain ⟨hpair, hhalf⟩ := pair_index (k - 3) value
      rw [if_pos hlow, rowBit, hpair, hhalf, Nat.zero_add]
    · obtain ⟨hpair, hhalf⟩ := pair_index (k - 7) value
      have hrow : 4 + (k.val - 7) = k - 3 := by omega
      rw [if_neg hlow, rowBit, hpair, hhalf, hrow]

/-- The two unused bits of an ECC are set. -/
theorem eccBit_genEcc3_unused : eccBit (genEcc3 d) 22 = true ∧ eccBit (genEcc3 d) 23 = true :=
  ⟨byte2_testBit (n := 0) (by omega), byte2_testBit (n := 1) (by omega)⟩

end Mv88fxx81.Nflash
