import Mv88fxx81.Cesa.AesBoxes

/-!
# Encryption and decryption of a block

`rijndaelEncrypt128` and `rijndaelDecrypt128` work on a square of four columns. Decryption undoes
encryption for every sequence of round keys, and encryption is the cipher of the standard.
-/

namespace Mv88fxx81.Cesa.Aes

open ByteField (Byte)

/-- A column of a square: byte `i` of column `j` is `a[i][j]`. -/
structure Column where
  b0 : Byte
  b1 : Byte
  b2 : Byte
  b3 : Byte
  deriving DecidableEq, Repr

/-- A square of bytes, `a[4][MAXBC]`. -/
structure State where
  c0 : Column
  c1 : Column
  c2 : Column
  c3 : Column
  deriving DecidableEq, Repr

namespace Column

def zero : Column := ⟨0, 0, 0, 0⟩

def xor (a b : Column) : Column := ⟨a.b0 ^^^ b.b0, a.b1 ^^^ b.b1, a.b2 ^^^ b.b2, a.b3 ^^^ b.b3⟩

def map (f : Byte → Byte) (a : Column) : Column := ⟨f a.b0, f a.b1, f a.b2, f a.b3⟩

/-- The bytes of a column as those of the standard. -/
def word (a : Column) : Rijndael.Word := ![a.b0, a.b1, a.b2, a.b3]

/-- Adding a column twice changes nothing. -/
theorem xor_xor_cancel (a b : Column) : (a.xor b).xor b = a := by
  simp only [xor, BitVec.xor_assoc, BitVec.xor_self]
  simp only [BitVec.xor_zero]

/-- The bytes of a sum. -/
theorem word_xor (a b : Column) (r : Fin 4) : (a.xor b).word r = a.word r ^^^ b.word r := by
  match r with
  | 0 | 1 | 2 | 3 => rfl

/-- The bytes of a column after a map. -/
theorem word_map (f : Byte → Byte) (a : Column) (r : Fin 4) : (a.map f).word r = f (a.word r) := by
  match r with
  | 0 | 1 | 2 | 3 => rfl

/-- A column is given by its bytes. -/
theorem word_injective : Function.Injective word := by
  intro a b h
  have h0 : a.b0 = b.b0 := congrFun h 0
  have h1 : a.b1 = b.b1 := congrFun h 1
  have h2 : a.b2 = b.b2 := congrFun h 2
  have h3 : a.b3 = b.b3 := congrFun h 3
  cases a
  cases b
  simp only at h0 h1 h2 h3
  rw [h0, h1, h2, h3]

end Column

/-- The round key `W[r]`, of which column `j` is column `4 * r + j` of `W`. -/
def roundKey (W : List Column) (r : ℕ) : State :=
  ⟨W.getD (4 * r) .zero, W.getD (4 * r + 1) .zero, W.getD (4 * r + 2) .zero,
    W.getD (4 * r + 3) .zero⟩

/-! ### The steps of a round -/

/-- `KeyAddition`. -/
def keyAddition (a rk : State) : State :=
  ⟨a.c0.xor rk.c0, a.c1.xor rk.c1, a.c2.xor rk.c2, a.c3.xor rk.c3⟩

/-- `ShiftRow128Enc`. -/
def shiftRow128Enc (a : State) : State :=
  ⟨⟨a.c0.b0, a.c1.b1, a.c2.b2, a.c3.b3⟩, ⟨a.c1.b0, a.c2.b1, a.c3.b2, a.c0.b3⟩,
    ⟨a.c2.b0, a.c3.b1, a.c0.b2, a.c1.b3⟩, ⟨a.c3.b0, a.c0.b1, a.c1.b2, a.c2.b3⟩⟩

/-- `ShiftRow128Dec`. -/
def shiftRow128Dec (a : State) : State :=
  ⟨⟨a.c0.b0, a.c3.b1, a.c2.b2, a.c1.b3⟩, ⟨a.c1.b0, a.c0.b1, a.c3.b2, a.c2.b3⟩,
    ⟨a.c2.b0, a.c1.b1, a.c0.b2, a.c3.b3⟩, ⟨a.c3.b0, a.c2.b1, a.c1.b2, a.c0.b3⟩⟩

/-- `Substitution`. -/
def substitution (table : List ℕ) (a : State) : State :=
  ⟨a.c0.map (box table), a.c1.map (box table), a.c2.map (box table), a.c3.map (box table)⟩

/-- One column of `MixColumn`. -/
def mixed (a : Column) : Column :=
  ⟨mul 25 a.b0 ^^^ mul 1 a.b1 ^^^ a.b2 ^^^ a.b3, mul 25 a.b1 ^^^ mul 1 a.b2 ^^^ a.b3 ^^^ a.b0,
    mul 25 a.b2 ^^^ mul 1 a.b3 ^^^ a.b0 ^^^ a.b1, mul 25 a.b3 ^^^ mul 1 a.b0 ^^^ a.b1 ^^^ a.b2⟩

/-- `MixColumn`, which adds the round key as well. -/
def mixColumn (a rk : State) : State :=
  ⟨(mixed a.c0).xor rk.c0, (mixed a.c1).xor rk.c1, (mixed a.c2).xor rk.c2, (mixed a.c3).xor rk.c3⟩

/-- A byte of a column of `InvMixColumn`. -/
def unmixedByte (a0 a1 a2 a3 : Byte) : Byte :=
  mul 223 a0 ^^^ mul 104 a1 ^^^ mul 238 a2 ^^^ mul 199 a3

/-- One column of `InvMixColumn`. -/
def unmixed (a : Column) : Column :=
  ⟨unmixedByte a.b0 a.b1 a.b2 a.b3, unmixedByte a.b1 a.b2 a.b3 a.b0,
    unmixedByte a.b2 a.b3 a.b0 a.b1, unmixedByte a.b3 a.b0 a.b1 a.b2⟩

/-- `InvMixColumn`. -/
def invMixColumn (a : State) : State := ⟨unmixed a.c0, unmixed a.c1, unmixed a.c2, unmixed a.c3⟩

/-! ### The rounds -/

/-- The first addition of `rijndaelEncrypt128` and its rounds up to `r`. -/
def encryptRounds (W : List Column) (a : State) : ℕ → State
  | 0 => keyAddition a (roundKey W 0)
  | r + 1 =>
    mixColumn (shiftRow128Enc (substitution s (encryptRounds W a r))) (roundKey W (r + 1))

/-- `rijndaelEncrypt128`. -/
def rijndaelEncrypt128 (a : State) (W : List Column) (rounds : ℕ) : State :=
  keyAddition (shiftRow128Enc (substitution s (encryptRounds W a (rounds - 1))))
    (roundKey W rounds)

/-- The rounds of `rijndaelDecrypt128` from `r` down, and its last addition. -/
def decryptRounds (W : List Column) : ℕ → State → State
  | 0, a => keyAddition a (roundKey W 0)
  | r + 1, a =>
    decryptRounds W r
      (substitution si (shiftRow128Dec (invMixColumn (keyAddition a (roundKey W (r + 1))))))

/-- `rijndaelDecrypt128`. -/
def rijndaelDecrypt128 (a : State) (W : List Column) (rounds : ℕ) : State :=
  decryptRounds W (rounds - 1)
    (substitution si (shiftRow128Dec (keyAddition a (roundKey W rounds))))

variable {a rk : State} {W : List Column} {n rounds : ℕ}

/-! ### Decryption undoes encryption -/

/-- Adding a round key twice changes nothing. -/
theorem keyAddition_keyAddition (a rk : State) : keyAddition (keyAddition a rk) rk = a := by
  simp only [keyAddition, Column.xor_xor_cancel]

/-- The shifts of the rows are inverse. -/
theorem shiftRow128Dec_shiftRow128Enc (a : State) : shiftRow128Dec (shiftRow128Enc a) = a := rfl

/-- The substitutions are inverse. -/
theorem substitution_substitution (a : State) : substitution si (substitution s a) = a := by
  simp only [substitution, Column.map, box_si_box_s]

/-- The mixed columns are products in the polynomial ring. -/
theorem mixed_eq (a : Column) : (mixed a).word = Rijndael.colMul Rijndael.mixPoly a.word := by
  have htwo : ∀ b, mul 25 b = ByteField.mul 2 b := mul_eq_mul (by decide) boxTables.mix.1
  have hthree : ∀ b, mul 1 b = ByteField.mul 3 b := mul_eq_mul (by decide) boxTables.mix.2
  have hcol : mixed a = ⟨ByteField.mul 2 a.b0 ^^^ ByteField.mul 3 a.b1 ^^^ a.b2 ^^^ a.b3,
      ByteField.mul 2 a.b1 ^^^ ByteField.mul 3 a.b2 ^^^ a.b3 ^^^ a.b0,
      ByteField.mul 2 a.b2 ^^^ ByteField.mul 3 a.b3 ^^^ a.b0 ^^^ a.b1,
      ByteField.mul 2 a.b3 ^^^ ByteField.mul 3 a.b0 ^^^ a.b1 ^^^ a.b2⟩ := by
    simp only [mixed, htwo, hthree]
  have hword : ∀ a0 a1 a2 a3, ByteField.mul 2 a0 ^^^ ByteField.mul 3 a1 ^^^ a2 ^^^ a3 =
      ByteField.mul 2 a0 ^^^ ByteField.mul 1 a3 ^^^ ByteField.mul 1 a2 ^^^ ByteField.mul 3 a1 := by
    intro a0 a1 a2 a3
    rw [ByteField.one_mul, ByteField.one_mul]
    ac_rfl
  rw [hcol]
  funext r
  match r with
  | 0 | 1 | 2 | 3 => exact hword _ _ _ _

/-- A byte of a column times the inverse polynomial. -/
def invMixByte (a0 a1 a2 a3 : Byte) : Byte :=
  ByteField.mul 0x0e a0 ^^^ ByteField.mul 0x09 a3 ^^^ ByteField.mul 0x0d a2 ^^^
    ByteField.mul 0x0b a1

/-- The factors, given by their logarithms, are those of the inverse polynomial. -/
theorem unmixedByte_eq (a0 a1 a2 a3 : Byte) :
    unmixedByte a0 a1 a2 a3 = invMixByte a0 a1 a2 a3 := by
  have h0 : mul 223 a0 = ByteField.mul 0x0e a0 := mul_eq_mul (by decide) boxTables.unmix.1 a0
  have h1 : mul 104 a1 = ByteField.mul 0x0b a1 := mul_eq_mul (by decide) boxTables.unmix.2.1 a1
  have h2 : mul 238 a2 = ByteField.mul 0x0d a2 := mul_eq_mul (by decide) boxTables.unmix.2.2.1 a2
  have h3 : mul 199 a3 = ByteField.mul 0x09 a3 := mul_eq_mul (by decide) boxTables.unmix.2.2.2 a3
  rw [unmixedByte, invMixByte, h0, h1, h2, h3]
  ac_rfl

/-- The unmixed columns are products in the polynomial ring. -/
theorem unmixed_eq (a : Column) :
    (unmixed a).word = Rijndael.colMul Rijndael.invMixPoly a.word := by
  have hcol : unmixed a = ⟨invMixByte a.b0 a.b1 a.b2 a.b3, invMixByte a.b1 a.b2 a.b3 a.b0,
      invMixByte a.b2 a.b3 a.b0 a.b1, invMixByte a.b3 a.b0 a.b1 a.b2⟩ := by
    simp only [unmixed, unmixedByte_eq]
  rw [hcol]
  funext r
  match r with
  | 0 | 1 | 2 | 3 => rfl

/-- Mixing the columns can be undone. -/
theorem unmixed_mixed (a : Column) : unmixed (mixed a) = a := by
  apply Column.word_injective
  rw [unmixed_eq, mixed_eq, Rijndael.colMul_assoc, Rijndael.colMul_invMixPoly_mixPoly,
    Rijndael.colMul_one]

/-- The column step of a round of decryption undoes the one of encryption. -/
theorem invMixColumn_mixColumn (a rk : State) :
    invMixColumn (keyAddition (mixColumn a rk) rk) = a := by
  simp only [invMixColumn, keyAddition, mixColumn, Column.xor_xor_cancel, unmixed_mixed]

/-- The rounds can be undone. -/
theorem decryptRounds_encryptRounds (W : List Column) (a : State) (r : ℕ) :
    decryptRounds W r (encryptRounds W a r) = a := by
  induction r with
  | zero => exact keyAddition_keyAddition a (roundKey W 0)
  | succ r ih =>
    rw [decryptRounds, encryptRounds, invMixColumn_mixColumn, shiftRow128Dec_shiftRow128Enc,
      substitution_substitution, ih]

/-- Decryption undoes encryption, for every number of rounds and all round keys. -/
theorem rijndaelDecrypt128_rijndaelEncrypt128 (a : State) (W : List Column) (rounds : ℕ) :
    rijndaelDecrypt128 (rijndaelEncrypt128 a W rounds) W rounds = a := by
  rw [rijndaelDecrypt128, rijndaelEncrypt128, keyAddition_keyAddition,
    shiftRow128Dec_shiftRow128Enc, substitution_substitution, decryptRounds_encryptRounds]

/-! ### Encryption is the cipher of the standard -/

/-- The bytes of a square as those of the standard. -/
def State.block (a : State) : Rijndael.Block := fun r =>
  ![a.c0.word r, a.c1.word r, a.c2.word r, a.c3.word r]

/-- `KeyAddition` is the addition of a round key. -/
theorem block_keyAddition (a rk : State) :
    (keyAddition a rk).block = Rijndael.addRoundKey a.block rk.block := by
  funext r c
  match c with
  | 0 | 1 | 2 | 3 => exact Column.word_xor _ _ r

/-- `Substitution` is the substitution of the bytes. -/
theorem block_substitution (a : State) :
    (substitution s a).block = Rijndael.subBytes a.block := by
  funext r c
  match c with
  | 0 | 1 | 2 | 3 => exact (Column.word_map (box s) _ r).trans (box_s _)

/-- `ShiftRow128Enc` is the shift of the rows. -/
theorem block_shiftRow128Enc (a : State) :
    (shiftRow128Enc a).block = Rijndael.shiftRows a.block := by
  funext r c
  match r with
  | 0 | 1 | 2 | 3 =>
    match c with
    | 0 | 1 | 2 | 3 => simp [State.block, Rijndael.shiftRows, shiftRow128Enc, Column.word]

/-- A byte of a mixed column with its round key. -/
theorem mixed_xor_word (a rk : Column) (r : Fin 4) :
    ((mixed a).xor rk).word r =
      Rijndael.colMul Rijndael.mixPoly a.word r ^^^ rk.word r := by
  rw [Column.word_xor, mixed_eq]

/-- `MixColumn` mixes the columns and adds the next round key. -/
theorem block_mixColumn (a rk : State) :
    (mixColumn a rk).block = Rijndael.addRoundKey (Rijndael.mixColumns a.block) rk.block := by
  funext r c
  match c with
  | 0 | 1 | 2 | 3 => exact mixed_xor_word _ _ r

/-- The rounds of the encryption. -/
theorem block_encryptRounds (W : List Column) (a : State) (r : ℕ) :
    (encryptRounds W a r).block =
      Rijndael.rounds (fun r => (roundKey W r).block) a.block r := by
  induction r with
  | zero => exact block_keyAddition a (roundKey W 0)
  | succ r ih =>
    rw [encryptRounds, block_mixColumn, block_shiftRow128Enc, block_substitution, ih,
      Rijndael.rounds]

/-- Encryption of a block is the cipher of the standard. -/
theorem block_rijndaelEncrypt128 (a : State) (W : List Column) (rounds : ℕ) :
    (rijndaelEncrypt128 a W rounds).block =
      Rijndael.cipher rounds (fun r => (roundKey W r).block) a.block := by
  rw [rijndaelEncrypt128, block_keyAddition, block_shiftRow128Enc, block_substitution,
    block_encryptRounds, Rijndael.cipher]

end Mv88fxx81.Cesa.Aes
