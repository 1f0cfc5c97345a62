import Mathlib.Data.Fin.VecNotation
import Mv88fxx81.Lib.ByteField
import Mv88fxx81.Lib.Literals
import Mv88fxx81.Lib.WindowRecurrence

/-!
# The block cipher of the standard

A block is a square of four rows of four bytes. A round replaces a byte by an affine image of its
inverse, turns the rows, multiplies the columns by a fixed polynomial and adds a round key. The
columns of the round keys follow a recurrence that starts with the key.
-/

namespace Rijndael

open ByteField

/-- A column: the coefficients of a polynomial of degree below four. -/
abbrev Word := Fin 4 → Byte

/-- A block, by rows. -/
abbrev Block := Fin 4 → Word

variable {a b : Word} {keyWords last : ℕ} {key v w : ℕ → Word}

/-! ### Columns as polynomials -/

/-- The product of two columns modulo `y^4 + 1`. -/
def colMul (a b : Word) : Word := fun r =>
  mul (a 0) (b r) ^^^ mul (a 1) (b (r - 1)) ^^^ mul (a 2) (b (r - 2)) ^^^ mul (a 3) (b (r - 3))

/-- The column that multiplies a block. -/
def mixPoly : Word := ![0x02, 0x01, 0x01, 0x03]

/-- Its inverse. -/
def invMixPoly : Word := ![0x0e, 0x09, 0x0d, 0x0b]

/-- The two polynomials are inverse. -/
theorem colMul_invMixPoly_mixPoly : colMul invMixPoly mixPoly = ![1, 0, 0, 0] := by
  funext r
  match r with
  | 0 | 1 | 2 | 3 => decide

/-- One is neutral. -/
theorem colMul_one (b : Word) : colMul ![1, 0, 0, 0] b = b := by
  funext r
  change mul 1 (b r) ^^^ mul 0 (b (r - 1)) ^^^ mul 0 (b (r - 2)) ^^^ mul 0 (b (r - 3)) = b r
  simp only [one_mul, zero_mul]
  exact (BitVec.xor_zero.trans BitVec.xor_zero).trans BitVec.xor_zero

theorem colMul_zero (a b : Word) : colMul a b 0 =
    mul (a 0) (b 0) ^^^ mul (a 1) (b 3) ^^^ mul (a 2) (b 2) ^^^ mul (a 3) (b 1) := rfl

theorem colMul_first (a b : Word) : colMul a b 1 =
    mul (a 0) (b 1) ^^^ mul (a 1) (b 0) ^^^ mul (a 2) (b 3) ^^^ mul (a 3) (b 2) := rfl

theorem colMul_second (a b : Word) : colMul a b 2 =
    mul (a 0) (b 2) ^^^ mul (a 1) (b 1) ^^^ mul (a 2) (b 0) ^^^ mul (a 3) (b 3) := rfl

theorem colMul_third (a b : Word) : colMul a b 3 =
    mul (a 0) (b 3) ^^^ mul (a 1) (b 2) ^^^ mul (a 2) (b 1) ^^^ mul (a 3) (b 0) := rfl

/-- The products of columns are associative. -/
theorem colMul_assoc (a b c : Word) : colMul a (colMul b c) = colMul (colMul a b) c := by
  funext r
  match r with
  | 0 | 1 | 2 | 3 =>
    simp only [colMul_zero, colMul_first, colMul_second, colMul_third, mul_xor, xor_mul, mul_assoc]
    ac_rfl

/-! ### The cipher -/

/-- The affine map of the substitution. -/
def affine (b : Byte) : Byte :=
  b ^^^ b.rotateLeft 1 ^^^ b.rotateLeft 2 ^^^ b.rotateLeft 3 ^^^ b.rotateLeft 4 ^^^ 0x63

/-- The substitution of a byte. -/
noncomputable def sBox (b : Byte) : Byte := affine (inverse b)

noncomputable def subBytes (s : Block) : Block := fun r c => sBox (s r c)

def shiftRows (s : Block) : Block := fun r c => s r (c + r)

def mixColumns (s : Block) : Block := fun r c => colMul mixPoly (fun r => s r c) r

def addRoundKey (s k : Block) : Block := fun r c => s r c ^^^ k r c

/-- The first addition and the rounds up to `n` that mix. -/
noncomputable def rounds (k : ℕ → Block) (s : Block) : ℕ → Block
  | 0 => addRoundKey s (k 0)
  | n + 1 => addRoundKey (mixColumns (shiftRows (subBytes (rounds k s n)))) (k (n + 1))

/-- The cipher with `n` rounds, the last of which does not mix. -/
noncomputable def cipher (n : ℕ) (k : ℕ → Block) (s : Block) : Block :=
  addRoundKey (shiftRows (subBytes (rounds k s (n - 1)))) (k n)

/-! ### The round keys -/

noncomputable def subWord (w : Word) : Word := fun r => sBox (w r)

def rotWord (w : Word) : Word := fun r => w (r + 1)

/-- The constant of a round. -/
def rcon (i : ℕ) : Word := ![pow 2 (i - 1), 0, 0, 0]

/-- What a column of the round keys adds to the one `keyWords` places back. -/
noncomputable def temp (keyWords i : ℕ) (w : Word) : Word := fun r =>
  if i % keyWords = 0 then subWord (rotWord w) r ^^^ rcon (i / keyWords) r
  else if 6 < keyWords ∧ i % keyWords = 4 then subWord w r
  else w r

/-- A column of the round keys. -/
noncomputable def nextWord (keyWords i : ℕ) (old before : Word) : Word := fun r =>
  old r ^^^ temp keyWords i before r

/-- A word of the schedule gives back the one it was made from. -/
theorem nextWord_injective (keyWords i : ℕ) (before : Word) :
    Function.Injective fun old => nextWord keyWords i old before := by
  intro old old' h
  funext r
  have hr : old r ^^^ temp keyWords i before r = old' r ^^^ temp keyWords i before r :=
    congrFun h r
  have hcancel := congrArg (· ^^^ temp keyWords i before r) hr
  simpa only [BitVec.xor_assoc, BitVec.xor_self, BitVec.xor_zero] using hcancel

/-- The columns up to `last` are those of a key. -/
structure IsExpansion (keyWords last : ℕ) (key w : ℕ → Word) : Prop where
  /-- The key comes first. -/
  start : ∀ i < keyWords, w i = key i
  /-- The recurrence. -/
  next : WindowRecurrence.Follows (nextWord keyWords) keyWords last w

/-- The last columns tell the key. -/
theorem IsExpansion.key_eq {key' : ℕ → Word} (hk : 2 ≤ keyWords)
    (hw : IsExpansion keyWords last key w) (hv : IsExpansion keyWords last key' v)
    (hend : ∀ i, last ≤ i + keyWords → i < last → w i = v i) {i : ℕ} (hi : i < keyWords)
    (hlast : i < last) : key i = key' i := by
  rw [← hw.start i hi, ← hv.start i hi]
  exact WindowRecurrence.eq_of_end hk (nextWord_injective keyWords) hw.next hv.next hend hlast

end Rijndael
