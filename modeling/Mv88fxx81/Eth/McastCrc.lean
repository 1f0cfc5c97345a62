import Mv88fxx81.Eth.Filter
import Mv88fxx81.Lib.Crc
import Mv88fxx81.Lib.Literals

/-!
# The multicast hash is a CRC-8

`mvEthMcastCrc8Get` spells out every bit of a CRC-8 as an exclusive or of address bits.
Both the equations and the shift register are linear in the address, so they agree
because they agree on the addresses with one bit set.
-/

namespace Mv88fxx81.Eth

open Crc

/-- The low terms of `x^8 + x^2 + x + 1`. -/
def crc8Poly : BitVec 8 := 0x07

/-- The bits of an address, the most significant bit of the first byte first. -/
def MacAddr.message (addr : MacAddr) : List Bool :=
  bits addr.a0 ++ bits addr.a1 ++ bits addr.a2 ++ bits addr.a3 ++ bits addr.a4 ++ bits addr.a5

/-- The bytes of an address as one word. -/
def MacAddr.word (addr : MacAddr) : BitVec 48 :=
  addr.a0 ++ addr.a1 ++ addr.a2 ++ addr.a3 ++ addr.a4 ++ addr.a5

theorem bits_word (addr : MacAddr) : bits addr.word = addr.message := by
  simp only [MacAddr.word, MacAddr.message, bits_append]

/-- One of the equations, for an address given as a word. -/
def crc8Bit (equation : List ℕ) (word : BitVec 48) : Bool :=
  equation.foldl (fun crc b => crc ^^ word.getLsbD b) false

/-- The equations, for an address given as a word. -/
def crc8Equations (word : BitVec 48) : BitVec 8 :=
  (crc8Bits.zipIdx.foldl fun crcResult (equation, i) =>
    crcResult ||| ((BitVec.ofBool (crc8Bit equation word)).setWidth 8 <<< i)) 0

theorem mvEthMcastCrc8Get_eq (addr : MacAddr) :
    mvEthMcastCrc8Get addr = crc8Equations addr.word := rfl

/-- An equation is linear, also from a given sum of earlier terms. -/
theorem foldl_getLsbD_xor (equation : List ℕ) (x y : BitVec 48) (a b : Bool) :
    equation.foldl (fun crc i => crc ^^ (x ^^^ y).getLsbD i) (a ^^ b) =
      (equation.foldl (fun crc i => crc ^^ x.getLsbD i) a ^^
        equation.foldl (fun crc i => crc ^^ y.getLsbD i) b) := by
  induction equation generalizing a b with
  | nil => rfl
  | cons i equation ih =>
    have hterm : ((a ^^ b) ^^ (x ^^^ y).getLsbD i) =
        ((a ^^ x.getLsbD i) ^^ (b ^^ y.getLsbD i)) := by
      rw [BitVec.getLsbD_xor]
      cases a <;> cases b <;> cases x.getLsbD i <;> cases y.getLsbD i <;> rfl
    simp only [List.foldl_cons]
    rw [hterm]
    exact ih _ _

theorem crc8Bit_xor (equation : List ℕ) (x y : BitVec 48) :
    crc8Bit equation (x ^^^ y) = (crc8Bit equation x ^^ crc8Bit equation y) :=
  foldl_getLsbD_xor equation x y false false

/-- `crcResult` collects one bit of each equation. -/
theorem crcResult_getLsbD : ∀ b₀ b₁ b₂ b₃ b₄ b₅ b₆ b₇ : Bool, ∀ i : Fin 8,
    ([b₀, b₁, b₂, b₃, b₄, b₅, b₆, b₇].zipIdx.foldl (fun crcResult (crc, i) =>
      crcResult ||| ((BitVec.ofBool crc).setWidth 8 <<< i)) (0 : BitVec 8)).getLsbD i =
      [b₀, b₁, b₂, b₃, b₄, b₅, b₆, b₇].get i := by
  decide

/-- Every bit of the result is the value of its equation. -/
theorem crc8Equations_getLsbD (word : BitVec 48) (i : Fin 8) :
    (crc8Equations word).getLsbD i = crc8Bit (crc8Bits.getD i []) word := by
  let crc : ℕ → Bool := fun k => crc8Bit (crc8Bits.getD k []) word
  have h := crcResult_getLsbD (crc 0) (crc 1) (crc 2) (crc 3) (crc 4) (crc 5) (crc 6) (crc 7) i
  refine Eq.trans h ?_
  match i with
  | 0 | 1 | 2 | 3 | 4 | 5 | 6 | 7 => rfl

theorem crc8Equations_linear : Linear crc8Equations := by
  intro x y
  apply BitVec.eq_of_getLsbD_eq
  intro i hi
  rw [BitVec.getLsbD_xor, crc8Equations_getLsbD (x ^^^ y) ⟨i, hi⟩, crc8Equations_getLsbD x ⟨i, hi⟩,
    crc8Equations_getLsbD y ⟨i, hi⟩]
  exact crc8Bit_xor _ x y

/-- The equations and the shift register agree on every address bit. -/
theorem crc8Equations_twoPow :
    ∀ i < 48, crc8Equations (BitVec.twoPow 48 i) = check crc8Poly (bits (BitVec.twoPow 48 i)) := by
  decide +kernel

/-- The multicast hash is the CRC-8 of the address bits. -/
theorem mvEthMcastCrc8Get_eq_check (addr : MacAddr) :
    mvEthMcastCrc8Get addr = check crc8Poly addr.message := by
  rw [mvEthMcastCrc8Get_eq, ← bits_word]
  exact crc8Equations_linear.ext (check_bits_linear crc8Poly) crc8Equations_twoPow addr.word

end Mv88fxx81.Eth
