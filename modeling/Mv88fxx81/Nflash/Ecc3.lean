import Mathlib.Data.Nat.Notation
import Mathlib.Logic.Function.Basic

/-!
# The ECC of NAND pages

Every 256 bytes of a NAND page are guarded by 3 bytes of ECC. `genEcc3` computes them and
`fixEcc3` compares them with the stored ones and corrects one flipped bit.
-/

namespace Mv88fxx81.Nflash

/-- The memory from the first byte of a block on. -/
abbrev Page := ℕ → UInt8

/-- The `ECC_SIZE` bytes of an ECC. -/
structure Ecc where
  byte0 : UInt8
  byte1 : UInt8
  byte2 : UInt8
  deriving DecidableEq, Repr

/-- `ECC_RET_VAL`. -/
inductive EccRetVal
  /-- `ECC_FAIL_DATA`. -/
  | failData
  /-- `ECC_PASS`. -/
  | pass
  /-- `ECC_FIX`. -/
  | fix
  /-- `ECC_FAIL`. -/
  | fail
  deriving DecidableEq, Repr

/-- `ECC_BLOCK_SIZE`. -/
def eccBlockSize : ℕ := 256

/-! ### Generating -/

/-- `data_table0`: the parities of the nibbles. -/
def dataTable0 : List UInt8 := [0, 1, 1, 0, 1, 0, 0, 1, 1, 0, 0, 1, 0, 1, 1, 0]

/-- `data_table1`: the inverted parities of the nibbles. -/
def dataTable1 : List UInt8 := [1, 0, 0, 1, 0, 1, 1, 0, 0, 1, 1, 0, 1, 0, 0, 1]

/-- The parity of one byte, as the `switch` over its high nibble finds it. -/
def byteParity (byte : UInt8) : UInt8 :=
  let tmp := (byte &&& 0xf0) >>> 4
  let tmp2 := byte &&& 0x0f
  if tmp ∈ [0, 3, 5, 6, 9, 10, 12, 15] then dataTable0.getD tmp2.toNat 0
  else dataTable1.getD tmp2.toNat 0

/-- `paritr`. -/
def paritr (writeData : Page) : ℕ → UInt8 := fun i => byteParity (writeData i)

/-- `paritc`. -/
def paritc (writeData : Page) : UInt8 :=
  (List.range 256).foldl (fun paritc i => paritc ^^^ writeData i) 0

/-- `parit0c` to `parit7c`: one bit of `paritc`. -/
def paritBit (paritc mask : UInt8) : UInt8 := if paritc &&& mask ≠ 0 then 1 else 0

/-- `parit1_2`. -/
def parit1_2 (paritc : UInt8) : UInt8 :=
  paritBit paritc 0x40 ^^^ paritBit paritc 0x10 ^^^ paritBit paritc 0x04 ^^^ paritBit paritc 0x01

/-- `parit1_1`. -/
def parit1_1 (paritc : UInt8) : UInt8 :=
  paritBit paritc 0x80 ^^^ paritBit paritc 0x20 ^^^ paritBit paritc 0x08 ^^^ paritBit paritc 0x02

/-- `parit2_2`. -/
def parit2_2 (paritc : UInt8) : UInt8 :=
  paritBit paritc 0x20 ^^^ paritBit paritc 0x10 ^^^ paritBit paritc 0x02 ^^^ paritBit paritc 0x01

/-- `parit2_1`. -/
def parit2_1 (paritc : UInt8) : UInt8 :=
  paritBit paritc 0x80 ^^^ paritBit paritc 0x40 ^^^ paritBit paritc 0x08 ^^^ paritBit paritc 0x04

/-- `parit4_2`. -/
def parit4_2 (paritc : UInt8) : UInt8 :=
  paritBit paritc 0x08 ^^^ paritBit paritc 0x04 ^^^ paritBit paritc 0x02 ^^^ paritBit paritc 0x01

/-- `parit4_1`. -/
def parit4_1 (paritc : UInt8) : UInt8 :=
  paritBit paritc 0x80 ^^^ paritBit paritc 0x40 ^^^ paritBit paritc 0x20 ^^^ paritBit paritc 0x10

/-- `sum`. -/
def sum (writeData : Page) : UInt8 :=
  (List.range 256).foldl (fun sum i => sum ^^^ paritr writeData i) 0

/-- The loops over every second stripe of `width` bytes, `step` bytes from one to the next. -/
def stripe (step width : ℕ) (writeData : Page) : UInt8 :=
  (List.range' 0 (256 / step) step).foldl (fun parit i =>
    (List.range width).foldl (fun parit j => parit ^^^ paritr writeData (i + j)) parit) 0

/-- `parit8_2`. -/
def parit8_2 : Page → UInt8 := stripe 2 1

/-- `parit16_2`. -/
def parit16_2 : Page → UInt8 := stripe 4 2

/-- `parit32_2`. -/
def parit32_2 : Page → UInt8 := stripe 8 4

/-- `parit64_2`. -/
def parit64_2 : Page → UInt8 := stripe 16 8

/-- `parit128_2`. -/
def parit128_2 : Page → UInt8 := stripe 32 16

/-- `parit256_2`. -/
def parit256_2 : Page → UInt8 := stripe 64 32

/-- `parit512_2`. -/
def parit512_2 : Page → UInt8 := stripe 128 64

/-- `parit1024_2`. -/
def parit1024_2 : Page → UInt8 := stripe 256 128

/-- The parity of the other stripes, from that of all bytes. -/
def otherStripe (sum parit : UInt8) : UInt8 :=
  if sum = 0 then parit else if parit ≠ 0 then 0 else 1

/-- `parit8_1`. -/
def parit8_1 (writeData : Page) : UInt8 := otherStripe (sum writeData) (parit8_2 writeData)

/-- `parit16_1`. -/
def parit16_1 (writeData : Page) : UInt8 := otherStripe (sum writeData) (parit16_2 writeData)

/-- `parit32_1`. -/
def parit32_1 (writeData : Page) : UInt8 := otherStripe (sum writeData) (parit32_2 writeData)

/-- `parit64_1`. -/
def parit64_1 (writeData : Page) : UInt8 := otherStripe (sum writeData) (parit64_2 writeData)

/-- `parit128_1`. -/
def parit128_1 (writeData : Page) : UInt8 := otherStripe (sum writeData) (parit128_2 writeData)

/-- `parit256_1`. -/
def parit256_1 (writeData : Page) : UInt8 := otherStripe (sum writeData) (parit256_2 writeData)

/-- `parit512_1`. -/
def parit512_1 (writeData : Page) : UInt8 := otherStripe (sum writeData) (parit512_2 writeData)

/-- `parit1024_1`. -/
def parit1024_1 (writeData : Page) : UInt8 := otherStripe (sum writeData) (parit1024_2 writeData)

/-- `genEcc3`. -/
def genEcc3 (writeData : Page) : Ecc :=
  let paritc := paritc writeData
  { byte0 := ~~~(parit64_1 writeData <<< 7 ||| parit64_2 writeData <<< 6 |||
      parit32_1 writeData <<< 5 ||| parit32_2 writeData <<< 4 ||| parit16_1 writeData <<< 3 |||
      parit16_2 writeData <<< 2 ||| parit8_1 writeData <<< 1 ||| parit8_2 writeData)
    byte1 := ~~~(parit1024_1 writeData <<< 7 ||| parit1024_2 writeData <<< 6 |||
      parit512_1 writeData <<< 5 ||| parit512_2 writeData <<< 4 ||| parit256_1 writeData <<< 3 |||
      parit256_2 writeData <<< 2 ||| parit128_1 writeData <<< 1 ||| parit128_2 writeData)
    byte2 := ~~~(parit4_1 paritc <<< 7 ||| parit4_2 paritc <<< 6 ||| parit2_1 paritc <<< 5 |||
      parit2_2 paritc <<< 4 ||| parit1_1 paritc <<< 3 ||| parit1_2 paritc <<< 2 ||| 0x00 ||| 0x00) }

/-! ### Comparing and correcting -/

/-- The bits of a byte from the lowest on, taken out by halving the byte `k` times in place,
and what is left of the byte. -/
def takeBits : ℕ → UInt8 → List UInt8 × UInt8
  | 0, byte => ([byte % 2], byte)
  | k + 1, byte => (byte % 2 :: (takeBits k (byte / 2)).1, (takeBits k (byte / 2)).2)

/-- `ecc_bit`, from the bits of the stored and of the calculated bytes. -/
def eccBits (tmp0Bit tmp1Bit tmp2Bit comp0Bit comp1Bit comp2Bit : List UInt8) : List UInt8 :=
  (tmp2Bit.drop 2).zipWith (· ^^^ ·) (comp2Bit.drop 2) ++ tmp0Bit.zipWith (· ^^^ ·) comp0Bit ++
    tmp1Bit.zipWith (· ^^^ ·) comp1Bit ++ (tmp2Bit.take 2).zipWith (· ^^^ ·) (comp2Bit.take 2)

/-- `ecc_sum`. -/
def eccSum (eccBit : List UInt8) : UInt8 := eccBit.foldl (· + ·) 0

/-- `find_byte`. -/
def findByte (eccBit : List UInt8) : ℕ :=
  (eccBit.getD 23 0).toNat <<< 8 + (eccBit.getD 21 0).toNat <<< 7 +
    (eccBit.getD 19 0).toNat <<< 6 + (eccBit.getD 17 0).toNat <<< 5 +
    (eccBit.getD 15 0).toNat <<< 4 + (eccBit.getD 13 0).toNat <<< 3 +
    (eccBit.getD 11 0).toNat <<< 2 + (eccBit.getD 9 0).toNat <<< 1 + (eccBit.getD 7 0).toNat

/-- `find_bit`. -/
def findBit (eccBit : List UInt8) : UInt8 :=
  (eccBit.getD 5 0) <<< 2 + (eccBit.getD 3 0) <<< 1 + eccBit.getD 1 0

/-- What a call of `fixEcc3` leaves behind. -/
structure FixResult where
  retVal : EccRetVal
  pageData : Page
  eccOrig : Ecc
  /-- The places of `page_data` that are read or written. -/
  accessed : List ℕ

/-- One bit of a page is inverted. -/
def flipBit (page : Page) (byte : ℕ) (bit : UInt8) : Page :=
  Function.update page byte (page byte ^^^ 1 <<< bit)

/-- `fixEcc3`. -/
def fixEcc3 (pageData : Page) (eccOrig : Ecc) : FixResult :=
  let eccCalculated := genEcc3 pageData
  let savedOrigEcc := eccOrig
  if eccOrig = eccCalculated then
    { retVal := .pass, pageData, eccOrig, accessed := List.range eccBlockSize }
  else
    let tmp0 := takeBits 7 (~~~eccOrig.byte0)
    let tmp1 := takeBits 7 (~~~eccOrig.byte1)
    let tmp2 := takeBits 7 (~~~eccOrig.byte2)
    let comp0 := takeBits 7 (~~~eccCalculated.byte0)
    let comp1 := takeBits 7 (~~~eccCalculated.byte1)
    let comp2 := takeBits 7 (~~~eccCalculated.byte2)
    let eccOrig := { byte0 := tmp0.2, byte1 := tmp1.2, byte2 := tmp2.2 }
    let eccBit := eccBits tmp0.1 tmp1.1 tmp2.1 comp0.1 comp1.1 comp2.1
    if eccSum eccBit = 11 then
      let byte := findByte eccBit
      let bit := findBit eccBit
      let accessed := List.range eccBlockSize ++ [byte]
      let pageData := flipBit pageData byte bit
      if savedOrigEcc = genEcc3 pageData then { retVal := .fix, pageData, eccOrig, accessed }
      else { retVal := .failData, pageData := flipBit pageData byte bit, eccOrig, accessed }
    else if eccSum eccBit = 1 then
      { retVal := .fail, pageData, eccOrig, accessed := List.range eccBlockSize }
    else { retVal := .failData, pageData, eccOrig, accessed := List.range eccBlockSize }

end Mv88fxx81.Nflash
