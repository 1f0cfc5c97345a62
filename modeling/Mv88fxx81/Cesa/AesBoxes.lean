import Mv88fxx81.Lib.PackedTable
import Mv88fxx81.Lib.Rijndael

/-!
# Tables of the cipher

The tables of `mvAesBoxes.dat`. A product is looked up through logarithms to the base three; the
substitution of a byte is the affine image of its inverse, and the inverse table undoes it.
-/

namespace Mv88fxx81.Cesa.Aes

open ByteField (Byte)

/-- `mask`. -/
def mask : List ℕ := 0x00 :: List.replicate 255 0xff

/-- `Logtable`. -/
def logtable : List ℕ :=
  [0, 0, 25, 1, 50, 2, 26, 198, 75, 199, 27, 104, 51, 238, 223, 3, 100, 4, 224, 14, 52, 141, 129,
   239, 76, 113, 8, 200, 248, 105, 28, 193, 125, 194, 29, 181, 249, 185, 39, 106, 77, 228, 166, 114,
   154, 201, 9, 120, 101, 47, 138, 5, 33, 15, 225, 36, 18, 240, 130, 69, 53, 147, 218, 142, 150,
   143, 219, 189, 54, 208, 206, 148, 19, 92, 210, 241, 64, 70, 131, 56, 102, 221, 253, 48, 191, 6,
   139, 98, 179, 37, 226, 152, 34, 136, 145, 16, 126, 110, 72, 195, 163, 182, 30, 66, 58, 107, 40,
   84, 250, 133, 61, 186, 43, 121, 10, 21, 155, 159, 94, 202, 78, 212, 172, 229, 243, 115, 167, 87,
   175, 88, 168, 80, 244, 234, 214, 116, 79, 174, 233, 213, 231, 230, 173, 232, 44, 215, 117, 122,
   235, 22, 11, 245, 89, 203, 95, 176, 156, 169, 81, 160, 127, 12, 246, 111, 23, 196, 73, 236, 216,
   67, 31, 45, 164, 118, 123, 183, 204, 187, 62, 90, 251, 96, 177, 134, 59, 82, 161, 108, 170, 85,
   41, 157, 151, 178, 135, 144, 97, 190, 220, 252, 188, 149, 207, 205, 55, 63, 91, 209, 83, 57, 132,
   60, 65, 162, 109, 71, 20, 42, 158, 93, 86, 242, 211, 171, 68, 17, 146, 217, 35, 32, 46, 137, 180,
   124, 184, 38, 119, 153, 227, 165, 103, 74, 237, 222, 197, 49, 254, 24, 13, 99, 140, 128, 192,
   247, 112, 7]

/-- `Alogtable`, whose last entry the source leaves at zero. -/
def alogtable : List ℕ :=
  [1, 3, 5, 15, 17, 51, 85, 255, 26, 46, 114, 150, 161, 248, 19, 53, 95, 225, 56, 72, 216, 115, 149,
   164, 247, 2, 6, 10, 30, 34, 102, 170, 229, 52, 92, 228, 55, 89, 235, 38, 106, 190, 217, 112, 144,
   171, 230, 49, 83, 245, 4, 12, 20, 60, 68, 204, 79, 209, 104, 184, 211, 110, 178, 205, 76, 212,
   103, 169, 224, 59, 77, 215, 98, 166, 241, 8, 24, 40, 120, 136, 131, 158, 185, 208, 107, 189, 220,
   127, 129, 152, 179, 206, 73, 219, 118, 154, 181, 196, 87, 249, 16, 48, 80, 240, 11, 29, 39, 105,
   187, 214, 97, 163, 254, 25, 43, 125, 135, 146, 173, 236, 47, 113, 147, 174, 233, 32, 96, 160,
   251, 22, 58, 78, 210, 109, 183, 194, 93, 231, 50, 86, 250, 21, 63, 65, 195, 94, 226, 61, 71, 201,
   64, 192, 91, 237, 44, 116, 156, 191, 218, 117, 159, 186, 213, 100, 172, 239, 42, 126, 130, 157,
   188, 223, 122, 142, 137, 128, 155, 182, 193, 88, 232, 35, 101, 175, 234, 37, 111, 177, 200, 67,
   197, 84, 252, 31, 33, 99, 165, 244, 7, 9, 27, 45, 119, 153, 176, 203, 70, 202, 69, 207, 74, 222,
   121, 139, 134, 145, 168, 227, 62, 66, 198, 81, 243, 14, 18, 54, 90, 238, 41, 123, 141, 140, 143,
   138, 133, 148, 167, 242, 13, 23, 57, 75, 221, 124, 132, 151, 162, 253, 28, 36, 108, 180, 199, 82,
   246, 1, 3, 5, 15, 17, 51, 85, 255, 26, 46, 114, 150, 161, 248, 19, 53, 95, 225, 56, 72, 216, 115,
   149, 164, 247, 2, 6, 10, 30, 34, 102, 170, 229, 52, 92, 228, 55, 89, 235, 38, 106, 190, 217, 112,
   144, 171, 230, 49, 83, 245, 4, 12, 20, 60, 68, 204, 79, 209, 104, 184, 211, 110, 178, 205, 76,
   212, 103, 169, 224, 59, 77, 215, 98, 166, 241, 8, 24, 40, 120, 136, 131, 158, 185, 208, 107, 189,
   220, 127, 129, 152, 179, 206, 73, 219, 118, 154, 181, 196, 87, 249, 16, 48, 80, 240, 11, 29, 39,
   105, 187, 214, 97, 163, 254, 25, 43, 125, 135, 146, 173, 236, 47, 113, 147, 174, 233, 32, 96,
   160, 251, 22, 58, 78, 210, 109, 183, 194, 93, 231, 50, 86, 250, 21, 63, 65, 195, 94, 226, 61, 71,
   201, 64, 192, 91, 237, 44, 116, 156, 191, 218, 117, 159, 186, 213, 100, 172, 239, 42, 126, 130,
   157, 188, 223, 122, 142, 137, 128, 155, 182, 193, 88, 232, 35, 101, 175, 234, 37, 111, 177, 200,
   67, 197, 84, 252, 31, 33, 99, 165, 244, 7, 9, 27, 45, 119, 153, 176, 203, 70, 202, 69, 207, 74,
   222, 121, 139, 134, 145, 168, 227, 62, 66, 198, 81, 243, 14, 18, 54, 90, 238, 41, 123, 141, 140,
   143, 138, 133, 148, 167, 242, 13, 23, 57, 75, 221, 124, 132, 151, 162, 253, 28, 36, 108, 180,
   199, 82, 246, 1]

/-- `S`. -/
def s : List ℕ :=
  [99, 124, 119, 123, 242, 107, 111, 197, 48, 1, 103, 43, 254, 215, 171, 118, 202, 130, 201, 125,
   250, 89, 71, 240, 173, 212, 162, 175, 156, 164, 114, 192, 183, 253, 147, 38, 54, 63, 247, 204,
   52, 165, 229, 241, 113, 216, 49, 21, 4, 199, 35, 195, 24, 150, 5, 154, 7, 18, 128, 226, 235, 39,
   178, 117, 9, 131, 44, 26, 27, 110, 90, 160, 82, 59, 214, 179, 41, 227, 47, 132, 83, 209, 0, 237,
   32, 252, 177, 91, 106, 203, 190, 57, 74, 76, 88, 207, 208, 239, 170, 251, 67, 77, 51, 133, 69,
   249, 2, 127, 80, 60, 159, 168, 81, 163, 64, 143, 146, 157, 56, 245, 188, 182, 218, 33, 16, 255,
   243, 210, 205, 12, 19, 236, 95, 151, 68, 23, 196, 167, 126, 61, 100, 93, 25, 115, 96, 129, 79,
   220, 34, 42, 144, 136, 70, 238, 184, 20, 222, 94, 11, 219, 224, 50, 58, 10, 73, 6, 36, 92, 194,
   211, 172, 98, 145, 149, 228, 121, 231, 200, 55, 109, 141, 213, 78, 169, 108, 86, 244, 234, 101,
   122, 174, 8, 186, 120, 37, 46, 28, 166, 180, 198, 232, 221, 116, 31, 75, 189, 139, 138, 112, 62,
   181, 102, 72, 3, 246, 14, 97, 53, 87, 185, 134, 193, 29, 158, 225, 248, 152, 17, 105, 217, 142,
   148, 155, 30, 135, 233, 206, 85, 40, 223, 140, 161, 137, 13, 191, 230, 66, 104, 65, 153, 45, 15,
   176, 84, 187, 22]

/-- `Si`. -/
def si : List ℕ :=
  [82, 9, 106, 213, 48, 54, 165, 56, 191, 64, 163, 158, 129, 243, 215, 251, 124, 227, 57, 130, 155,
   47, 255, 135, 52, 142, 67, 68, 196, 222, 233, 203, 84, 123, 148, 50, 166, 194, 35, 61, 238, 76,
   149, 11, 66, 250, 195, 78, 8, 46, 161, 102, 40, 217, 36, 178, 118, 91, 162, 73, 109, 139, 209,
   37, 114, 248, 246, 100, 134, 104, 152, 22, 212, 164, 92, 204, 93, 101, 182, 146, 108, 112, 72,
   80, 253, 237, 185, 218, 94, 21, 70, 87, 167, 141, 157, 132, 144, 216, 171, 0, 140, 188, 211, 10,
   247, 228, 88, 5, 184, 179, 69, 6, 208, 44, 30, 143, 202, 63, 15, 2, 193, 175, 189, 3, 1, 19, 138,
   107, 58, 145, 17, 65, 79, 103, 220, 234, 151, 242, 207, 206, 240, 180, 230, 115, 150, 172, 116,
   34, 231, 173, 53, 133, 226, 249, 55, 232, 28, 117, 223, 110, 71, 241, 26, 113, 29, 41, 197, 137,
   111, 183, 98, 14, 170, 24, 190, 27, 252, 86, 62, 75, 198, 210, 121, 32, 154, 219, 192, 254, 120,
   205, 90, 244, 31, 221, 168, 51, 136, 7, 199, 49, 177, 18, 16, 89, 39, 128, 236, 95, 96, 81, 127,
   169, 25, 181, 74, 13, 45, 229, 122, 159, 147, 201, 156, 239, 160, 224, 59, 77, 174, 42, 245, 176,
   200, 235, 187, 60, 131, 83, 153, 97, 23, 43, 4, 126, 186, 119, 214, 38, 225, 105, 20, 99, 85, 33,
   12, 125]

/-- `rcon`. -/
def rcon : List ℕ :=
  [0x01, 0x02, 0x04, 0x08, 0x10, 0x20, 0x40, 0x80, 0x1b, 0x36, 0x6c, 0xd8, 0xab, 0x4d, 0x9a, 0x2f,
   0x5e, 0xbc, 0x63, 0xc6, 0x97, 0x35, 0x6a, 0xd4, 0xb3, 0x7d, 0xfa, 0xef, 0xc5, 0x91]

/-- An entry of a table. -/
def entry (table : List ℕ) (i : ℕ) : Byte := BitVec.ofNat 8 (table.getD i 0)

/-- `mul(aa, bb)`, the product of the byte with logarithm `aa` and of `bb`. -/
def mul (aa : ℕ) (bb : Byte) : Byte :=
  entry mask bb.toNat &&& entry alogtable (aa + logtable.getD bb.toNat 0)

/-- `box[b]`. -/
def box (table : List ℕ) (b : Byte) : Byte := entry table b.toNat

variable {aa : ℕ} {b : Byte}

/-! ### Logarithms -/

/-- A look-up in the table as one number. -/
def shifted (table : List ℕ) (i : ℕ) : Byte := BitVec.ofNat 8 (PackedTable.pack table >>> (8 * i))

/-- A logarithm in a table as one number. -/
def shiftedLog (table : List ℕ) (b : Byte) : ℕ := PackedTable.pack table >>> (8 * b.toNat) % 256

/-- Tables that have been checked, entry by entry. -/
structure BoxTables where
  log : List ℕ
  alog : List ℕ
  sub : List ℕ
  invSub : List ℕ
  log_bytes : PackedTable.Bytes log
  alog_bytes : PackedTable.Bytes alog
  sub_bytes : PackedTable.Bytes sub
  invSub_bytes : PackedTable.Bytes invSub
  alog_succ : ∀ i < 510, shifted alog (i + 1) = ByteField.xtime (shifted alog i) ^^^ shifted alog i
  alog_log : ∀ b : Byte, b ≠ 0 →
    shiftedLog log b < 255 ∧ shifted alog (shiftedLog log b) = b
  sub_affine : ∀ b : Byte, b ≠ 0 →
    shifted sub b.toNat = Rijndael.affine (shifted alog (255 - shiftedLog log b))
  invSub_sub : ∀ b : Byte, shifted invSub (shifted sub b.toNat).toNat = b
  mix : shifted alog 25 = 2 ∧ shifted alog 1 = 3
  unmix : shifted alog 223 = 0x0e ∧ shifted alog 104 = 0x0b ∧ shifted alog 238 = 0x0d ∧
    shifted alog 199 = 0x09

/-- The tables of the source. -/
def boxTables : BoxTables where
  log := logtable
  alog := alogtable
  sub := s
  invSub := si
  log_bytes := by decide +kernel
  alog_bytes := by decide +kernel
  sub_bytes := by decide +kernel
  invSub_bytes := by decide +kernel
  alog_succ := by decide +kernel
  alog_log := by decide +kernel
  sub_affine := by decide +kernel
  invSub_sub := by decide +kernel
  mix := by decide +kernel
  unmix := by decide +kernel

theorem entry_eq {table : List ℕ} (hbytes : PackedTable.Bytes table) (i : ℕ) :
    entry table i = shifted table i := PackedTable.ofNat_getD hbytes i

theorem shiftedLog_eq (b : Byte) : shiftedLog logtable b = logtable.getD b.toNat 0 :=
  PackedTable.pack_shiftRight boxTables.log_bytes b.toNat

theorem entry_alogtable_eq (i : ℕ) : entry alogtable i = shifted alogtable i :=
  entry_eq boxTables.alog_bytes i

theorem entry_s_eq (i : ℕ) : entry s i = shifted s i := entry_eq boxTables.sub_bytes i

theorem entry_si_eq (i : ℕ) : entry si i = shifted si i := entry_eq boxTables.invSub_bytes i

theorem mul_three (b : Byte) : ByteField.mul 3 b = ByteField.xtime b ^^^ b :=
  ByteField.Additive.ext (g := fun b => ByteField.xtime b ^^^ b) (ByteField.mul_additive_right 3)
    (ByteField.xtime_additive.add ByteField.Additive.id) (by decide)

theorem entry_alogtable_succ {i : ℕ} (hi : i < 510) :
    entry alogtable (i + 1) = ByteField.mul 3 (entry alogtable i) := by
  rw [entry_alogtable_eq, entry_alogtable_eq, mul_three]
  exact boxTables.alog_succ i hi

theorem entry_alogtable {i : ℕ} (hi : i < 511) : entry alogtable i = ByteField.pow 3 i := by
  induction i with
  | zero => rfl
  | succ i ih => rw [entry_alogtable_succ (by omega), ih (by omega), ByteField.pow]

theorem entry_mask (hb : b ≠ 0) : entry mask b.toNat = 0xff := by
  obtain ⟨n, hn⟩ : ∃ n, b.toNat = n + 1 := by
    refine ⟨b.toNat - 1, ?_⟩
    have hpos : b.toNat ≠ 0 := fun h => hb (BitVec.eq_of_toNat_eq h)
    omega
  have hlt : n < 255 := by
    have h := b.isLt
    omega
  rw [entry, mask, hn, List.getD_cons_succ, List.getD_eq_getElem?_getD,
    List.getElem?_replicate_of_lt hlt]
  rfl

/-- The logarithm of a byte other than zero. -/
theorem log_spec (hb : b ≠ 0) :
    logtable.getD b.toNat 0 < 255 ∧ entry alogtable (logtable.getD b.toNat 0) = b := by
  rw [entry_alogtable_eq, ← shiftedLog_eq]
  exact boxTables.alog_log b hb

/-- The table product is the one of the field. -/
theorem mul_eq (haa : aa < 255) (b : Byte) : mul aa b = ByteField.mul (entry alogtable aa) b := by
  by_cases hb : b = 0
  · subst hb
    rw [ByteField.mul_zero]
    exact BitVec.zero_and
  · obtain ⟨hlog, hentry⟩ := log_spec hb
    rw [mul, entry_mask hb, entry_alogtable (by omega), ByteField.pow_add,
      ← entry_alogtable (by omega), ← entry_alogtable (by omega), hentry]
    exact BitVec.allOnes_and

/-- A product whose first factor has a known logarithm. -/
theorem mul_eq_mul {c : Byte} (haa : aa < 255) (hc : shifted alogtable aa = c) (b : Byte) :
    mul aa b = ByteField.mul c b := by
  rw [mul_eq haa, entry_alogtable_eq, hc]

/-! ### The substitution -/

/-- What the inverse of a byte is in the tables. -/
def tableInverse (b : Byte) : Byte := entry alogtable (255 - logtable.getD b.toNat 0)

theorem inverse_eq (hb : b ≠ 0) : ByteField.inverse b = tableInverse b := by
  obtain ⟨hlog, hentry⟩ := log_spec hb
  refine ByteField.inverse_eq ?_
  have hproduct : ByteField.mul (entry alogtable (logtable.getD b.toNat 0)) (tableInverse b) =
      entry alogtable 255 := by
    rw [tableInverse, entry_alogtable (by omega), entry_alogtable (by omega), ← ByteField.pow_add,
      Nat.add_sub_cancel' hlog.le, entry_alogtable (by decide)]
  rw [hentry] at hproduct
  exact hproduct

/-- The table of the substitution holds the affine images of the inverses. -/
theorem box_s (b : Byte) : box s b = Rijndael.sBox b := by
  by_cases hb : b = 0
  · rw [hb, Rijndael.sBox, ByteField.inverse_zero]
    rfl
  · rw [Rijndael.sBox, inverse_eq hb, box, entry_s_eq, tableInverse, entry_alogtable_eq,
      ← shiftedLog_eq]
    exact boxTables.sub_affine b hb

/-- The inverse table undoes the substitution. -/
theorem box_si_box_s (b : Byte) : box si (box s b) = b := by
  rw [box, box, entry_s_eq, entry_si_eq]
  exact boxTables.invSub_sub b

/-- The constants of the rounds are the powers of two. -/
theorem entry_rcon {i : ℕ} (hi : i < 30) : entry rcon i = ByteField.pow 2 i := by
  revert i
  decide

end Mv88fxx81.Cesa.Aes
