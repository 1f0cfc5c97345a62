import Mv88fxx81.Cesa.AesKey
import Mv88fxx81.Lib.BlockStream

/-!
# Modes of the cipher

`aesBlockEncrypt128` and `aesBlockDecrypt128` run the cipher over the blocks of a buffer, each for
itself or chained. The buffers are places of one memory. Decryption brings the bytes back, also in
place, and chained calls can be split: a decryption leaves the vector for the next call, an
encryption does not.
-/

namespace Mv88fxx81.Cesa.Aes

open ByteField (Byte)
open BlockStream

/-- `MODE_ECB`. -/
def modeEcb : ℕ := 1

/-- `MODE_CBC`. -/
def modeCbc : ℕ := 2

/-- Byte `t` of a column. -/
def Column.byte (a : Column) : ℕ → Byte
  | 0 => a.b0
  | 1 => a.b1
  | 2 => a.b2
  | _ => a.b3

/-- Byte `4 * j + t` of a square, `block[t][j]`. -/
def State.byte (a : State) (i : ℕ) : Byte :=
  match i / 4 with
  | 0 => a.c0.byte (i % 4)
  | 1 => a.c1.byte (i % 4)
  | 2 => a.c2.byte (i % 4)
  | _ => a.c3.byte (i % 4)

/-- Column `j` of a buffer. -/
def bufferColumn (f : ℕ → Byte) (j : ℕ) : Column :=
  ⟨f (4 * j), f (4 * j + 1), f (4 * j + 2), f (4 * j + 3)⟩

/-- "parse input stream into rectangular array". -/
def parse (f : ℕ → Byte) : State :=
  ⟨bufferColumn f 0, bufferColumn f 1, bufferColumn f 2, bufferColumn f 3⟩

theorem parse_byte (a : State) : parse a.byte = a := rfl

theorem byte_parse (f : ℕ → Byte) {t : ℕ} (ht : t < 16) : (parse f).byte t = f t := by
  match t, ht with
  | 0, _ | 1, _ | 2, _ | 3, _ | 4, _ | 5, _ | 6, _ | 7, _ | 8, _ | 9, _ | 10, _ | 11, _ | 12, _
  | 13, _ | 14, _ | 15, _ => rfl
  | _ + 16, h => exact absurd h (by omega)

theorem bufferColumn_congr {f g : ℕ → Byte} (h : ∀ t < 16, f t = g t) {j : ℕ} (hj : j < 4) :
    bufferColumn f j = bufferColumn g j := by
  rw [bufferColumn, bufferColumn, h (4 * j) (by omega), h (4 * j + 1) (by omega),
    h (4 * j + 2) (by omega), h (4 * j + 3) (by omega)]

/-- The blocks of a buffer. -/
def blocks : Format Byte State where
  size := 16
  bytes := State.byte
  ofBytes := parse
  ofBytes_bytes := parse_byte
  bytes_ofBytes := fun f _ ht => byte_parse f ht
  ofBytes_congr := fun f g h => by
    rw [parse, parse, bufferColumn_congr h (by decide), bufferColumn_congr h (by decide),
      bufferColumn_congr h (by decide), bufferColumn_congr h (by decide)]

/-- A block of `MODE_ECB`. -/
def ecbEncrypt (W : List Column) (rounds : ℕ) (_ : Unit) (block : State) : Unit × State :=
  ((), rijndaelEncrypt128 block W rounds)

/-- A block of `MODE_ECB`. -/
def ecbDecrypt (W : List Column) (rounds : ℕ) (_ : Unit) (block : State) : Unit × State :=
  ((), rijndaelDecrypt128 block W rounds)

/-- A block of `MODE_CBC`: the one before is still in `block`. -/
def cbcEncrypt (W : List Column) (rounds : ℕ) (block input : State) : State × State :=
  let block := rijndaelEncrypt128 (keyAddition block input) W rounds
  (block, block)

/-- A block of `MODE_CBC`, which goes to `IV` for the next one. -/
def cbcDecrypt (W : List Column) (rounds : ℕ) (IV input : State) : State × State :=
  (input, keyAddition (rijndaelDecrypt128 input W rounds) IV)

/-- `aesBlockEncrypt128`, with the memory afterwards. -/
def aesBlockEncrypt128 (mode : ℕ) (IV : State) (W : List Column) (keyLen plain numBlocks cipher : ℕ)
    (mem : ℕ → Byte) : Except AesError (ℕ → Byte) :=
  match keyColumns keyLen with
  | none => .error .badKeyMat
  | some KC =>
    if mode = modeEcb then
      .ok (loop blocks (ecbEncrypt W (roundsOf KC)) plain cipher numBlocks ((), mem)).2
    else if mode = modeCbc then
      .ok (loop blocks (cbcEncrypt W (roundsOf KC)) plain cipher numBlocks (IV, mem)).2
    else .error .badCipherState

/-- `aesBlockDecrypt128`, with `IV` and the memory afterwards. The first block of `MODE_CBC` is not
counted. -/
def aesBlockDecrypt128 (mode : ℕ) (IV : State) (W : List Column)
    (keyLen srcData numBlocks dstData : ℕ) (mem : ℕ → Byte) :
    Except AesError (State × (ℕ → Byte)) :=
  match keyColumns keyLen with
  | none => .error .badKeyMat
  | some KC =>
    if mode = modeEcb then
      .ok (IV, (loop blocks (ecbDecrypt W (roundsOf KC)) srcData dstData numBlocks ((), mem)).2)
    else if mode = modeCbc then
      .ok ((List.range' 1 (numBlocks - 1)).foldl
        (step blocks (cbcDecrypt W (roundsOf KC)) srcData dstData)
        (step blocks (cbcDecrypt W (roundsOf KC)) srcData dstData (IV, mem) 0))
    else .error .badCipherState

variable {mode keyLen rounds src dst out m n : ℕ} {IV : State} {W : List Column}
  {mem mem' : ℕ → Byte}

/-! ### Round trip -/

theorem ecbDecrypt_undoes (W : List Column) (rounds : ℕ) :
    Undoes (ecbDecrypt W rounds) (ecbEncrypt W rounds) := fun _ b =>
  congrArg (Prod.mk ()) (rijndaelDecrypt128_rijndaelEncrypt128 b W rounds)

theorem keyAddition_comm (a b : State) : keyAddition a b = keyAddition b a := by
  simp only [keyAddition, Column.xor, BitVec.xor_comm]

theorem cbcDecrypt_undoes (W : List Column) (rounds : ℕ) :
    Undoes (cbcDecrypt W rounds) (cbcEncrypt W rounds) := by
  intro IV b
  rw [cbcDecrypt, cbcEncrypt]
  dsimp only
  rw [rijndaelDecrypt128_rijndaelEncrypt128, keyAddition_comm IV, keyAddition_keyAddition]

/-- With a first block, the chained decryption is one loop. -/
theorem cbc_foldl {f : State → State → State × State} {x : State × (ℕ → Byte)} (hn : 1 ≤ n) :
    (List.range' 1 (n - 1)).foldl (step blocks f src dst) (step blocks f src dst x 0) =
      loop blocks f src dst n x := by
  obtain ⟨k, rfl⟩ : ∃ k, n = k + 1 := ⟨n - 1, by omega⟩
  rfl

/-- Decryption brings the encrypted bytes back, in place or elsewhere. -/
theorem aesBlockDecrypt128_aesBlockEncrypt128 (hn : 1 ≤ n) (hsrc : Behind blocks src dst n)
    (hout : Behind blocks dst out n)
    (hencrypt : aesBlockEncrypt128 mode IV W keyLen src n dst mem = .ok mem') :
    ∃ IV' mem'', aesBlockDecrypt128 mode IV W keyLen dst n out mem' = .ok (IV', mem'') ∧
      ∀ p < 16 * n, mem'' (out + p) = mem (src + p) := by
  unfold aesBlockEncrypt128 at hencrypt
  unfold aesBlockDecrypt128
  cases hsize : keyColumns keyLen with
  | none =>
    rw [hsize] at hencrypt
    cases hencrypt
  | some KC =>
    rw [hsize] at hencrypt
    dsimp only at hencrypt ⊢
    by_cases hecb : mode = modeEcb
    · rw [if_pos hecb] at hencrypt ⊢
      cases hencrypt
      exact ⟨_, _, rfl, fun p hp => (ecbDecrypt_undoes W (roundsOf KC)).loop hsrc hout hp⟩
    · by_cases hcbc : mode = modeCbc
      · rw [if_neg hecb, if_pos hcbc] at hencrypt ⊢
        cases hencrypt
        rw [cbc_foldl hn]
        exact ⟨_, _, rfl, fun p hp => (cbcDecrypt_undoes W (roundsOf KC)).loop hsrc hout hp⟩
      · rw [if_neg hecb, if_neg hcbc] at hencrypt
        cases hencrypt

/-- The bytes of a memory of the tests. -/
def countingBytes (p : ℕ) : Byte := BitVec.ofNat 8 p

/-- A block is encrypted and decrypted where it lies. -/
theorem aesBlockDecrypt128_inPlace :
    ∃ mem', aesBlockEncrypt128 modeCbc (parse countingBytes) [] 128 32 1 32 countingBytes =
        .ok mem' ∧
      ∃ IV' mem'', aesBlockDecrypt128 modeCbc (parse countingBytes) [] 128 32 1 32 mem' =
          .ok (IV', mem'') ∧
        ∀ p < 16 * 1, mem'' (32 + p) = countingBytes (32 + p) :=
  ⟨_, rfl, aesBlockDecrypt128_aesBlockEncrypt128 le_rfl (.inl le_rfl) (.inl le_rfl) rfl⟩

/-! ### Splitting a call -/

/-- Chained blocks can be decrypted in two calls. -/
theorem aesBlockDecrypt128_split (hm : 1 ≤ m) (hn : 1 ≤ n) :
    aesBlockDecrypt128 mode IV W keyLen src (m + n) dst mem =
      (aesBlockDecrypt128 mode IV W keyLen src m dst mem).bind fun x =>
        aesBlockDecrypt128 mode x.1 W keyLen (src + 16 * m) n (dst + 16 * m) x.2 := by
  unfold aesBlockDecrypt128
  cases keyColumns keyLen with
  | none => rfl
  | some KC =>
    dsimp only
    by_cases hecb : mode = modeEcb
    · simp only [if_pos hecb]
      rw [loop_split]
      rfl
    · by_cases hcbc : mode = modeCbc
      · simp only [if_neg hecb, if_pos hcbc]
        rw [cbc_foldl (by omega), cbc_foldl hm, loop_split, Except.bind, cbc_foldl hn]
        rfl
      · simp only [if_neg hecb, if_neg hcbc]
        rfl

/-- The block that the loop of `MODE_CBC` carries is the last one in the memory. -/
theorem cbcEncrypt_last (hm : 1 ≤ m) {x : State × (ℕ → Byte)} :
    blocks.read (loop blocks (cbcEncrypt W rounds) src dst m x).2 (dst + 16 * (m - 1)) =
      (loop blocks (cbcEncrypt W rounds) src dst m x).1 := by
  obtain ⟨k, rfl⟩ : ∃ k, m = k + 1 := ⟨m - 1, by omega⟩
  rw [loop_succ]
  exact blocks.read_write _ _ _

/-- Chained blocks can be encrypted in two calls, with the last block of the first one as the vector
of the second. -/
theorem aesBlockEncrypt128_split (hm : 1 ≤ m) :
    aesBlockEncrypt128 modeCbc IV W keyLen src (m + n) dst mem =
      (aesBlockEncrypt128 modeCbc IV W keyLen src m dst mem).bind fun mem' =>
        aesBlockEncrypt128 modeCbc (blocks.read mem' (dst + 16 * (m - 1))) W keyLen
          (src + 16 * m) n (dst + 16 * m) mem' := by
  have hmode : ¬ modeCbc = modeEcb := by decide
  unfold aesBlockEncrypt128
  cases keyColumns keyLen with
  | none => rfl
  | some KC =>
    dsimp only
    simp only [if_neg hmode, if_true]
    rw [loop_split, Except.bind, cbcEncrypt_last hm]
    rfl

/-- A chained call is two calls: an encryption with the last block as the second vector, a
decryption with the vector it leaves. -/
theorem modeCbc_split (hm : 1 ≤ m) (hn : 1 ≤ n) :
    aesBlockEncrypt128 modeCbc IV W keyLen src (m + n) dst mem =
        ((aesBlockEncrypt128 modeCbc IV W keyLen src m dst mem).bind fun mem' =>
          aesBlockEncrypt128 modeCbc (blocks.read mem' (dst + 16 * (m - 1))) W keyLen
            (src + 16 * m) n (dst + 16 * m) mem') ∧
      aesBlockDecrypt128 modeCbc IV W keyLen src (m + n) dst mem =
        ((aesBlockDecrypt128 modeCbc IV W keyLen src m dst mem).bind fun x =>
          aesBlockDecrypt128 modeCbc x.1 W keyLen (src + 16 * m) n (dst + 16 * m) x.2) :=
  ⟨aesBlockEncrypt128_split hm, aesBlockDecrypt128_split hm hn⟩

/-- Three blocks in place, as one and two. -/
theorem modeCbc_split_three :
    aesBlockEncrypt128 modeCbc (parse countingBytes) [] 128 0 (1 + 2) 0 countingBytes =
        ((aesBlockEncrypt128 modeCbc (parse countingBytes) [] 128 0 1 0 countingBytes).bind
          fun mem' => aesBlockEncrypt128 modeCbc (blocks.read mem' (0 + 16 * (1 - 1))) [] 128
            (0 + 16 * 1) 2 (0 + 16 * 1) mem') ∧
      aesBlockDecrypt128 modeCbc (parse countingBytes) [] 128 0 (1 + 2) 0 countingBytes =
        ((aesBlockDecrypt128 modeCbc (parse countingBytes) [] 128 0 1 0 countingBytes).bind
          fun x => aesBlockDecrypt128 modeCbc x.1 [] 128 (0 + 16 * 1) 2 (0 + 16 * 1) x.2) :=
  modeCbc_split (by decide) (by decide)

end Mv88fxx81.Cesa.Aes
