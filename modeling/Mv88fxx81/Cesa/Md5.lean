import Mv88fxx81.Cesa.Words
import Mv88fxx81.Lib.BlockHash

/-!
# MD5

The MD5 code of the hardware abstraction layer: a context of a chaining value, a
64-bit bit counter in two words and a block buffer, with the usual three
operations. Updating a context is shown to absorb the data, and finishing it to
absorb the standard padding, also when the context was entered with a chaining
value and a count that stand for data hashed elsewhere.
-/

namespace Mv88fxx81.Cesa

open BlockHash

/-- `buf[4]` of `MV_MD5_CONTEXT`, the chaining value. -/
structure Md5State where
  a : UInt32
  b : UInt32
  c : UInt32
  d : UInt32
  deriving DecidableEq

/-- `MV_MD5_CONTEXT`. -/
structure Md5Context where
  buf : Md5State
  bits0 : UInt32
  bits1 : UInt32
  input : List UInt8
  deriving DecidableEq

/-- The core functions of the four rounds. -/
def md5F1 (x y z : UInt32) : UInt32 := z ^^^ (x &&& (y ^^^ z))

/-- `F2`. -/
def md5F2 (x y z : UInt32) : UInt32 := md5F1 z x y

/-- `F3`. -/
def md5F3 (x y z : UInt32) : UInt32 := x ^^^ y ^^^ z

/-- `F4`. -/
def md5F4 (x y z : UInt32) : UInt32 := y ^^^ (x ||| ~~~z)

/-- `MD5STEP`. The source rotates the names of the four variables from one step
to the next; here the values are rotated. -/
def md5Step (f : UInt32 → UInt32 → UInt32 → UInt32) (words : List UInt32) (s : Md5State)
    (step : ℕ × UInt32 × UInt32) : Md5State :=
  let (k, constant, shift) := step
  let w := s.a + (f s.b s.c s.d + (words.getD k 0 + constant))
  let w := (w <<< shift ||| w >>> (32 - shift)) + s.b
  ⟨s.d, w, s.b, s.c⟩

/-- The word index, additive constant and shift of each step of round 1. -/
def md5Round1 : List (ℕ × UInt32 × UInt32) :=
  [ (0, 0xd76aa478, 7), (1, 0xe8c7b756, 12), (2, 0x242070db, 17), (3, 0xc1bdceee, 22),
    (4, 0xf57c0faf, 7), (5, 0x4787c62a, 12), (6, 0xa8304613, 17), (7, 0xfd469501, 22),
    (8, 0x698098d8, 7), (9, 0x8b44f7af, 12), (10, 0xffff5bb1, 17), (11, 0x895cd7be, 22),
    (12, 0x6b901122, 7), (13, 0xfd987193, 12), (14, 0xa679438e, 17), (15, 0x49b40821, 22)]

/-- The steps of round 2. -/
def md5Round2 : List (ℕ × UInt32 × UInt32) :=
  [ (1, 0xf61e2562, 5), (6, 0xc040b340, 9), (11, 0x265e5a51, 14), (0, 0xe9b6c7aa, 20),
    (5, 0xd62f105d, 5), (10, 0x02441453, 9), (15, 0xd8a1e681, 14), (4, 0xe7d3fbc8, 20),
    (9, 0x21e1cde6, 5), (14, 0xc33707d6, 9), (3, 0xf4d50d87, 14), (8, 0x455a14ed, 20),
    (13, 0xa9e3e905, 5), (2, 0xfcefa3f8, 9), (7, 0x676f02d9, 14), (12, 0x8d2a4c8a, 20)]

/-- The steps of round 3. -/
def md5Round3 : List (ℕ × UInt32 × UInt32) :=
  [ (5, 0xfffa3942, 4), (8, 0x8771f681, 11), (11, 0x6d9d6122, 16), (14, 0xfde5380c, 23),
    (1, 0xa4beea44, 4), (4, 0x4bdecfa9, 11), (7, 0xf6bb4b60, 16), (10, 0xbebfbc70, 23),
    (13, 0x289b7ec6, 4), (0, 0xeaa127fa, 11), (3, 0xd4ef3085, 16), (6, 0x04881d05, 23),
    (9, 0xd9d4d039, 4), (12, 0xe6db99e5, 11), (15, 0x1fa27cf8, 16), (2, 0xc4ac5665, 23)]

/-- The steps of round 4. -/
def md5Round4 : List (ℕ × UInt32 × UInt32) :=
  [ (0, 0xf4292244, 6), (7, 0x432aff97, 10), (14, 0xab9423a7, 15), (5, 0xfc93a039, 21),
    (12, 0x655b59c3, 6), (3, 0x8f0ccc92, 10), (10, 0xffeff47d, 15), (1, 0x85845dd1, 21),
    (8, 0x6fa87e4f, 6), (15, 0xfe2ce6e0, 10), (6, 0xa3014314, 15), (13, 0x4e0811a1, 21),
    (4, 0xf7537e82, 6), (11, 0xbd3af235, 10), (2, 0x2ad7d2bb, 15), (9, 0xeb86d391, 21)]

/-- `mvMD5Transform`. -/
def mvMD5Transform (buf : Md5State) (words : List UInt32) : Md5State :=
  let s := md5Round1.foldl (md5Step md5F1 words) buf
  let s := md5Round2.foldl (md5Step md5F2 words) s
  let s := md5Round3.foldl (md5Step md5F3 words) s
  let s := md5Round4.foldl (md5Step md5F4 words) s
  ⟨buf.a + s.a, buf.b + s.b, buf.c + s.c, buf.d + s.d⟩

/-- The transform applied to a block buffer seen as words. -/
def md5Compress (buf : Md5State) (block : List UInt8) : Md5State :=
  mvMD5Transform buf (loadWords block)

/-- The initial chaining value. -/
def md5InitState : Md5State := ⟨0x67452301, 0xefcdab89, 0x98badcfe, 0x10325476⟩

/-- `mvMD5Init`: the block buffer is left as it is. -/
def mvMD5Init (ctx : Md5Context) : Md5Context :=
  { ctx with
    buf := md5InitState
    bits0 := 0
    bits1 := 0 }

/-- The loop of `mvMD5Update` over the 64-byte chunks and the copy of the rest. -/
def md5Chunks (ctx : Md5Context) (data : List UInt8) : Md5Context :=
  if 64 ≤ data.length then
    md5Chunks
      { ctx with
        input := overwrite ctx.input 0 (data.take 64)
        buf := md5Compress ctx.buf (overwrite ctx.input 0 (data.take 64)) }
      (data.drop 64)
  else { ctx with input := overwrite ctx.input 0 data }
  termination_by data.length
  decreasing_by
    simp only [List.length_drop]
    omega

/-- `mvMD5Update`. -/
def mvMD5Update (ctx : Md5Context) (data : List UInt8) : Md5Context :=
  let len := UInt32.ofNat data.length
  let t := ctx.bits0
  let bits0 := t + len <<< 3
  let bits1 := (if bits0 < t then ctx.bits1 + 1 else ctx.bits1) + len >>> 29
  let ctx := { ctx with bits0, bits1 }
  let t := ((t >>> 3) &&& 0x3f).toNat
  if t ≠ 0 then
    if data.length < 64 - t then { ctx with input := overwrite ctx.input t data }
    else
      let input := overwrite ctx.input t (data.take (64 - t))
      md5Chunks { ctx with input, buf := md5Compress ctx.buf input } (data.drop (64 - t))
  else md5Chunks ctx data

/-- The bytes of the digest for a chaining value. -/
def md5Digest (buf : Md5State) : List UInt8 :=
  storeWord buf.a ++ storeWord buf.b ++ storeWord buf.c ++ storeWord buf.d

/-- The first part of `mvMD5Final`: the padding up to eight bytes before a block
boundary, in one or two lots. -/
def md5Pad (ctx : Md5Context) : Md5Context :=
  let count := ((ctx.bits0 >>> 3) &&& 0x3f).toNat
  let marked := overwrite ctx.input count [0x80]
  let left := 64 - 1 - count
  if left < 8 then
    let first := overwrite marked (count + 1) (List.replicate left 0)
    { ctx with
      buf := md5Compress ctx.buf first
      input := overwrite first 0 (List.replicate 56 0) }
  else { ctx with input := overwrite marked (count + 1) (List.replicate (left - 8) 0) }

/-- `mvMD5Final`. The wiping `memset` takes the size of the pointer, so it clears
one word of the context. -/
def mvMD5Final (ctx : Md5Context) : List UInt8 × Md5Context :=
  let ctx := md5Pad ctx
  let input := overwrite (overwrite ctx.input 56 (storeWord ctx.bits0)) 60 (storeWord ctx.bits1)
  let buf := md5Compress ctx.buf input
  (md5Digest buf, { ctx with buf := { buf with a := 0 }, input })

/-- `mvMD5`, in a context whose block buffer holds `garbage`. -/
def mvMD5 (garbage : List UInt8) (data : List UInt8) : List UInt8 :=
  (mvMD5Final (mvMD5Update (mvMD5Init ⟨md5InitState, 0, 0, garbage⟩) data)).1

/-- `mvHmacMd5`, in a context whose block buffer holds `garbage`. -/
def mvHmacMd5 (garbage text key : List UInt8) : List UInt8 :=
  let kIpad := (overwrite (List.replicate 64 0) 0 key).map (· ^^^ 0x36)
  let kOpad := (overwrite (List.replicate 64 0) 0 key).map (· ^^^ 0x5c)
  let ctx := mvMD5Init ⟨md5InitState, 0, 0, garbage⟩
  let inner := mvMD5Final (mvMD5Update (mvMD5Update ctx kIpad) text)
  (mvMD5Final (mvMD5Update (mvMD5Update (mvMD5Init inner.2) kOpad) inner.1)).1

/-- The bit length as it is stored in the last eight bytes of the padding. -/
def md5Length (bits : ℕ) : List UInt8 :=
  storeWord (UInt32.ofNat bits) ++ storeWord (UInt32.ofNat (bits / 2 ^ 32))

/-- The MD5 hash: the standard padding under the transform of the code. -/
def md5 (message : List UInt8) : List UInt8 :=
  md5Digest (finish md5Compress md5Length md5InitState 0 message)

/-- A context that stands for `done` bytes hashed elsewhere to the chaining value
`s₀` and the bytes `data` hashed after them. -/
structure Md5Context.Holds (ctx : Md5Context) (s₀ : Md5State) (done : ℕ) (data : List UInt8) :
    Prop where
  whole : 64 ∣ done
  bits : ctx.bits0.toNat + 2 ^ 32 * ctx.bits1.toNat = 8 * (done + data.length) % 2 ^ 64
  stream : BlockHash.Holds md5Compress s₀ data ctx.buf ctx.input

/-- The two-word counter of the MD5 code adds eight bits a byte, carry included. -/
theorem md5Bits_add {bits0 bits1 : UInt32} {n len : ℕ} (hlen : len < 2 ^ 32)
    (hbits : bits0.toNat + 2 ^ 32 * bits1.toNat = 8 * n % 2 ^ 64) :
    (bits0 + UInt32.ofNat len <<< 3).toNat + 2 ^ 32 *
        ((if bits0 + UInt32.ofNat len <<< 3 < bits0 then bits1 + 1 else bits1) +
          UInt32.ofNat len >>> 29).toNat = 8 * (n + len) % 2 ^ 64 := by
  have hlow := lowBits_add bits0 hlen
  have hhigh := highBits_of len hlen
  have h0 := bits0.toNat_lt
  have h1 := bits1.toNat_lt
  by_cases hcarry : bits0 + UInt32.ofNat len <<< 3 < bits0
  · rw [if_pos hcarry]
    rw [UInt32.lt_iff_toNat_lt, hlow] at hcarry
    rw [hlow, UInt32.toNat_add, UInt32.toNat_add, hhigh]
    simp only [UInt32.reduceToNat]
    omega
  · rw [if_neg hcarry]
    rw [UInt32.lt_iff_toNat_lt, hlow] at hcarry
    rw [hlow, UInt32.toNat_add, hhigh]
    omega

/-- The chunk loop absorbs its data when no byte is pending. -/
theorem md5Chunks_holds {ctx : Md5Context} {s₀ : Md5State} {done : ℕ} {data more : List UInt8}
    (hwhole : 64 ∣ done)
    (hbits : ctx.bits0.toNat + 2 ^ 32 * ctx.bits1.toNat =
      8 * (done + (data ++ more).length) % 2 ^ 64)
    (hstream : BlockHash.Holds md5Compress s₀ data ctx.buf ctx.input)
    (hzero : data.length % 64 = 0) : (md5Chunks ctx more).Holds s₀ done (data ++ more) := by
  induction ctx, more using md5Chunks.induct generalizing data with
  | case1 ctx more hlong ih =>
    rw [md5Chunks, if_pos hlong]
    have hblock : data.length % 64 + (more.take 64).length = 64 := by
      rw [List.length_take]
      omega
    have hinput : (overwrite ctx.input (data.length % 64) (more.take 64)).length = 64 := by
      rw [overwrite_length (by rw [hstream.size]; omega), hstream.size]
    have hcomplete := hstream.complete hblock hinput
    have hlength : (data ++ more.take 64).length % 64 = 0 := by
      rw [List.length_append]
      omega
    rw [hzero] at hcomplete
    rw [← List.take_append_drop 64 more, ← List.append_assoc] at hbits ⊢
    rw [List.take_append_drop]
    exact ih hbits hcomplete hlength
  | case2 ctx more hshort =>
    rw [md5Chunks, if_neg hshort]
    have hfill := hstream.fill (show data.length % 64 + more.length < 64 by omega)
    rw [hzero] at hfill
    exact ⟨hwhole, hbits, hfill⟩

/-- A fresh context holds no data. -/
theorem mvMD5Init_holds {ctx : Md5Context} (hsize : ctx.input.length = 64) :
    (mvMD5Init ctx).Holds md5InitState 0 [] :=
  { whole := by simp
    bits := by simp [mvMD5Init]
    stream := BlockHash.Holds.start hsize }

/-- Updating a context appends to the data it holds. -/
theorem mvMD5Update_holds {ctx : Md5Context} {s₀ : Md5State} {done : ℕ} {data more : List UInt8}
    (hholds : ctx.Holds s₀ done data) (hlen : more.length < 2 ^ 32) :
    (mvMD5Update ctx more).Holds s₀ done (data ++ more) := by
  obtain ⟨hwhole, hbits, hstream⟩ := hholds
  have hpending := pendingBytes_eq hwhole hbits
  have hcount := md5Bits_add hlen hbits
  rw [Nat.add_assoc, ← List.length_append] at hcount
  unfold mvMD5Update
  simp only [hpending]
  by_cases hzero : data.length % 64 = 0
  · rw [if_neg (by simpa using hzero)]
    exact md5Chunks_holds hwhole hcount hstream hzero
  · rw [if_pos hzero]
    split
    next hshort => exact ⟨hwhole, hcount, hstream.fill (by omega)⟩
    next hlong =>
      have hhead : data.length % 64 + (more.take (64 - data.length % 64)).length = 64 := by
        rw [List.length_take]
        omega
      have hinput : (overwrite ctx.input (data.length % 64)
          (more.take (64 - data.length % 64))).length = 64 := by
        rw [overwrite_length (by rw [hstream.size]; omega), hstream.size]
      have hcomplete := hstream.complete hhead hinput
      have hlength : (data ++ more.take (64 - data.length % 64)).length % 64 = 0 := by
        rw [List.length_append]
        omega
      rw [← List.take_append_drop (64 - data.length % 64) more, ← List.append_assoc] at hcount ⊢
      rw [List.take_append_drop] at hcount ⊢
      exact md5Chunks_holds hwhole hcount hcomplete hlength

@[simp] theorem md5Length_length (bits : ℕ) : (md5Length bits).length = 8 := rfl

/-- The two counter words store the bit length of the padding. -/
theorem storeBits_eq {bits0 bits1 : UInt32} {bits : ℕ}
    (hbits : bits0.toNat + 2 ^ 32 * bits1.toNat = bits % 2 ^ 64) :
    storeWord bits0 ++ storeWord bits1 = md5Length bits := by
  have h0 : bits0 = UInt32.ofNat bits := by
    apply UInt32.toNat_inj.mp
    rw [UInt32.toNat_ofNat']
    have := bits0.toNat_lt
    omega
  have h1 : bits1 = UInt32.ofNat (bits / 2 ^ 32) := by
    apply UInt32.toNat_inj.mp
    rw [UInt32.toNat_ofNat']
    have := bits1.toNat_lt
    have := bits0.toNat_lt
    omega
  rw [md5Length, ← h0, ← h1]

/-- The padded context holds the data, the marker and the zeros. -/
theorem md5Pad_stream {ctx : Md5Context} {s₀ : Md5State} {done : ℕ} {data : List UInt8}
    (hholds : ctx.Holds s₀ done data) :
    BlockHash.Holds md5Compress s₀
      (data ++ 0x80 :: List.replicate ((119 - (done + data.length) % 64) % 64) 0)
      (md5Pad ctx).buf (md5Pad ctx).input := by
  obtain ⟨hwhole, hbits, hstream⟩ := hholds
  have hpending := pendingBytes_eq hwhole hbits
  have hsize := hstream.size
  have hmerge : ∀ n, overwrite (overwrite ctx.input (data.length % 64) [0x80])
      (data.length % 64 + 1) (List.replicate n 0) =
      overwrite ctx.input (data.length % 64) (0x80 :: List.replicate n 0) := by
    intro n
    apply overwrite_overwrite
    simp only [List.length_singleton]
    omega
  unfold md5Pad
  simp only [hpending, hmerge]
  by_cases htwo : 64 - 1 - data.length % 64 < 8
  · -- the marker and zeros fill the block, and 56 zeros start the next one
    rw [if_pos htwo]
    have hfull : data.length % 64 +
        ((0x80 : UInt8) :: List.replicate (64 - 1 - data.length % 64) 0).length = 64 := by
      simp only [List.length_cons, List.length_replicate]
      omega
    have hinput : (overwrite ctx.input (data.length % 64)
        (0x80 :: List.replicate (64 - 1 - data.length % 64) 0)).length = 64 := by
      rw [overwrite_length (by omega), hsize]
    have hfirst := hstream.complete hfull hinput
    have hzero :
        (data ++ 0x80 :: List.replicate (64 - 1 - data.length % 64) 0).length % 64 = 0 := by
      rw [List.length_append]
      omega
    have hsecond := hfirst.fill
      (show _ % 64 + (List.replicate 56 (0 : UInt8)).length < 64 by rw [hzero]; simp)
    have hcount : (119 - (done + data.length) % 64) % 64 = 64 - 1 - data.length % 64 + 56 := by
      omega
    rw [hzero, List.append_assoc, List.cons_append, List.replicate_append_replicate] at hsecond
    rw [hcount]
    exact hsecond
  · rw [if_neg htwo]
    have hcount : (119 - (done + data.length) % 64) % 64 = 64 - 1 - data.length % 64 - 8 := by
      omega
    rw [hcount]
    apply hstream.fill
    simp only [List.length_cons, List.length_replicate]
    omega

/-- Padding does not touch the bit counter. -/
theorem md5Pad_bits (ctx : Md5Context) :
    (md5Pad ctx).bits0 = ctx.bits0 ∧ (md5Pad ctx).bits1 = ctx.bits1 := by
  unfold md5Pad
  dsimp only
  split <;> exact ⟨rfl, rfl⟩

/-- Finishing a context gives the digest of the padded data. -/
theorem mvMD5Final_digest {ctx : Md5Context} {s₀ : Md5State} {done : ℕ} {data : List UInt8}
    (hholds : ctx.Holds s₀ done data) :
    (mvMD5Final ctx).1 = md5Digest (finish md5Compress md5Length s₀ done data) ∧
      (mvMD5Final ctx).2.input.length = 64 := by
  have hstream := md5Pad_stream hholds
  have hsize := hstream.size
  have hmerge : overwrite (overwrite (md5Pad ctx).input 56 (storeWord (md5Pad ctx).bits0)) 60
      (storeWord (md5Pad ctx).bits1) =
      overwrite (md5Pad ctx).input 56 (md5Length (8 * (done + data.length))) := by
    rw [(md5Pad_bits ctx).1, (md5Pad_bits ctx).2, ← storeBits_eq hholds.bits]
    apply overwrite_overwrite
    simp [hsize]
  have hpadded : (data ++ 0x80 ::
      List.replicate ((119 - (done + data.length) % 64) % 64) 0).length % 64 = 56 := by
    obtain ⟨k, rfl⟩ := hholds.whole
    simp only [List.length_append, List.length_cons, List.length_replicate]
    omega
  have hcomplete := hstream.complete (show _ % 64 +
    (md5Length (8 * (done + data.length))).length = 64 by rw [hpadded]; rfl) hsize
  rw [hpadded, List.append_assoc] at hcomplete
  unfold mvMD5Final
  simp only [hmerge]
  refine ⟨?_, ?_⟩
  · rw [hcomplete.state]
    rfl
  · rw [overwrite_length (by simp [hsize]), hsize]

/-- `mvMD5` is the MD5 hash, whatever the context held before. -/
theorem mvMD5_eq_md5 {garbage message : List UInt8} (hgarbage : garbage.length = 64)
    (hlen : message.length < 2 ^ 32) : mvMD5 garbage message = md5 message :=
  (mvMD5Final_digest (mvMD5Update_holds (mvMD5Init_holds hgarbage) hlen)).1

/-- The key arrays of `mvHmacMd5` are the key blocks. -/
theorem overwrite_key_eq (byte : UInt8) {key : List UInt8} :
    (overwrite (List.replicate 64 0) 0 key).map (· ^^^ byte) = keyBlock byte key := by
  have hcomm : (fun b : UInt8 => b ^^^ byte) = (byte ^^^ ·) := by
    funext b
    exact UInt8.xor_comm b byte
  rw [hcomm, keyBlock, overwrite, List.drop_replicate]
  simp

/-- The length of a digest. -/
@[simp] theorem md5Digest_length (buf : Md5State) : (md5Digest buf).length = 16 := rfl

/-- `mvHmacMd5` is the keyed construction over the MD5 hash. -/
theorem mvHmacMd5_eq_hmac {garbage text key : List UInt8} (hgarbage : garbage.length = 64)
    (hkey : key.length ≤ 64) (hlen : text.length < 2 ^ 32) :
    mvHmacMd5 garbage text key = hmac md5 key text := by
  have hblock : ∀ byte, (keyBlock byte key).length < 2 ^ 32 := by
    intro byte
    rw [keyBlock_length byte hkey]
    decide
  have hinner := mvMD5Final_digest (mvMD5Update_holds
    (mvMD5Update_holds (@mvMD5Init_holds ⟨md5InitState, 0, 0, garbage⟩ hgarbage) (hblock 0x36))
    hlen)
  have houter := mvMD5Final_digest (mvMD5Update_holds
    (mvMD5Update_holds (mvMD5Init_holds hinner.2) (hblock 0x5c))
    (show (md5 (keyBlock 0x36 key ++ text)).length < 2 ^ 32 by simp [md5]))
  unfold mvHmacMd5
  simp only [overwrite_key_eq]
  rw [hinner.1]
  exact houter.1

end Mv88fxx81.Cesa
