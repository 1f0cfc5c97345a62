import Mv88fxx81.Cesa.Words
import Mv88fxx81.Lib.BlockHash

/-!
# SHA-1

The SHA-1 code of the hardware abstraction layer. The block transform works on a
copy of the block as sixteen words that it extends in place; the finishing
function pads by updating the context byte by byte.
-/

namespace Mv88fxx81.Cesa

open BlockHash

/-- `state[5]` of `MV_SHA1_CTX`, the chaining value. -/
structure Sha1State where
  a : UInt32
  b : UInt32
  c : UInt32
  d : UInt32
  e : UInt32
  deriving DecidableEq

/-- `MV_SHA1_CTX`. -/
structure Sha1Context where
  state : Sha1State
  count0 : UInt32
  count1 : UInt32
  buffer : List UInt8
  deriving DecidableEq

/-- `rol`. -/
def rol (value bits : UInt32) : UInt32 := value <<< bits ||| value >>> (32 - bits)

/-- `blk0(i)`: the word `i` of the block in big-endian order, stored back. -/
def blk0 (block : List UInt32) (i : ℕ) : UInt32 × List UInt32 :=
  let l := block.getD i 0
  let w := rol l 24 &&& 0xff00ff00 ||| rol l 8 &&& 0x00ff00ff
  (w, block.set i w)

/-- `blk(i)`: the next word of the schedule, stored over the oldest one. -/
def blk (block : List UInt32) (i : ℕ) : UInt32 × List UInt32 :=
  let w := rol (block.getD ((i + 13) % 16) 0 ^^^ block.getD ((i + 8) % 16) 0 ^^^
    block.getD ((i + 2) % 16) 0 ^^^ block.getD (i % 16) 0) 1
  (w, block.set (i % 16) w)

/-- The function of three words and the constant of step `i`: the parts in which
`R0` to `R4` differ. -/
def sha1Mix (i : ℕ) (w x y : UInt32) : UInt32 × UInt32 :=
  if i < 20 then ((w &&& (x ^^^ y)) ^^^ y, 0x5a827999)
  else if i < 40 then (w ^^^ x ^^^ y, 0x6ed9eba1)
  else if i < 60 then ((w ||| x) &&& y ||| w &&& x, 0x8f1bbcdc)
  else (w ^^^ x ^^^ y, 0xca62c1d6)

/-- One of the macros `R0` (steps below 16), `R1` (below 20), `R2`, `R3` and `R4`.
The source rotates the names of the five variables from one step to the next;
here the values are rotated. -/
def sha1Step (s : Sha1State × List UInt32) (i : ℕ) : Sha1State × List UInt32 :=
  let (v, block) := s
  let (word, block) := if i < 16 then blk0 block i else blk block i
  let (mixed, constant) := sha1Mix i v.b v.c v.d
  let z := v.e + (mixed + word + constant + rol v.a 5)
  (⟨z, v.a, rol v.b 30, v.c, v.d⟩, block)

/-- `mvSHA1Transform`, on the block as it lies in memory. -/
def mvSHA1Transform (state : Sha1State) (buffer : List UInt8) : Sha1State :=
  let s := ((List.range 80).foldl sha1Step (state, loadWords buffer)).1
  ⟨state.a + s.a, state.b + s.b, state.c + s.c, state.d + s.d, state.e + s.e⟩

/-- The initial chaining value. -/
def sha1InitState : Sha1State := ⟨0x67452301, 0xefcdab89, 0x98badcfe, 0x10325476, 0xc3d2e1f0⟩

/-- `mvSHA1Init`: the block buffer is left as it is. -/
def mvSHA1Init (ctx : Sha1Context) : Sha1Context :=
  { ctx with
    state := sha1InitState
    count0 := 0
    count1 := 0 }

/-- The loop of `mvSHA1Update` over whole blocks; it yields the bytes not hashed. -/
def sha1Chunks (state : Sha1State) (data : List UInt8) : Sha1State × List UInt8 :=
  if 64 ≤ data.length then sha1Chunks (mvSHA1Transform state (data.take 64)) (data.drop 64)
  else (state, data)
  termination_by data.length
  decreasing_by
    simp only [List.length_drop]
    omega

/-- `mvSHA1Update`, for lengths whose sum with 63 fits a word. -/
def mvSHA1Update (ctx : Sha1Context) (data : List UInt8) : Sha1Context :=
  let len := UInt32.ofNat data.length
  let j := ((ctx.count0 >>> 3) &&& 63).toNat
  let count0 := ctx.count0 + len <<< 3
  let count1 := (if count0 < len <<< 3 then ctx.count1 + 1 else ctx.count1) + len >>> 29
  if 63 < j + data.length then
    let buffer := overwrite ctx.buffer j (data.take (64 - j))
    let hashed := sha1Chunks (mvSHA1Transform ctx.state buffer) (data.drop (64 - j))
    { state := hashed.1
      count0
      count1
      buffer := overwrite buffer 0 hashed.2 }
  else
    { ctx with
      count0
      count1
      buffer := overwrite ctx.buffer j data }

/-- The bytes of a word from the most significant one on. -/
def bigEndian (w : UInt32) : List UInt8 :=
  [(w >>> 24).toUInt8, (w >>> 16).toUInt8, (w >>> 8).toUInt8, w.toUInt8]

/-- The loop of `mvSHA1Final` that pads with zero bytes. It makes fewer than 64
turns, so that much fuel lets it end. -/
def sha1PadLoop : ℕ → Sha1Context → Sha1Context
  | 0, ctx => ctx
  | fuel + 1, ctx =>
    if ctx.count0 &&& 504 ≠ 448 then sha1PadLoop fuel (mvSHA1Update ctx [0]) else ctx

/-- The bytes of the digest for a chaining value. -/
def sha1Digest (s : Sha1State) : List UInt8 :=
  bigEndian s.a ++ bigEndian s.b ++ bigEndian s.c ++ bigEndian s.d ++ bigEndian s.e

/-- `mvSHA1Final`. The context is wiped and its state then overwritten by a
transform of the zero block. -/
def mvSHA1Final (ctx : Sha1Context) : List UInt8 × Sha1Context :=
  let finalcount := bigEndian ctx.count1 ++ bigEndian ctx.count0
  let ctx := sha1PadLoop 64 (mvSHA1Update ctx [0x80])
  let ctx := mvSHA1Update ctx finalcount
  let zeros := List.replicate 64 0
  (sha1Digest ctx.state,
    { state := mvSHA1Transform ⟨0, 0, 0, 0, 0⟩ zeros
      count0 := 0
      count1 := 0
      buffer := zeros })

/-- `mvSHA1`, in a context whose block buffer holds `garbage`. -/
def mvSHA1 (garbage : List UInt8) (data : List UInt8) : List UInt8 :=
  (mvSHA1Final (mvSHA1Update (mvSHA1Init ⟨sha1InitState, 0, 0, garbage⟩) data)).1

/-- The bit length as it is stored in the last eight bytes of the padding. -/
def sha1Length (bits : ℕ) : List UInt8 :=
  bigEndian (UInt32.ofNat (bits / 2 ^ 32)) ++ bigEndian (UInt32.ofNat bits)

/-- The SHA-1 hash: the standard padding under the transform of the code. -/
def sha1 (message : List UInt8) : List UInt8 :=
  sha1Digest (finish mvSHA1Transform sha1Length sha1InitState 0 message)

/-- A context that stands for `done` bytes hashed elsewhere to the chaining value
`s₀` and the bytes `data` hashed after them. -/
structure Sha1Context.Holds (ctx : Sha1Context) (s₀ : Sha1State) (done : ℕ) (data : List UInt8) :
    Prop where
  whole : 64 ∣ done
  count : ctx.count0.toNat + 2 ^ 32 * ctx.count1.toNat = 8 * (done + data.length) % 2 ^ 64
  stream : BlockHash.Holds mvSHA1Transform s₀ data ctx.state ctx.buffer

/-- The block loop absorbs the whole blocks and leaves the rest. -/
theorem sha1Chunks_eq (state : Sha1State) (data : List UInt8) :
    sha1Chunks state data = (absorb mvSHA1Transform state data, rest data) := by
  induction state, data using sha1Chunks.induct with
  | case1 state data hlong ih =>
    have hblock : 64 ∣ (data.take 64).length := by
      rw [List.length_take]
      omega
    have hrest : rest data = rest (data.drop 64) := by
      conv_lhs => rw [← List.take_append_drop 64 data, rest_append_of_dvd hblock]
    rw [sha1Chunks, if_pos hlong, ih, absorb_of_le hlong, hrest]
  | case2 state data hshort =>
    have hlt : data.length < 64 := by omega
    rw [sha1Chunks, if_neg hshort, absorb_of_lt hlt, rest_of_lt hlt]

/-- The two-word counter of the SHA-1 code adds eight bits a byte, carry included. -/
theorem sha1Count_add {count0 count1 : UInt32} {n len : ℕ} (hlen : len < 2 ^ 32)
    (hcount : count0.toNat + 2 ^ 32 * count1.toNat = 8 * n % 2 ^ 64) :
    (count0 + UInt32.ofNat len <<< 3).toNat + 2 ^ 32 *
        ((if count0 + UInt32.ofNat len <<< 3 < UInt32.ofNat len <<< 3 then count1 + 1
          else count1) + UInt32.ofNat len >>> 29).toNat = 8 * (n + len) % 2 ^ 64 := by
  have hlow := lowBits_add count0 hlen
  have hhigh := highBits_of len hlen
  have hadd : (UInt32.ofNat len <<< 3).toNat = 8 * len % 2 ^ 32 := by
    have := lowBits_add 0 hlen
    simpa using this
  have h0 := count0.toNat_lt
  have h1 := count1.toNat_lt
  by_cases hcarry : count0 + UInt32.ofNat len <<< 3 < UInt32.ofNat len <<< 3
  · rw [if_pos hcarry]
    rw [UInt32.lt_iff_toNat_lt, hlow, hadd] at hcarry
    rw [hlow, UInt32.toNat_add, UInt32.toNat_add, hhigh]
    simp only [UInt32.reduceToNat]
    omega
  · rw [if_neg hcarry]
    rw [UInt32.lt_iff_toNat_lt, hlow, hadd] at hcarry
    rw [hlow, UInt32.toNat_add, hhigh]
    omega

/-- A fresh context holds no data. -/
theorem mvSHA1Init_holds {ctx : Sha1Context} (hsize : ctx.buffer.length = 64) :
    (mvSHA1Init ctx).Holds sha1InitState 0 [] :=
  { whole := by simp
    count := by simp [mvSHA1Init]
    stream := BlockHash.Holds.start hsize }

/-- Updating a context appends to the data it holds. -/
theorem mvSHA1Update_holds {ctx : Sha1Context} {s₀ : Sha1State} {done : ℕ}
    {data more : List UInt8} (hholds : ctx.Holds s₀ done data) (hlen : more.length < 2 ^ 32) :
    (mvSHA1Update ctx more).Holds s₀ done (data ++ more) := by
  obtain ⟨hwhole, hcount, hstream⟩ := hholds
  have hpending := pendingBytes_eq hwhole hcount
  have hadded := sha1Count_add hlen hcount
  rw [Nat.add_assoc, ← List.length_append] at hadded
  unfold mvSHA1Update
  simp only [hpending, sha1Chunks_eq]
  split
  next hlong =>
    have hhead : data.length % 64 + (more.take (64 - data.length % 64)).length = 64 := by
      rw [List.length_take]
      omega
    have hbuffer : (overwrite ctx.buffer (data.length % 64)
        (more.take (64 - data.length % 64))).length = 64 := by
      rw [overwrite_length (by rw [hstream.size]; omega), hstream.size]
    have hcomplete := hstream.complete hhead hbuffer
    have hlength : (data ++ more.take (64 - data.length % 64)).length % 64 = 0 := by
      rw [List.length_append]
      omega
    have hchunks := hcomplete.chunks hlength (more.drop (64 - data.length % 64))
    rw [List.append_assoc, List.take_append_drop] at hchunks
    exact ⟨hwhole, hadded, hchunks⟩
  next hshort => exact ⟨hwhole, hadded, hstream.fill (by omega)⟩

/-- Masking the low word of the count keeps eight times the bytes in the last block. -/
theorem count_and_504 (x : UInt32) : x &&& (504 : UInt32) =
    ((x >>> 3) &&& 63) <<< (3 : UInt32) := by
  apply UInt32.toBitVec_inj.mp
  apply BitVec.eq_of_getLsbD_eq
  intro i hi
  simp only [UInt32.toBitVec_and, UInt32.toBitVec_shiftLeft, UInt32.toBitVec_shiftRight]
  interval_cases i <;> simp

/-- The test of the padding loop reads the bytes in the last block. -/
theorem padTest_iff {ctx : Sha1Context} {s₀ : Sha1State} {done : ℕ} {data : List UInt8}
    (hholds : ctx.Holds s₀ done data) : ctx.count0 &&& 504 = 448 ↔ data.length % 64 = 56 := by
  have hpending := pendingBytes_eq hholds.whole hholds.count
  rw [← hpending, count_and_504]
  generalize hbytes : (ctx.count0 >>> 3) &&& 63 = bytes at hpending
  have hlt : bytes.toNat < 64 := by omega
  have hshift : (bytes <<< 3).toNat = 8 * bytes.toNat := by
    rw [UInt32.toNat_shiftLeft]
    simp only [UInt32.reduceToNat, Nat.shiftLeft_eq, Nat.reduceMod, Nat.reducePow]
    omega
  rw [← UInt32.toNat_inj, hshift]
  simp only [UInt32.reduceToNat]
  omega

/-- The padding loop ends, eight bytes before a block boundary. -/
theorem sha1PadLoop_holds {fuel : ℕ} {ctx : Sha1Context} {s₀ : Sha1State} {done : ℕ}
    {data : List UInt8} (hholds : ctx.Holds s₀ done data)
    (hfuel : (120 - data.length % 64) % 64 < fuel) :
    (sha1PadLoop fuel ctx).Holds s₀ done
      (data ++ List.replicate ((120 - data.length % 64) % 64) 0) := by
  induction fuel generalizing ctx data with
  | zero => omega
  | succ fuel ih =>
    rw [sha1PadLoop]
    by_cases hdone : data.length % 64 = 56
    · rw [if_neg (by simpa using (padTest_iff hholds).mpr hdone), hdone]
      simpa using hholds
    · rw [if_pos (by simpa [padTest_iff hholds] using hdone)]
      have hone := mvSHA1Update_holds hholds (show [(0 : UInt8)].length < 2 ^ 32 by decide)
      have hleft : (120 - data.length % 64) % 64 =
          (120 - (data ++ [0]).length % 64) % 64 + 1 := by
        rw [List.length_append, List.length_singleton]
        omega
      have hnext := ih hone (by omega)
      rw [hleft, List.replicate_succ]
      simpa using hnext

@[simp] theorem bigEndian_length (w : UInt32) : (bigEndian w).length = 4 := rfl

/-- The two counter words store the bit length of the padding. -/
theorem finalcount_eq {count0 count1 : UInt32} {bits : ℕ}
    (hcount : count0.toNat + 2 ^ 32 * count1.toNat = bits % 2 ^ 64) :
    bigEndian count1 ++ bigEndian count0 = sha1Length bits := by
  have h0 : count0 = UInt32.ofNat bits := by
    apply UInt32.toNat_inj.mp
    rw [UInt32.toNat_ofNat']
    have := count0.toNat_lt
    omega
  have h1 : count1 = UInt32.ofNat (bits / 2 ^ 32) := by
    apply UInt32.toNat_inj.mp
    rw [UInt32.toNat_ofNat']
    have := count1.toNat_lt
    have := count0.toNat_lt
    omega
  rw [sha1Length, ← h0, ← h1]

/-- Finishing a context gives the digest of the padded data. -/
theorem mvSHA1Final_digest {ctx : Sha1Context} {s₀ : Sha1State} {done : ℕ} {data : List UInt8}
    (hholds : ctx.Holds s₀ done data) :
    (mvSHA1Final ctx).1 = sha1Digest (finish mvSHA1Transform sha1Length s₀ done data) := by
  have hmarked := mvSHA1Update_holds hholds (show [(0x80 : UInt8)].length < 2 ^ 32 by decide)
  have hpadded := @sha1PadLoop_holds 64 _ _ _ _ hmarked (by omega)
  have hzeros : (120 - (data ++ [0x80]).length % 64) % 64 =
    (119 - (done + data.length) % 64) % 64 := by
    obtain ⟨k, hk⟩ := hholds.whole
    rw [List.length_append, List.length_singleton]
    omega
  have hfinal := mvSHA1Update_holds hpadded
    (show (sha1Length (8 * (done + data.length))).length < 2 ^ 32 by simp [sha1Length])
  unfold mvSHA1Final
  simp only [finalcount_eq hholds.count]
  rw [hfinal.stream.state, hzeros, finish, padding]
  simp

/-- `mvSHA1` is the SHA-1 hash, whatever the context held before. -/
theorem mvSHA1_eq_sha1 {garbage message : List UInt8} (hgarbage : garbage.length = 64)
    (hlen : message.length < 2 ^ 32) : mvSHA1 garbage message = sha1 message :=
  mvSHA1Final_digest (mvSHA1Update_holds
    (@mvSHA1Init_holds ⟨sha1InitState, 0, 0, garbage⟩ hgarbage) hlen)

end Mv88fxx81.Cesa
