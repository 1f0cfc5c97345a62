import Mv88fxx81.Cesa.Mbuf
import Mv88fxx81.Cesa.Md5
import Mv88fxx81.Cesa.Sha1
import Mv88fxx81.Cesa.Types

/-!
# Message authentication

When a session is opened, the software hashes the two key blocks and stores the
chaining values, in the byte order of the engine, as inner and outer initial
values. The engine continues from the inner value over whole blocks of the
message. Where it cannot finish the message, the software reads the chaining
value back from the engine and completes the hash over the tail of the data.
-/

namespace Mv88fxx81.Cesa

open BlockHash

/-- The arrays `inner` and `outer` of `mvCesaHmacIvGet`. -/
def hmacKeyArray (byte : UInt8) (key : List UInt8) : List UInt8 :=
  key.map (byte ^^^ ·) ++ List.replicate (64 - key.length) byte

/-- A chaining value as words in memory. -/
def Md5State.words (s : Md5State) : List UInt32 := [s.a, s.b, s.c, s.d]

/-- A chaining value as words in memory. -/
def Sha1State.words (s : Sha1State) : List UInt32 := [s.a, s.b, s.c, s.d, s.e]

/-- `mvCesaHmacIvGet`: the words of `macInnerIV` and `macOuterIV`, which are zero
before. The contexts are on the stack and hold `garbage` before their use. -/
def mvCesaHmacIvGet (garbage : List UInt8) (macMode : UInt32) (key : List UInt8) :
    List UInt32 × List UInt32 :=
  let inner := hmacKeyArray 0x36 key
  let outer := hmacKeyArray 0x5c key
  if macMode = macHmacMd5 then
    let hashed := fun block =>
      (mvMD5Update (mvMD5Init ⟨md5InitState, 0, 0, garbage⟩) block).buf.words.map byteSwap
    (hashed inner ++ [0], hashed outer ++ [0])
  else if macMode = macHmacSha1 then
    let hashed := fun block =>
      (mvSHA1Update (mvSHA1Init ⟨sha1InitState, 0, 0, garbage⟩) block).state.words.map byteSwap
    (hashed inner, hashed outer)
  else ([0, 0, 0, 0, 0], [0, 0, 0, 0, 0])

/-- The chaining value that stored initial value words stand for. -/
def md5FromIv (iv : List UInt32) : Md5State :=
  ⟨byteSwap (iv.getD 0 0), byteSwap (iv.getD 1 0), byteSwap (iv.getD 2 0), byteSwap (iv.getD 3 0)⟩

/-- The chaining value that stored initial value words stand for. -/
def sha1FromIv (iv : List UInt32) : Sha1State :=
  ⟨byteSwap (iv.getD 0 0), byteSwap (iv.getD 1 0), byteSwap (iv.getD 2 0), byteSwap (iv.getD 3 0),
    byteSwap (iv.getD 4 0)⟩

/-- The bit count with which the completion functions enter the hash. -/
def completedBits (outerIV : Option (List UInt32)) (macLeftSize macTotalSize : ℕ) : UInt32 :=
  let bits := (UInt32.ofNat macTotalSize - UInt32.ofNat macLeftSize) * 8
  if outerIV.isSome then bits + 64 * 8 else bits

/-- `mvCesaFragMd5Complete`, for the digest registers `regs` of the engine. The
result is `none` where the digest is not written or data outside of the
fragments is read. -/
def mvCesaFragMd5Complete (regs : Md5State) (frags : List (List UInt8)) (offset : ℕ)
    (outerIV : Option (List UInt32)) (macLeftSize macTotalSize : ℕ) : Option (List UInt8) :=
  let ctx : Md5Context :=
    { buf := regs
      bits0 := completedBits outerIV macLeftSize macTotalSize
      bits1 := 0
      input := List.replicate 64 0 }
  match updateTail mvMD5Update ctx frags offset macLeftSize with
  | none => none
  | some ctx =>
    let inner := mvMD5Final ctx
    match outerIV with
    | none => some inner.1
    | some iv =>
      let ctx : Md5Context :=
        { buf := md5FromIv iv
          bits0 := 64 * 8
          bits1 := 0
          input := List.replicate 64 0 }
      some (mvMD5Final (mvMD5Update ctx inner.1)).1

/-- `mvCesaFragSha1Complete`, for the digest registers `regs` of the engine. -/
def mvCesaFragSha1Complete (regs : Sha1State) (frags : List (List UInt8)) (offset : ℕ)
    (outerIV : Option (List UInt32)) (macLeftSize macTotalSize : ℕ) : Option (List UInt8) :=
  let ctx : Sha1Context :=
    { state := regs
      count0 := completedBits outerIV macLeftSize macTotalSize
      count1 := 0
      buffer := List.replicate 64 0 }
  match updateTail mvSHA1Update ctx frags offset macLeftSize with
  | none => none
  | some ctx =>
    let inner := mvSHA1Final ctx
    match outerIV with
    | none => some inner.1
    | some iv =>
      let ctx : Sha1Context :=
        { state := sha1FromIv iv
          count0 := 64 * 8
          count1 := 0
          buffer := List.replicate 64 0 }
      some (mvSHA1Final (mvSHA1Update ctx inner.1)).1

/-- The key arrays of the software are the key blocks of the construction. -/
theorem hmacKeyArray_eq (byte : UInt8) (key : List UInt8) :
    hmacKeyArray byte key = keyBlock byte key := by
  simp [hmacKeyArray, keyBlock]

/-- The MD5 initial values stand for the chaining values after the key blocks. -/
theorem mvCesaHmacIvGet_md5 {garbage key : List UInt8} (hgarbage : garbage.length = 64)
    (hkey : key.length ≤ 64) :
    md5FromIv (mvCesaHmacIvGet garbage macHmacMd5 key).1 =
        absorb md5Compress md5InitState (keyBlock 0x36 key) ∧
      md5FromIv (mvCesaHmacIvGet garbage macHmacMd5 key).2 =
        absorb md5Compress md5InitState (keyBlock 0x5c key) := by
  have hhashed : ∀ byte, (mvMD5Update (mvMD5Init ⟨md5InitState, 0, 0, garbage⟩)
      (keyBlock byte key)).buf = absorb md5Compress md5InitState (keyBlock byte key) := by
    intro byte
    have hlen : (keyBlock byte key).length < 2 ^ 32 := by
      rw [keyBlock_length byte hkey]
      decide
    have hholds := mvMD5Update_holds
      (@mvMD5Init_holds ⟨md5InitState, 0, 0, garbage⟩ hgarbage) hlen
    exact hholds.stream.state
  simp only [mvCesaHmacIvGet, if_true, hmacKeyArray_eq, hhashed]
  simp [md5FromIv, Md5State.words]

/-- The SHA-1 initial values stand for the chaining values after the key blocks. -/
theorem mvCesaHmacIvGet_sha1 {garbage key : List UInt8} (hgarbage : garbage.length = 64)
    (hkey : key.length ≤ 64) :
    sha1FromIv (mvCesaHmacIvGet garbage macHmacSha1 key).1 =
        absorb mvSHA1Transform sha1InitState (keyBlock 0x36 key) ∧
      sha1FromIv (mvCesaHmacIvGet garbage macHmacSha1 key).2 =
        absorb mvSHA1Transform sha1InitState (keyBlock 0x5c key) := by
  have hhashed : ∀ byte, (mvSHA1Update (mvSHA1Init ⟨sha1InitState, 0, 0, garbage⟩)
      (keyBlock byte key)).state = absorb mvSHA1Transform sha1InitState (keyBlock byte key) := by
    intro byte
    have hlen : (keyBlock byte key).length < 2 ^ 32 := by
      rw [keyBlock_length byte hkey]
      decide
    have hholds := mvSHA1Update_holds
      (@mvSHA1Init_holds ⟨sha1InitState, 0, 0, garbage⟩ hgarbage) hlen
    exact hholds.stream.state
  have hmode : macHmacSha1 ≠ macHmacMd5 := by decide
  simp only [mvCesaHmacIvGet, if_neg hmode, if_true, hmacKeyArray_eq, hhashed]
  simp [sha1FromIv, Sha1State.words]

/-- The pieces of a string are not longer than the string. -/
theorem forall_mem_length_lt {pieces : List (List UInt8)} {n : ℕ}
    (hlen : pieces.flatten.length < n) : ∀ piece ∈ pieces, piece.length < n := by
  intro piece hmem
  have hle := (List.sublist_flatten_of_mem hmem).length_le
  omega

section Pieces

variable {γ σ : Type*} {update : γ → List UInt8 → γ} {Holds : γ → σ → ℕ → List UInt8 → Prop}
  {ctx : γ} {s₀ : σ} {done : ℕ}

/-- Updating a context piece by piece appends all the pieces. -/
theorem update_pieces {data : List UInt8} {pieces : List (List UInt8)}
    (hupdate : ∀ {ctx s₀ done data piece}, Holds ctx s₀ done data → piece.length < 2 ^ 32 →
      Holds (update ctx piece) s₀ done (data ++ piece))
    (hholds : Holds ctx s₀ done data) (hlen : ∀ piece ∈ pieces, piece.length < 2 ^ 32) :
    Holds (pieces.foldl update ctx) s₀ done (data ++ pieces.flatten) := by
  induction pieces generalizing ctx data with
  | nil => simpa using hholds
  | cons piece pieces ih =>
    obtain ⟨hpiece, hrest⟩ := List.forall_mem_cons.1 hlen
    have hnext := ih (hupdate hholds hpiece) hrest
    rwa [List.append_assoc, ← List.flatten_cons] at hnext

/-- Updating a context with the tail of a multi-buffer. -/
theorem updateTail_holds {frags : List (List UInt8)} {offset left : ℕ}
    (hupdate : ∀ {ctx s₀ done data piece}, Holds ctx s₀ done data → piece.length < 2 ^ 32 →
      Holds (update ctx piece) s₀ done (data ++ piece))
    (hholds : Holds ctx s₀ done []) (hrange : offset + left ≤ frags.flatten.length)
    (hlength : left < 2 ^ 32) :
    ∃ ctx', updateTail update ctx frags offset left = some ctx' ∧
      Holds ctx' s₀ done ((frags.flatten.drop offset).take left) := by
  obtain ⟨pieces, htail, hpieces⟩ := updateTail_spec ctx hrange
  have hlen : pieces.flatten.length < 2 ^ 32 := by
    rw [hpieces, List.length_take]
    omega
  refine ⟨_, htail, ?_⟩
  rw [← hpieces, ← List.nil_append pieces.flatten]
  exact update_pieces hupdate hholds (forall_mem_length_lt hlen)

end Pieces

/-- The bytes that the entry count of a completion stands for: the hardware part
and, for a keyed hash, the inner key block. -/
def enteredBytes (outerIV : Option (List UInt32)) (hwLength : ℕ) : ℕ :=
  if outerIV.isSome then 64 + hwLength else hwLength

/-- The entry count is exact as long as it fits one word. -/
theorem completedBits_toNat (outerIV : Option (List UInt32)) {hwLength left : ℕ}
    (hlength : 8 * (hwLength + left + 64) < 2 ^ 32) :
    (completedBits outerIV left (hwLength + left)).toNat = 8 * enteredBytes outerIV hwLength := by
  have hbits : ((UInt32.ofNat (hwLength + left) - UInt32.ofNat left) * 8).toNat = 8 * hwLength := by
    rw [UInt32.toNat_mul, UInt32.toNat_sub, UInt32.toNat_ofNat', UInt32.toNat_ofNat']
    simp only [UInt32.reduceToNat]
    omega
  unfold completedBits enteredBytes
  split
  · rw [UInt32.toNat_add, hbits]
    simp only [UInt32.reduceToNat, UInt32.reduceMul]
    omega
  · exact hbits

theorem enteredBytes_dvd {outerIV : Option (List UInt32)} {hwLength : ℕ} (hwhole : 64 ∣ hwLength) :
    64 ∣ enteredBytes outerIV hwLength := by
  unfold enteredBytes
  split <;> omega

/-- A MD5 context entered after whole blocks holds no data yet. -/
theorem Md5Context.Holds.entered {n : ℕ} {s : Md5State} {bits : UInt32} (hwhole : 64 ∣ n)
    (hbits : bits.toNat = 8 * n) :
    Md5Context.Holds
      { buf := s
        bits0 := bits
        bits1 := 0
        input := List.replicate 64 0 } s n [] :=
  { whole := hwhole
    bits := by
      have hlt := bits.toNat_lt
      simp only [UInt32.reduceToNat, List.length_nil]
      omega
    stream := BlockHash.Holds.start (by simp) }

/-- A SHA-1 context entered after whole blocks holds no data yet. -/
theorem Sha1Context.Holds.entered {n : ℕ} {s : Sha1State} {bits : UInt32} (hwhole : 64 ∣ n)
    (hbits : bits.toNat = 8 * n) :
    Sha1Context.Holds
      { state := s
        count0 := bits
        count1 := 0
        buffer := List.replicate 64 0 } s n [] :=
  { whole := hwhole
    count := by
      have hlt := bits.toNat_lt
      simp only [UInt32.reduceToNat, List.length_nil]
      omega
    stream := BlockHash.Holds.start (by simp) }

section Completion

variable {frags : List (List UInt8)} {offset left hwLength : ℕ}

/-- The inner part of the MD5 completion finishes the hash that the engine began. -/
theorem md5Complete_inner (regs : Md5State) (outerIV : Option (List UInt32))
    (hwhole : 64 ∣ hwLength) (hrange : offset + left ≤ frags.flatten.length)
    (hlength : 8 * (hwLength + left + 64) < 2 ^ 32) :
    ∃ ctx, updateTail mvMD5Update
        { buf := regs
          bits0 := completedBits outerIV left (hwLength + left)
          bits1 := 0
          input := List.replicate 64 0 } frags offset left = some ctx ∧
      (mvMD5Final ctx).1 = md5Digest (finish md5Compress md5Length regs
        (enteredBytes outerIV hwLength) ((frags.flatten.drop offset).take left)) := by
  have hentry := @Md5Context.Holds.entered (enteredBytes outerIV hwLength) regs _
    (enteredBytes_dvd hwhole) (completedBits_toNat outerIV hlength)
  obtain ⟨ctx, htail, hholds⟩ := updateTail_holds mvMD5Update_holds hentry hrange (by omega)
  exact ⟨ctx, htail, (mvMD5Final_digest hholds).1⟩

/-- The inner part of the SHA-1 completion finishes the hash that the engine began. -/
theorem sha1Complete_inner (regs : Sha1State) (outerIV : Option (List UInt32))
    (hwhole : 64 ∣ hwLength) (hrange : offset + left ≤ frags.flatten.length)
    (hlength : 8 * (hwLength + left + 64) < 2 ^ 32) :
    ∃ ctx, updateTail mvSHA1Update
        { state := regs
          count0 := completedBits outerIV left (hwLength + left)
          count1 := 0
          buffer := List.replicate 64 0 } frags offset left = some ctx ∧
      (mvSHA1Final ctx).1 = sha1Digest (finish mvSHA1Transform sha1Length regs
        (enteredBytes outerIV hwLength) ((frags.flatten.drop offset).take left)) := by
  have hentry := @Sha1Context.Holds.entered (enteredBytes outerIV hwLength) regs _
    (enteredBytes_dvd hwhole) (completedBits_toNat outerIV hlength)
  obtain ⟨ctx, htail, hholds⟩ := updateTail_holds mvSHA1Update_holds hentry hrange (by omega)
  exact ⟨ctx, htail, mvSHA1Final_digest hholds⟩

end Completion

/-- The outer part of the MD5 completion hashes the inner digest after a key block. -/
theorem md5Complete_outer {s : Md5State} {block digest : List UInt8} (hblock : block.length = 64)
    (hs : s = absorb md5Compress md5InitState block) (hdigest : digest.length < 2 ^ 32) :
    (mvMD5Final (mvMD5Update
      { buf := s
        bits0 := 64 * 8
        bits1 := 0
        input := List.replicate 64 0 } digest)).1 = md5 (block ++ digest) := by
  have hentry := @Md5Context.Holds.entered 64 s (64 * 8) (by simp) (by simp)
  rw [(mvMD5Final_digest (mvMD5Update_holds hentry hdigest)).1, List.nil_append, hs, md5,
    ← finish_absorb md5Compress (by simp [hblock]), hblock]

/-- The outer part of the SHA-1 completion hashes the inner digest after a key block. -/
theorem sha1Complete_outer {s : Sha1State} {block digest : List UInt8}
    (hblock : block.length = 64) (hs : s = absorb mvSHA1Transform sha1InitState block)
    (hdigest : digest.length < 2 ^ 32) :
    (mvSHA1Final (mvSHA1Update
      { state := s
        count0 := 64 * 8
        count1 := 0
        buffer := List.replicate 64 0 } digest)).1 = sha1 (block ++ digest) := by
  have hentry := @Sha1Context.Holds.entered 64 s (64 * 8) (by simp) (by simp)
  rw [mvSHA1Final_digest (mvSHA1Update_holds hentry hdigest), List.nil_append, hs, sha1,
    ← finish_absorb mvSHA1Transform (by simp [hblock]), hblock]

section Message

variable {key hw : List UInt8} {frags : List (List UInt8)} {offset left : ℕ}

/-- Completing a keyed MD5 hash that the engine began gives the keyed hash of the
whole message. -/
theorem mvCesaFragMd5Complete_hmac {innerIV outerIV : List UInt32} (hkey : key.length ≤ 64)
    (hinner : md5FromIv innerIV = absorb md5Compress md5InitState (keyBlock 0x36 key))
    (houter : md5FromIv outerIV = absorb md5Compress md5InitState (keyBlock 0x5c key))
    (hwhole : 64 ∣ hw.length) (hrange : offset + left ≤ frags.flatten.length)
    (hlength : 8 * (hw.length + left + 64) < 2 ^ 32) :
    mvCesaFragMd5Complete (absorb md5Compress (md5FromIv innerIV) hw) frags offset (some outerIV)
        left (hw.length + left) =
      some (hmac md5 key (hw ++ (frags.flatten.drop offset).take left)) := by
  obtain ⟨ctx, htail, hdigest⟩ := md5Complete_inner
    (absorb md5Compress (md5FromIv innerIV) hw) (some outerIV) hwhole hrange hlength
  have hhead : 64 ∣ (keyBlock 0x36 key).length := by rw [keyBlock_length _ hkey]
  have hinnerDigest : (mvMD5Final ctx).1 =
      md5 (keyBlock 0x36 key ++ (hw ++ (frags.flatten.drop offset).take left)) := by
    rw [hdigest, md5, ← finish_absorb md5Compress hhead, ← hinner,
      ← finish_absorb md5Compress hwhole, keyBlock_length _ hkey]
    rfl
  simp only [mvCesaFragMd5Complete, htail]
  rw [hinnerDigest, md5Complete_outer (keyBlock_length 0x5c hkey) houter (by simp [md5])]
  rfl

/-- Completing a plain MD5 hash that the engine began gives the hash of the whole
message. -/
theorem mvCesaFragMd5Complete_md5 (hwhole : 64 ∣ hw.length)
    (hrange : offset + left ≤ frags.flatten.length)
    (hlength : 8 * (hw.length + left + 64) < 2 ^ 32) :
    mvCesaFragMd5Complete (absorb md5Compress md5InitState hw) frags offset none
        left (hw.length + left) =
      some (md5 (hw ++ (frags.flatten.drop offset).take left)) := by
  obtain ⟨ctx, htail, hdigest⟩ := md5Complete_inner
    (absorb md5Compress md5InitState hw) none hwhole hrange hlength
  simp only [mvCesaFragMd5Complete, htail]
  rw [hdigest, md5, ← finish_absorb md5Compress hwhole, Nat.zero_add]
  rfl

/-- Completing a keyed SHA-1 hash that the engine began gives the keyed hash of
the whole message. -/
theorem mvCesaFragSha1Complete_hmac {innerIV outerIV : List UInt32} (hkey : key.length ≤ 64)
    (hinner : sha1FromIv innerIV = absorb mvSHA1Transform sha1InitState (keyBlock 0x36 key))
    (houter : sha1FromIv outerIV = absorb mvSHA1Transform sha1InitState (keyBlock 0x5c key))
    (hwhole : 64 ∣ hw.length) (hrange : offset + left ≤ frags.flatten.length)
    (hlength : 8 * (hw.length + left + 64) < 2 ^ 32) :
    mvCesaFragSha1Complete (absorb mvSHA1Transform (sha1FromIv innerIV) hw) frags offset
        (some outerIV) left (hw.length + left) =
      some (hmac sha1 key (hw ++ (frags.flatten.drop offset).take left)) := by
  obtain ⟨ctx, htail, hdigest⟩ := sha1Complete_inner
    (absorb mvSHA1Transform (sha1FromIv innerIV) hw) (some outerIV) hwhole hrange hlength
  have hhead : 64 ∣ (keyBlock 0x36 key).length := by rw [keyBlock_length _ hkey]
  have hinnerDigest : (mvSHA1Final ctx).1 =
      sha1 (keyBlock 0x36 key ++ (hw ++ (frags.flatten.drop offset).take left)) := by
    rw [hdigest, sha1, ← finish_absorb mvSHA1Transform hhead, ← hinner,
      ← finish_absorb mvSHA1Transform hwhole, keyBlock_length _ hkey]
    rfl
  have hshort : (sha1 (keyBlock 0x36 key ++ (hw ++ (frags.flatten.drop offset).take left))).length
      < 2 ^ 32 := by
    simp [sha1, sha1Digest]
  simp only [mvCesaFragSha1Complete, htail]
  rw [hinnerDigest, sha1Complete_outer (keyBlock_length 0x5c hkey) houter hshort]
  rfl

/-- Completing a plain SHA-1 hash that the engine began gives the hash of the
whole message. -/
theorem mvCesaFragSha1Complete_sha1 (hwhole : 64 ∣ hw.length)
    (hrange : offset + left ≤ frags.flatten.length)
    (hlength : 8 * (hw.length + left + 64) < 2 ^ 32) :
    mvCesaFragSha1Complete (absorb mvSHA1Transform sha1InitState hw) frags offset none
        left (hw.length + left) =
      some (sha1 (hw ++ (frags.flatten.drop offset).take left)) := by
  obtain ⟨ctx, htail, hdigest⟩ := sha1Complete_inner
    (absorb mvSHA1Transform sha1InitState hw) none hwhole hrange hlength
  simp only [mvCesaFragSha1Complete, htail]
  rw [hdigest, sha1, ← finish_absorb mvSHA1Transform hwhole, Nat.zero_add]
  rfl

/-- Completion in software. The engine starts from the inner initial value of the
session, or from the standard one for a plain hash, and compresses a part `hw` of
whole blocks; the software completes over the `left` bytes at `offset` of a
multi-buffer. The digest is that of the message made of both parts: for MD5 the
one of `mvHmacMd5`, for SHA-1 the keyed construction, and the plain hash when
there is no outer initial value. The count of the message fits the word the
software enters it in. -/
theorem fragComplete_eq_reference {garbage : List UInt8} (hgarbage : garbage.length = 64)
    (hkey : key.length ≤ 64) (hwhole : 64 ∣ hw.length)
    (hrange : offset + left ≤ frags.flatten.length)
    (hlength : 8 * (hw.length + left + 64) < 2 ^ 32) :
    let message := hw ++ (frags.flatten.drop offset).take left
    let md5Iv := mvCesaHmacIvGet garbage macHmacMd5 key
    let sha1Iv := mvCesaHmacIvGet garbage macHmacSha1 key
    (mvCesaFragMd5Complete (absorb md5Compress (md5FromIv md5Iv.1) hw) frags offset
          (some md5Iv.2) left (hw.length + left) = some (mvHmacMd5 garbage message key) ∧
        mvHmacMd5 garbage message key = hmac md5 key message) ∧
      mvCesaFragSha1Complete (absorb mvSHA1Transform (sha1FromIv sha1Iv.1) hw) frags offset
          (some sha1Iv.2) left (hw.length + left) = some (hmac sha1 key message) ∧
      mvCesaFragMd5Complete (absorb md5Compress md5InitState hw) frags offset none
          left (hw.length + left) = some (md5 message) ∧
      mvCesaFragSha1Complete (absorb mvSHA1Transform sha1InitState hw) frags offset none
          left (hw.length + left) = some (sha1 message) := by
  intro message md5Iv sha1Iv
  obtain ⟨hmd5Inner, hmd5Outer⟩ := mvCesaHmacIvGet_md5 hgarbage hkey
  obtain ⟨hsha1Inner, hsha1Outer⟩ := mvCesaHmacIvGet_sha1 hgarbage hkey
  have hmessage : message.length < 2 ^ 32 := by
    rw [List.length_append, List.length_take]
    omega
  have hreference := mvHmacMd5_eq_hmac hgarbage hkey hmessage
  refine ⟨⟨?_, hreference⟩, ?_, ?_, ?_⟩
  · rw [hreference]
    exact mvCesaFragMd5Complete_hmac hkey hmd5Inner hmd5Outer hwhole hrange hlength
  · exact mvCesaFragSha1Complete_hmac hkey hsha1Inner hsha1Outer hwhole hrange hlength
  · exact mvCesaFragMd5Complete_md5 hwhole hrange hlength
  · exact mvCesaFragSha1Complete_sha1 hwhole hrange hlength

end Message

/-- Completion of a message of one block hashed by the engine and three bytes in
two fragments, with MD5 and with SHA-1, keyed and plain. -/
theorem fragComplete_three_bytes :
    let blocks := List.replicate 64 (7 : UInt8)
    let message := blocks ++ [8, 7, 6]
    let md5Iv := mvCesaHmacIvGet (List.replicate 64 0) macHmacMd5 [1, 2, 3]
    let sha1Iv := mvCesaHmacIvGet (List.replicate 64 0) macHmacSha1 [1, 2, 3]
    mvCesaFragMd5Complete (absorb md5Compress (md5FromIv md5Iv.1) blocks) [[9, 8], [], [7, 6]] 1
        (some md5Iv.2) 3 67 = some (mvHmacMd5 (List.replicate 64 0) message [1, 2, 3]) ∧
      mvCesaFragSha1Complete (absorb mvSHA1Transform (sha1FromIv sha1Iv.1) blocks)
        [[9, 8], [], [7, 6]] 1 (some sha1Iv.2) 3 67 = some (hmac sha1 [1, 2, 3] message) ∧
      mvCesaFragMd5Complete (absorb md5Compress md5InitState blocks) [[9, 8], [], [7, 6]] 1 none
        3 67 = some (md5 message) ∧
      mvCesaFragSha1Complete (absorb mvSHA1Transform sha1InitState blocks) [[9, 8], [], [7, 6]] 1
        none 3 67 = some (sha1 message) := by
  obtain ⟨⟨hmd5, -⟩, hsha1, hplainMd5, hplainSha1⟩ :=
    @fragComplete_eq_reference [1, 2, 3] (List.replicate 64 7) [[9, 8], [], [7, 6]] 1 3
      (List.replicate 64 0) rfl (by decide) ⟨1, rfl⟩ (by decide) (by decide)
  exact ⟨hmd5, hsha1, hplainMd5, hplainSha1⟩

end Mv88fxx81.Cesa
