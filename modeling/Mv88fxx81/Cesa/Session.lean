import Mv88fxx81.Cesa.Hmac
import Mv88fxx81.Cesa.Lru
import Mv88fxx81.Cesa.Types

/-!
# Sessions and their key material

The session database holds one security association for each session. The key
material of up to nine sessions is cached in the SRAM of the engine: a session
records its slot, and a slot the session it belongs to. This file embeds the
opening and closing of sessions and the loading of a slot.
-/

namespace Mv88fxx81.Cesa

open BlockHash

/-- `MV_CESA_OPEN_SESSION`. -/
structure OpenSession where
  cryptoKey : List UInt8
  macKey : List UInt8
  operation : UInt32
  direction : UInt32
  cryptoAlgorithm : UInt32
  cryptoMode : UInt32
  cryptoKeyLength : ℕ
  macMode : UInt32
  macKeyLength : ℕ
  digestSize : ℕ
  deriving DecidableEq

/-- The key material of a session: what `MV_CESA_CACHE_SA` holds besides the
session identifier. -/
structure KeyMaterial where
  cryptoKey : List UInt8
  macInnerIV : List UInt32
  macOuterIV : List UInt32
  deriving DecidableEq

/-- `MV_CESA_CACHE_SA`. -/
structure CacheSA where
  keys : KeyMaterial
  sid : ℤ
  deriving DecidableEq

/-- `MV_CESA_SA`. -/
structure SA where
  cacheSA : CacheSA
  config : UInt32
  cacheIdx : ℤ
  cryptoKeyLength : ℕ
  cryptoIvSize : ℕ
  cryptoBlockSize : ℕ
  digestSize : ℕ
  macKeyLength : ℕ
  valid : Bool
  ctrMode : Bool
  deriving DecidableEq

/-- Key material after a `memset` to zero. -/
def zeroKeys : KeyMaterial :=
  { cryptoKey := List.replicate 32 0
    macInnerIV := List.replicate 5 0
    macOuterIV := List.replicate 5 0 }

/-- An entry of the database after a `memset` to zero. -/
def zeroSA : SA :=
  { cacheSA := ⟨zeroKeys, 0⟩
    config := 0
    cacheIdx := 0
    cryptoKeyLength := 0
    cryptoIvSize := 0
    cryptoBlockSize := 0
    digestSize := 0
    macKeyLength := 0
    valid := false
    ctrMode := false }

/-- The functions a session is opened with that are not part of this file: the
computation of an AES decoding key, and the bytes on the stack under the hash
contexts. -/
structure OpenEnv where
  aesMakeKey : List UInt8 → ℕ → List UInt8
  garbage : List UInt8

/-- The session database, the key cache in the SRAM and its replacement order. -/
structure KeyStore where
  maxSA : ℕ
  sad : ℤ → SA
  cacheSA : ℤ → CacheSA
  lru : LruCache

/-- The session part of `mvCesaInit`, for a number of sessions that a `short` holds. -/
def keyStoreInit (numOfSession : ℕ) : KeyStore :=
  { maxSA := numOfSession
    sad := fun _ => zeroSA
    cacheSA := fun _ => ⟨zeroKeys, mvInvalid⟩
    lru := mvLruCacheInit maxCacheSA }

/-- The part of `mvCesaSessionOpen` that checks the authentication parameters.
The error carries the entry as the source leaves it with `MV_BAD_PARAM`. -/
def openAuth (env : OpenEnv) (session : OpenSession) (sa : SA) (config : UInt32) :
    Except SA (SA × UInt32) := do
  let hmac := session.macMode = macHmacMd5 ∨ session.macMode = macHmacSha1
  if hmac ∧ session.macKeyLength > 64 then throw sa
  let iv := mvCesaHmacIvGet env.garbage session.macMode (session.macKey.take session.macKeyLength)
  let keys := { sa.cacheSA.keys with macInnerIV := iv.1, macOuterIV := iv.2 }
  let sa := if hmac then
      { sa with cacheSA := { sa.cacheSA with keys }, macKeyLength := session.macKeyLength }
    else sa
  let digestSize ←
    if session.macMode = macMd5 ∨ session.macMode = macHmacMd5 then pure 16
    else if session.macMode = macSha1 ∨ session.macMode = macHmacSha1 then pure 20
    else throw sa
  let config := config ||| session.macMode <<< 4
  if session.digestSize ≠ digestSize ∧ session.digestSize ≠ 12 then throw sa
  let sa := { sa with digestSize := session.digestSize }
  return (sa, if session.digestSize = 12 then config ||| (1 : UInt32) <<< 7 else config)

/-- The part of `mvCesaSessionOpen` that checks the encryption parameters. -/
def openCrypto (env : OpenEnv) (session : OpenSession) (sa : SA) (config : UInt32) :
    Except SA (SA × UInt32) := do
  let (keyLength, blockSize, bits) ←
    if session.cryptoAlgorithm = cryptoDes then pure (8, 8, (0 : UInt32))
    else if session.cryptoAlgorithm = crypto3Des then pure (24, 8, (1 : UInt32) <<< 20)
    else if session.cryptoAlgorithm = cryptoAes then
      if session.cryptoKeyLength = 16 then pure (16, 16, (0 : UInt32) <<< 24)
      else if session.cryptoKeyLength = 24 then pure (24, 16, (1 : UInt32) <<< 24)
      else pure (32, 16, (2 : UInt32) <<< 24)
    else throw sa
  let sa := { sa with cryptoKeyLength := keyLength, cryptoBlockSize := blockSize }
  let config := config ||| bits ||| session.cryptoAlgorithm <<< 8
  if session.cryptoKeyLength ≠ keyLength then throw sa
  let cryptoKey :=
    if session.cryptoAlgorithm = cryptoAes ∧ session.direction = dirDecode then
      env.aesMakeKey session.cryptoKey (session.cryptoKeyLength * 8)
    else overwrite sa.cacheSA.keys.cryptoKey 0 (session.cryptoKey.take keyLength)
  let keys := { sa.cacheSA.keys with cryptoKey }
  let sa := { sa with cacheSA := { sa.cacheSA with keys } }
  if session.cryptoMode = cryptoEcb then return ({ sa with cryptoIvSize := 0 }, config)
  else if session.cryptoMode = cryptoCbc then
    return ({ sa with cryptoIvSize := blockSize }, config ||| cryptoCbc <<< 16)
  else if session.cryptoMode = cryptoCtr ∧ session.cryptoAlgorithm = cryptoAes then
    -- counter mode is replaced by ECB mode for the engine
    return ({ sa with cryptoIvSize := 0, ctrMode := true }, config ||| cryptoEcb <<< 16)
  else throw sa

/-- The entry that `mvCesaSessionOpen` fills for a session whose operation and
direction are in range, from the cleared entry on. -/
def openEntry (env : OpenEnv) (session : OpenSession) : Except SA SA := do
  let config := session.operation ||| session.direction <<< 12
  let (sa, config) ←
    if session.operation ≠ cryptoOnly then openAuth env session zeroSA config
    else pure (zeroSA, config)
  let (sa, config) ←
    if session.operation ≠ macOnly then openCrypto env session sa config
    else pure (sa, config)
  return { sa with config, valid := true, cacheIdx := mvInvalid }

/-- The loop that looks for a free entry of the database. -/
def KeyStore.freeSid (ks : KeyStore) : Option ℕ :=
  (List.range ks.maxSA).find? fun sid => !(ks.sad sid).valid

/-- Replace an entry of the database. -/
def KeyStore.setSA (ks : KeyStore) (sid : ℤ) (sa : SA) : KeyStore :=
  { ks with sad := Function.update ks.sad sid sa }

/-- `mvCesaSessionOpen`. The session identifier is meant only with `MV_OK`. -/
def mvCesaSessionOpen (env : OpenEnv) (session : OpenSession) (ks : KeyStore) :
    Status × ℕ × KeyStore :=
  match ks.freeSid with
  | none => (.full, 0, ks)
  | some sid =>
    if session.operation ≥ maxOperation then (.badParam, 0, ks)
    else if session.direction ≠ dirEncode ∧ session.direction ≠ dirDecode then (.badParam, 0, ks)
    else
      match openEntry env session with
      | .error sa => (.badParam, 0, ks.setSA sid sa)
      | .ok sa => (.ok, sid, ks.setSA sid sa)

/-- Give up a slot: it becomes the next one to be replaced and has no owner. -/
def KeyStore.clearSlot (ks : KeyStore) (i : ℤ) : KeyStore :=
  { ks with
    lru := mvCesaCacheIdxDelete ks.lru i
    cacheSA := Function.update ks.cacheSA i ⟨(ks.cacheSA i).keys, mvInvalid⟩ }

/-- `mvCesaSessionClose`, for an identifier that is not negative. -/
def mvCesaSessionClose (sid : ℕ) (ks : KeyStore) : Status × KeyStore :=
  if sid ≥ ks.maxSA then (.badParam, ks)
  else if !(ks.sad sid).valid then (.notFound, ks)
  else
    let cacheIdx := (ks.sad sid).cacheIdx
    let ks := if cacheIdx ≠ mvInvalid then ks.clearSlot cacheIdx else ks
    -- the entry keeps its slot number
    (.ok, ks.setSA sid { ks.sad sid with valid := false })

/-- The branch of `mvCesaCacheSramUpdate` for a session without a slot, with the
copy by the DMA engine done at once. The slot number is read again from the
entry after the entry of the old owner was changed. -/
def loadSlot (sid : ℤ) (ks : KeyStore) : KeyStore :=
  let found := mvCesaCacheIdxFind ks.lru
  let ks := ks.setSA sid { ks.sad sid with cacheIdx := found }
  let oldSid := (ks.cacheSA found).sid
  let ks := if oldSid ≠ mvInvalid then
      ks.setSA oldSid { ks.sad oldSid with cacheIdx := mvInvalid }
    else ks
  let ks := ks.setSA sid { ks.sad sid with cacheSA := { (ks.sad sid).cacheSA with sid } }
  { ks with cacheSA := Function.update ks.cacheSA (ks.sad sid).cacheIdx (ks.sad sid).cacheSA }

/-- `mvCesaCacheSramUpdate`. -/
def mvCesaCacheSramUpdate (sid : ℤ) (ks : KeyStore) : Status × KeyStore :=
  let load := (ks.sad sid).cacheIdx = mvInvalid
  let ks := if load then loadSlot sid ks else ks
  (if load then .ok else .noChange,
    { ks with lru := mvCesaCacheIdxUpdate ks.lru (ks.sad sid).cacheIdx })

/-- The authentication checks do not touch the `valid` flag. -/
theorem openAuth_valid {env : OpenEnv} {session : OpenSession} {sa : SA} {config : UInt32} :
    match openAuth env session sa config with
    | .error sa' => sa'.valid = sa.valid
    | .ok (sa', _) => sa'.valid = sa.valid := by
  simp only [openAuth, bind, Except.bind, pure, Except.pure, throw, throwThe, MonadExceptOf.throw]
  grind

/-- The encryption checks do not touch the `valid` flag. -/
theorem openCrypto_valid {env : OpenEnv} {session : OpenSession} {sa : SA} {config : UInt32} :
    match openCrypto env session sa config with
    | .error sa' => sa'.valid = sa.valid
    | .ok (sa', _) => sa'.valid = sa.valid := by
  simp only [openCrypto, bind, Except.bind, pure, Except.pure, throw, throwThe,
    MonadExceptOf.throw]
  grind

/-- A filled entry is valid and has no slot; one left behind by a failed check is
not valid. -/
theorem openEntry_valid {env : OpenEnv} {session : OpenSession} :
    match openEntry env session with
    | .error sa => sa.valid = false
    | .ok sa => sa.valid = true ∧ sa.cacheIdx = mvInvalid := by
  have hauth := @openAuth_valid env session
  have hcrypto := @openCrypto_valid env session
  have hzero : zeroSA.valid = false := rfl
  simp only [openEntry, bind, Except.bind, pure, Except.pure]
  grind

/-- A free entry is in the database and not valid. -/
theorem freeSid_some {ks : KeyStore} {sid : ℕ} (hfree : ks.freeSid = some sid) :
    sid < ks.maxSA ∧ (ks.sad sid).valid = false := by
  have hmem := List.mem_of_find?_eq_some hfree
  have hvalid := List.find?_some hfree
  exact ⟨List.mem_range.mp hmem, by simpa using hvalid⟩

@[simp] theorem setSA_maxSA (ks : KeyStore) (sid : ℤ) (sa : SA) :
    (ks.setSA sid sa).maxSA = ks.maxSA := rfl

@[simp] theorem setSA_cacheSA (ks : KeyStore) (sid : ℤ) (sa : SA) :
    (ks.setSA sid sa).cacheSA = ks.cacheSA := rfl

@[simp] theorem setSA_lru (ks : KeyStore) (sid : ℤ) (sa : SA) :
    (ks.setSA sid sa).lru = ks.lru := rfl

@[simp] theorem setSA_self (ks : KeyStore) (sid : ℤ) (sa : SA) :
    (ks.setSA sid sa).sad sid = sa := by
  simp [KeyStore.setSA]

theorem setSA_of_ne (ks : KeyStore) {sid other : ℤ} (sa : SA) (hne : other ≠ sid) :
    (ks.setSA sid sa).sad other = ks.sad other := by
  simp [KeyStore.setSA, Function.update_of_ne hne]

@[simp] theorem clearSlot_maxSA (ks : KeyStore) (i : ℤ) :
    (ks.clearSlot i).maxSA = ks.maxSA := rfl

@[simp] theorem clearSlot_sad (ks : KeyStore) (i : ℤ) : (ks.clearSlot i).sad = ks.sad := rfl

@[simp] theorem clearSlot_lru (ks : KeyStore) (i : ℤ) :
    (ks.clearSlot i).lru = mvCesaCacheIdxDelete ks.lru i := rfl

@[simp] theorem clearSlot_self (ks : KeyStore) (i : ℤ) :
    ((ks.clearSlot i).cacheSA i).sid = mvInvalid := by
  simp [KeyStore.clearSlot]

theorem clearSlot_of_ne (ks : KeyStore) {i j : ℤ} (hne : j ≠ i) :
    (ks.clearSlot i).cacheSA j = ks.cacheSA j := by
  simp [KeyStore.clearSlot, Function.update_of_ne hne]

/-- What a session is opened with: its entry without the slot number and the
identifier that are filled in when its slot is loaded. -/
def SA.association (sa : SA) : SA :=
  { sa with
    cacheIdx := mvInvalid
    cacheSA := { sa.cacheSA with sid := mvInvalid } }

/-- Changing the slot number of an entry keeps its association. -/
theorem setSA_cacheIdx_association (ks : KeyStore) (sid other : ℤ) (i : ℤ) :
    ((ks.setSA sid { ks.sad sid with cacheIdx := i }).sad other).association =
      (ks.sad other).association := by
  by_cases heq : other = sid
  · subst heq
    simp [SA.association]
  · rw [setSA_of_ne _ _ heq]

/-- Loading a slot keeps the association of every session. -/
theorem loadSlot_association (ks : KeyStore) (sid other : ℤ) :
    ((loadSlot sid ks).sad other).association = (ks.sad other).association := by
  unfold loadSlot
  dsimp only
  by_cases heq : other = sid
  · subst heq
    simp only [setSA_self]
    split
    · rw [← setSA_cacheIdx_association ks other other (mvCesaCacheIdxFind ks.lru),
        ← setSA_cacheIdx_association _ _ other mvInvalid]
      rfl
    · rw [← setSA_cacheIdx_association ks other other (mvCesaCacheIdxFind ks.lru)]
      rfl
  · rw [setSA_of_ne _ _ heq]
    split
    · rw [setSA_cacheIdx_association, setSA_cacheIdx_association]
    · rw [setSA_cacheIdx_association]

/-- Starting a request keeps the association of every session. -/
theorem mvCesaCacheSramUpdate_association (ks : KeyStore) (sid other : ℤ) :
    (((mvCesaCacheSramUpdate sid ks).2).sad other).association = (ks.sad other).association := by
  unfold mvCesaCacheSramUpdate
  dsimp only
  split
  · exact loadSlot_association ks sid other
  · rfl

/-- Opening a session either changes nothing or refills a free entry: with a valid
one without a slot if it succeeds, with an invalid one if it fails. -/
theorem mvCesaSessionOpen_cases (env : OpenEnv) (session : OpenSession) (ks : KeyStore) :
    ((mvCesaSessionOpen env session ks).1 ≠ .ok ∧ (mvCesaSessionOpen env session ks).2.2 = ks) ∨
      ∃ sid sa, ks.freeSid = some sid ∧
        (mvCesaSessionOpen env session ks).2.2 = ks.setSA sid sa ∧
        (((mvCesaSessionOpen env session ks).1 = .ok ∧
            (mvCesaSessionOpen env session ks).2.1 = sid ∧
            sa.valid = true ∧ sa.cacheIdx = mvInvalid) ∨
          ((mvCesaSessionOpen env session ks).1 = .badParam ∧ sa.valid = false)) := by
  have hentry := @openEntry_valid env session
  unfold mvCesaSessionOpen
  cases hfree : ks.freeSid with
  | none => exact Or.inl ⟨by simp, rfl⟩
  | some sid =>
    dsimp only
    split
    · exact Or.inl ⟨by simp, rfl⟩
    · split
      · exact Or.inl ⟨by simp, rfl⟩
      · cases hopen : openEntry env session with
        | error sa =>
          rw [hopen] at hentry
          exact Or.inr ⟨sid, sa, rfl, rfl, Or.inr ⟨rfl, hentry⟩⟩
        | ok sa =>
          rw [hopen] at hentry
          exact Or.inr ⟨sid, sa, rfl, rfl, Or.inl ⟨rfl, rfl, hentry⟩⟩

end Mv88fxx81.Cesa
