import Mathlib.Data.Int.Order.Basic
import Mv88fxx81.Cesa.Session

/-!
# Commands and their checks

A command names a source and a destination buffer, a session and the ranges of
the data to be encrypted and authenticated. This file embeds the checks that a
command has to pass, the choice of the size of a fragment, and the descriptor
that tells the engine what to do.
-/

namespace Mv88fxx81.Cesa

/-- `MV_CESA_MBUF`, by its address and its size. -/
structure Mbuf where
  ptr : ℕ
  mbufSize : UInt16
  deriving DecidableEq

/-- `MV_CESA_COMMAND`, with the buffers its pointers lead to. -/
structure Command where
  pReqPrv : ℕ
  src : Mbuf
  dst : Mbuf
  sessionId : UInt16
  ivFromUser : UInt16
  ivOffset : UInt16
  cryptoOffset : UInt16
  cryptoLength : UInt16
  digestOffset : UInt16
  macOffset : UInt16
  macLength : UInt16
  deriving DecidableEq

/-- The session of a command as an index of the database. -/
def Command.sid (cmd : Command) : ℕ := cmd.sessionId.toNat

/-- The size of the source data. -/
def Command.size (cmd : Command) : ℕ := cmd.src.mbufSize.toNat

/-- A command that needs the buffers of both channels. -/
def Command.Large (cmd : Command) : Prop := maxBufSize < cmd.size

instance (cmd : Command) : Decidable cmd.Large := inferInstanceAs (Decidable (_ < _))

/-- `MV_IS_NOT_ALIGN`, for a power of two or zero. -/
def isNotAlign (number : ℤ) (align : ℕ) : Prop := number % align ≠ 0

instance (number : ℤ) (align : ℕ) : Decidable (isNotAlign number align) :=
  inferInstanceAs (Decidable (_ ≠ _))

/-- `MV_ALIGN_DOWN`, for a power of two or zero. -/
def alignDown (number : ℤ) (align : ℕ) : ℤ := number - number % align

/-- The authentication part of `mvCesaParamCheck`: the alignment that all offsets
must share, or `none` for `MV_BAD_PARAM`. -/
def paramCheckAuth (cmd : Command) : Option ℕ :=
  if isNotAlign cmd.macOffset.toNat 4 then none
  else if isNotAlign cmd.digestOffset.toNat 4 then none
  else
    let fixOffset := cmd.macOffset.toNat % 8
    if cmd.digestOffset.toNat % 8 ≠ fixOffset then none else some fixOffset

/-- The encryption part of `mvCesaParamCheck`, with the alignment found before. -/
def paramCheckCrypto (sa : SA) (cmd : Command) (fixOffset : Option ℕ) : Status :=
  let cryptoOffset := cmd.cryptoOffset.toNat
  let ivOffset := cmd.ivOffset.toNat
  if isNotAlign cryptoOffset 4 then .badParam
  else if isNotAlign cmd.cryptoLength.toNat sa.cryptoBlockSize then .badParam
  else
    let fixOffset' := fixOffset.getD (cryptoOffset % 8)
    if cryptoOffset % 8 ≠ fixOffset' then .badParam
    else if sa.cryptoIvSize > 0 then
      if ivOffset + sa.cryptoIvSize > cryptoOffset ∧
          ivOffset < cryptoOffset + cmd.cryptoLength.toNat then .badParam
      else if isNotAlign ivOffset 4 then .badParam
      else if ivOffset % 8 ≠ fixOffset' then .badParam
      else .ok
    else .ok

/-- `mvCesaParamCheck`. The alignment it computes is not stored through
`pFixOffset`. -/
def mvCesaParamCheck (sa : SA) (cmd : Command) : Status :=
  if operationOf sa.config ≠ cryptoOnly then
    match paramCheckAuth cmd with
    | none => .badParam
    | some fixOffset =>
      if operationOf sa.config ≠ macOnly then paramCheckCrypto sa cmd (some fixOffset) else .ok
  else paramCheckCrypto sa cmd none

/-- The authentication part of `mvCesaFragParamCheck`. -/
def fragParamCheckAuth (cmd : Command) : Status :=
  let macEnd := cmd.macOffset.toNat + cmd.macLength.toNat
  if cmd.macOffset.toNat > bothBufSize - 64 then .badParam
  else if macEnd > cmd.size ∨ cmd.size - macEnd ≥ bothBufSize then .badParam
  else .ok

/-- The encryption part of `mvCesaFragParamCheck`. -/
def fragParamCheckCrypto (sa : SA) (cmd : Command) : Status :=
  let cryptoEnd := cmd.cryptoOffset.toNat + cmd.cryptoLength.toNat
  if cmd.cryptoOffset.toNat + 4 > bothBufSize - sa.cryptoBlockSize then .badParam
  else if cryptoEnd > cmd.size ∨ cmd.size - cryptoEnd ≥ bothBufSize - sa.cryptoBlockSize then
    .badParam
  else .ok

/-- The part of `mvCesaFragParamCheck` for operations with both encryption and
authentication. -/
def fragParamCheckBoth (is5182 : Bool) (sa : SA) (cmd : Command) : Status :=
  let distance := (cmd.cryptoOffset.toNat : ℤ) - cmd.macOffset.toNat
  let digestOffset := cmd.digestOffset.toNat
  if cmd.macLength.toNat ≥ 2 ^ 14 then .notAllowed
  else if is5182 then .notAllowed
  else if isNotAlign |distance| sa.cryptoBlockSize then .notAllowed
  else if digestOffset + sa.digestSize > cmd.cryptoOffset.toNat ∧
      digestOffset < cmd.cryptoOffset.toNat + cmd.cryptoLength.toNat then .notAllowed
  else .ok

/-- `mvCesaFragParamCheck`, on the device model 5182 or another one. -/
def mvCesaFragParamCheck (is5182 : Bool) (sa : SA) (cmd : Command) : Status :=
  let operation := operationOf sa.config
  let auth := if operation ≠ cryptoOnly then fragParamCheckAuth cmd else .ok
  if auth ≠ .ok then auth
  else
    let crypto := if operation ≠ macOnly then fragParamCheckCrypto sa cmd else .ok
    if crypto ≠ .ok then crypto
    else if operation ≠ cryptoOnly ∧ operation ≠ macOnly then fragParamCheckBoth is5182 sa cmd
    else .ok

/-- `MV_CESA_FRAGS`: the progress of the fragmented request. -/
structure Frags where
  sid : ℤ
  bufOffset : ℤ
  cryptoSize : ℤ
  macSize : ℤ
  newDigestOffset : ℤ
  deriving DecidableEq

/-- The sizes that `mvCesaFragSizeFind` stores: of the copy, of the data to be
encrypted and of the data to be authenticated. -/
structure FragSizes where
  copySize : ℤ
  cryptoDataSize : ℤ
  macDataSize : ℤ
  deriving DecidableEq

/-- `mvCesaFragSizeFind`. -/
def mvCesaFragSizeFind (frags : Frags) (sa : SA) (cmd : Command) (cryptoOffset macOffset : ℤ)
    (copySize : ℤ) : FragSizes :=
  let crypto : FragSizes :=
    if operationOf sa.config ≠ macOnly then
      let size := min (copySize - cryptoOffset) (cmd.cryptoLength.toNat - (frags.cryptoSize + 1))
      if isNotAlign size sa.cryptoBlockSize then
        let size := alignDown size sa.cryptoBlockSize
        ⟨cryptoOffset + size, size, 0⟩
      else ⟨copySize, size, 0⟩
    else ⟨copySize, 0, 0⟩
  if operationOf sa.config ≠ cryptoOnly then
    let size := min (crypto.copySize - macOffset) (cmd.macLength.toNat - (frags.macSize + 1))
    let mac : FragSizes :=
      if isNotAlign size 64 then
        let size := alignDown size 64
        ⟨macOffset + size, 0, size⟩
      else ⟨crypto.copySize, 0, size⟩
    { mac with cryptoDataSize := mac.copySize - cryptoOffset }
  else crypto

/-- `MV_CESA_DESC`. -/
structure Desc where
  config : UInt32
  cryptoSrcOffset : UInt16
  cryptoDstOffset : UInt16
  cryptoDataLen : UInt16
  cryptoKeyOffset : UInt16
  cryptoIvOffset : UInt16
  cryptoIvBufOffset : UInt16
  macSrcOffset : UInt16
  macTotalLen : UInt16
  macDigestOffset : UInt16
  macDataLen : UInt16
  macInnerIvOffset : UInt16
  macOuterIvOffset : UInt16
  deriving DecidableEq

/-- The offset of a channel's buffer in the SRAM. -/
def sramBufOffset (chan : Fin 2) : ℤ := maxBufSize * chan.val

/-- The offset of a channel's IV in the SRAM. -/
def sramCryptoIV (chan : Fin 2) : ℤ := 3264 + 16 * chan.val

/-- The offset of the place for an IV outside of the first fragment, of channel 0. -/
def sramTempCryptoIV : ℤ := 3296

/-- The offset of the place for a digest outside of the fragment, of channel 0. -/
def sramTempDigest : ℤ := 3328

/-- The offset of a slot of the key cache in the SRAM. -/
def sramCacheSA (cacheIdx : ℤ) : ℤ := 3376 + 80 * cacheIdx

/-- The offsets and lengths handed to `mvCesaSramDescrBuild`. -/
structure DescRanges where
  cryptoOffset : ℤ
  ivOffset : ℤ
  cryptoLength : ℤ
  macOffset : ℤ
  digestOffset : ℤ
  macLength : ℤ
  macTotalLen : ℤ
  deriving DecidableEq

/-- `mvCesaSramDescrBuild`: the words of the parts of the operation are written,
the other ones keep what they were. -/
def mvCesaSramDescrBuild (desc : Desc) (chan : Fin 2) (cacheIdx : ℤ) (config : UInt32)
    (r : DescRanges) : Desc :=
  let base := sramBufOffset chan
  let desc := { desc with config }
  let desc := if operationOf config ≠ macOnly then
      { desc with
        cryptoSrcOffset := UInt16.ofInt (base + r.cryptoOffset)
        cryptoDstOffset := UInt16.ofInt (base + r.cryptoOffset)
        cryptoDataLen := UInt16.ofInt r.cryptoLength
        cryptoKeyOffset := UInt16.ofInt (sramCacheSA cacheIdx)
        cryptoIvOffset := UInt16.ofInt (sramCryptoIV chan)
        cryptoIvBufOffset := UInt16.ofInt (base + r.ivOffset) }
    else desc
  if operationOf config ≠ cryptoOnly then
    { desc with
      macSrcOffset := UInt16.ofInt (base + r.macOffset)
      macTotalLen := UInt16.ofInt r.macTotalLen
      macDigestOffset := UInt16.ofInt (base + r.digestOffset)
      macDataLen := UInt16.ofInt r.macLength
      macInnerIvOffset := UInt16.ofInt (sramCacheSA cacheIdx + 32)
      macOuterIvOffset := UInt16.ofInt (sramCacheSA cacheIdx + 56) }
  else desc

end Mv88fxx81.Cesa
