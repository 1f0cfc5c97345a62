import Mathlib.Data.Int.Notation
import Mathlib.Data.Nat.Notation

/-!
# Codes and configuration words

Status codes of the driver, the enumerations of a session and the fields of the
configuration word, the first word of the descriptor the engine reads.
-/

namespace Mv88fxx81.Cesa

/-- The values of `MV_STATUS` that the driver returns. -/
inductive Status
  | ok
  | fail
  | badParam
  | notFound
  | noChange
  | noMore
  | noResource
  | full
  | empty
  | busy
  | notReady
  | terminate
  | notAligned
  | notAllowed
  | outOfCpuMem
  | outOfRange
  | badSize
  deriving DecidableEq, Repr

/-- `MV_INVALID`: the slot or session identifier that stands for none. -/
def mvInvalid : ℤ := -1

/-- `MV_CESA_MAX_BUF_SIZE`: the bytes of one channel buffer, `sizeof(buf[0])`. -/
def maxBufSize : ℕ := 1600

/-- `sizeof(buf)`: the bytes of the buffers of both channels. -/
def bothBufSize : ℕ := 3200

/-- `MV_CESA_MAX_CACHE_SA`: the slots of the key cache. -/
def maxCacheSA : ℕ := 9

/-- `MV_CESA_MAC_ONLY`. -/
def macOnly : UInt32 := 0

/-- `MV_CESA_CRYPTO_ONLY`. -/
def cryptoOnly : UInt32 := 1

/-- `MV_CESA_MAC_THEN_CRYPTO`. -/
def macThenCrypto : UInt32 := 2

/-- `MV_CESA_CRYPTO_THEN_MAC`. -/
def cryptoThenMac : UInt32 := 3

/-- `MV_CESA_MAX_OPERATION`. -/
def maxOperation : UInt32 := 4

/-- `MV_CESA_MAC_MD5`. -/
def macMd5 : UInt32 := 4

/-- `MV_CESA_MAC_SHA1`. -/
def macSha1 : UInt32 := 5

/-- `MV_CESA_MAC_HMAC_MD5`. -/
def macHmacMd5 : UInt32 := 6

/-- `MV_CESA_MAC_HMAC_SHA1`. -/
def macHmacSha1 : UInt32 := 7

/-- `MV_CESA_CRYPTO_DES`. -/
def cryptoDes : UInt32 := 1

/-- `MV_CESA_CRYPTO_3DES`. -/
def crypto3Des : UInt32 := 2

/-- `MV_CESA_CRYPTO_AES`. -/
def cryptoAes : UInt32 := 3

/-- `MV_CESA_DIR_ENCODE`. -/
def dirEncode : UInt32 := 0

/-- `MV_CESA_DIR_DECODE`. -/
def dirDecode : UInt32 := 1

/-- `MV_CESA_CRYPTO_ECB`. -/
def cryptoEcb : UInt32 := 0

/-- `MV_CESA_CRYPTO_CBC`. -/
def cryptoCbc : UInt32 := 1

/-- `MV_CESA_CRYPTO_CTR`, a mode of the software only. -/
def cryptoCtr : UInt32 := 10

/-- `config & MV_CESA_OPERATION_MASK`. -/
def operationOf (config : UInt32) : UInt32 := config &&& 0x3

/-- `(config & MV_CESA_MAC_MODE_MASK) >> MV_CESA_MAC_MODE_OFFSET`. -/
def macModeOf (config : UInt32) : UInt32 := (config &&& 0x70) >>> 4

/-- `(config & MV_CESA_DIRECTION_MASK) >> MV_CESA_DIRECTION_BIT`. -/
def directionOf (config : UInt32) : UInt32 := (config &&& 0x1000) >>> 12

/-- `(config & MV_CESA_CRYPTO_MODE_MASK) >> MV_CESA_CRYPTO_MODE_BIT`. -/
def cryptoModeOf (config : UInt32) : UInt32 := (config &&& 0x10000) >>> 16

end Mv88fxx81.Cesa
