import Mathlib.Algebra.Group.Nat.Defs
import Mv88fxx81.Lib.NorMemory

/-!
# The NOR flash driver

The flash is written in words of the bus width. A block is cut into 32-bit words at
aligned offsets, and single bytes before and behind them, which are merged with
the other bytes of their word. A flash with a write buffer takes the middle of a
block in whole buffers.

The device programs by clearing bits. It may fail to complete a program command,
and it may refuse a buffer that is not in the sector of the command; it reports
both, and then changes nothing.
-/

namespace Mv88fxx81.Flash

open NorMemory

/-- `MV_FLASH_SECTOR`. -/
structure FlashSector where
  baseOffs : ℕ
  size : ℕ
  protect : Bool
  deriving DecidableEq, Repr

/-- The vendors of the supported devices. -/
inductive FlashVendor
  | intel
  | amd
  | stm
  | sst
  deriving DecidableEq, Repr

/-- `MV_FLASH_INFO`. Widths and lengths are in bytes. -/
structure FlashInfo where
  flashVen : FlashVendor
  sectorNum : ℕ
  hwBuffLen : ℕ
  sector : ℕ → FlashSector
  busWidth : ℕ
  devWidth : ℕ

/-- How the device answers. -/
structure FlashDevice where
  /-- The device completes the program command at an offset. -/
  completes : ℕ → Bool
  /-- The device takes a buffer at an offset with a command for a sector. -/
  takes : ℕ → ℕ → Bool

/-- `MV_STATUS`, as far as it is used. -/
inductive Status
  | ok
  | badParam
  | fail
  | timeout
  deriving DecidableEq, Repr

/-- `FLASH_BAD_SEC_NUM`. -/
def flashBadSecNum : ℕ := 0xFFFFFFFF

/-- `MV_BYTE_SWAP_16BIT`. -/
def byteSwap16 (x : BitVec 16) : BitVec 16 := ((x &&& 0xff) <<< 8) ||| ((x &&& 0xff00) >>> 8)

/-- `MV_BYTE_SWAP_32BIT`. -/
def byteSwap32 (x : BitVec 32) : BitVec 32 :=
  ((x &&& 0xff) <<< 24) ||| ((x &&& 0xff00) <<< 8) ||| ((x &&& 0xff0000) >>> 8) |||
    ((x &&& 0xff000000) >>> 24)

/-- The bytes of a word in the order of their addresses, on a little-endian CPU. -/
def leBytes16 (x : BitVec 16) : List (BitVec 8) := [x.extractLsb' 0 8, x.extractLsb' 8 8]

def leBytes32 (x : BitVec 32) : List (BitVec 8) :=
  [x.extractLsb' 0 8, x.extractLsb' 8 8, x.extractLsb' 16 8, x.extractLsb' 24 8]

/-- The word that the loops over four bytes of a block assemble. -/
def assemble32 (b₀ b₁ b₂ b₃ : BitVec 8) : BitVec 32 :=
  (b₀.setWidth 32 <<< 24) ||| (b₁.setWidth 32 <<< 16) ||| (b₂.setWidth 32 <<< 8) |||
    b₃.setWidth 32

/-- The word that the loop over two bytes of a block assembles. -/
def assemble16 (b₀ b₁ : BitVec 8) : BitVec 16 := (b₀.setWidth 16 <<< 8) ||| b₁.setWidth 16

namespace FlashInfo

variable (info : FlashInfo)

/-- `mvFlashInWhichSec`. -/
def mvFlashInWhichSec (offset : ℕ) : ℕ :=
  ((List.range info.sectorNum).find? fun secNum =>
    (info.sector secNum).baseOffs ≤ offset ∧
      offset < (info.sector secNum).baseOffs + (info.sector secNum).size).getD flashBadSecNum

/-- `mvFlashSecLockGet`. -/
def mvFlashSecLockGet (secNum : ℕ) : Bool :=
  if secNum > info.sectorNum then false else (info.sector secNum).protect

/-- `mvFlashSecOffsGet`. -/
def mvFlashSecOffsGet (secNum : ℕ) : ℕ :=
  if secNum > info.sectorNum then 0 else (info.sector secNum).baseOffs

/-- `mvFlashSecSizeGet`. -/
def mvFlashSecSizeGet (secNum : ℕ) : ℕ :=
  if secNum > info.sectorNum then 0 else (info.sector secNum).size

/-- `mvFlashNumOfDevGet`. -/
def mvFlashNumOfDevGet : ℕ :=
  if info.busWidth ≥ info.devWidth then info.busWidth / info.devWidth else 1

/-- `flashGetHwBuffSize`. -/
def flashGetHwBuffSize : ℕ :=
  match info.flashVen with
  | .intel => info.mvFlashNumOfDevGet * info.hwBuffLen
  | .amd | .stm | .sst => 0

end FlashInfo

/-- `mvFlash8Rd`. -/
def mvFlash8Rd (mem : ℕ → BitVec 8) (offset : ℕ) : BitVec 8 := mem offset

/-- `mvFlash32Rd`. -/
def mvFlash32Rd (mem : ℕ → BitVec 8) (offset : ℕ) : BitVec 32 :=
  byteSwap32 (mem (offset + 3) ++ mem (offset + 2) ++ mem (offset + 1) ++ mem offset)

/-- The loop of `mvFlashBlockRd`, from `i` on. -/
def blockRdLoop (mem : ℕ → BitVec 8) (offset blockSize : ℕ) : ℕ → ℕ → List (BitVec 8)
  | 0, _ => []
  | fuel + 1, i =>
    if i < blockSize then
      if (offset + i) % 4 ≠ 0 ∨ blockSize - i < 4 then
        mvFlash8Rd mem (offset + i) :: blockRdLoop mem offset blockSize fuel (i + 1)
      else
        let temp := mvFlash32Rd mem (offset + i)
        [(temp >>> 24).setWidth 8, (temp >>> 16).setWidth 8, (temp >>> 8).setWidth 8,
          temp.setWidth 8] ++ blockRdLoop mem offset blockSize fuel (i + 4)
    else []

/-- `mvFlashBlockRd`. -/
def mvFlashBlockRd (mem : ℕ → BitVec 8) (offset blockSize : ℕ) : List (BitVec 8) :=
  blockRdLoop mem offset blockSize blockSize 0

section Writes

variable (dev : FlashDevice) (info : FlashInfo)

/-- The bytes that a word of the bus puts in the flash. -/
def busBytes (data : BitVec 32) : List (BitVec 8) :=
  if info.busWidth = 1 then [data.setWidth 8]
  else if info.busWidth = 2 then leBytes16 (data.setWidth 16)
  else if info.busWidth = 4 then leBytes32 data
  else []

/-- `mvFlashProg`. -/
def mvFlashProg (mem : ℕ → BitVec 8) (offset : ℕ) (data : BitVec 32) :
    Status × (ℕ → BitVec 8) :=
  if dev.completes offset then (.ok, program mem offset (busBytes info data)) else (.timeout, mem)

/-- The loop of `mvFlash32Wr` for a bus of 16 bits. -/
def progHalfWords (offset : ℕ) (data : BitVec 32) :
    List ℕ → (ℕ → BitVec 8) → Status × (ℕ → BitVec 8)
  | [], mem => (.ok, mem)
  | i :: is, mem =>
    let temp := byteSwap16 ((data >>> (16 * (1 - i))).setWidth 16)
    let (status, mem) := mvFlashProg dev info mem (offset + i * 2) (temp.setWidth 32)
    if status ≠ .ok then (.fail, mem) else progHalfWords offset data is mem

/-- The loop of `mvFlash32Wr` for a bus of 8 bits. It goes on after a failure. -/
def progBytes (offset : ℕ) (data : BitVec 32) :
    List ℕ → Status → (ℕ → BitVec 8) → Status × (ℕ → BitVec 8)
  | [], status, mem => (status, mem)
  | i :: is, status, mem =>
    let temp := (data >>> (8 * (3 - i))) &&& 0xff
    let (progStatus, mem) := mvFlashProg dev info mem (offset + i) temp
    progBytes offset data is (if progStatus ≠ .ok then .fail else status) mem

/-- `mvFlash32Wr`. -/
def mvFlash32Wr (mem : ℕ → BitVec 8) (offset : ℕ) (data : BitVec 32) :
    Status × (ℕ → BitVec 8) :=
  if offset % 4 ≠ 0 then (.badParam, mem)
  else
    let secNum := info.mvFlashInWhichSec offset
    if secNum ≥ info.sectorNum then (.badParam, mem)
    else if info.mvFlashSecLockGet secNum then (.fail, mem)
    else if mvFlash32Rd mem offset &&& data ≠ data then (.fail, mem)
    else if info.busWidth = 4 then mvFlashProg dev info mem offset (byteSwap32 data)
    else if info.busWidth = 2 then progHalfWords dev info offset data [0, 1] mem
    else if info.busWidth = 1 then progBytes dev info offset data [0, 1, 2, 3] .ok mem
    else (.fail, mem)

/-- `mvFlash8Wr`. -/
def mvFlash8Wr (mem : ℕ → BitVec 8) (offset : ℕ) (cdata : BitVec 8) : Status × (ℕ → BitVec 8) :=
  let shiftCdata := (3 - offset % 4) * 8
  let temp := mvFlash32Rd mem (offset - offset % 4)
  let temp := temp &&& (temp &&& ~~~((0xff : BitVec 32) <<< shiftCdata))
  let temp := temp ||| (cdata.setWidth 32 <<< shiftCdata)
  mvFlash32Wr dev info mem (offset - offset % 4) temp

/-- The loop of `mvFlashBlockUnbufWr`, from `i` on. -/
def unbufWrLoop (offset : ℕ) (block : List (BitVec 8)) :
    ℕ → ℕ → (ℕ → BitVec 8) → ℕ × (ℕ → BitVec 8)
  | 0, i, mem => (i, mem)
  | fuel + 1, i, mem =>
    if i < block.length then
      if (offset + i) % 4 ≠ 0 ∨ block.length - i < 4 then
        let (status, mem) := mvFlash8Wr dev info mem (offset + i) (block.getD i 0)
        if status ≠ .ok then (i, mem) else unbufWrLoop offset block fuel (i + 1) mem
      else
        let temp := assemble32 (block.getD i 0) (block.getD (i + 1) 0) (block.getD (i + 2) 0)
          (block.getD (i + 3) 0)
        let (status, mem) := mvFlash32Wr dev info mem (offset + i) temp
        if status ≠ .ok then (i, mem) else unbufWrLoop offset block fuel (i + 4) mem
    else (i, mem)

/-- `mvFlashBlockUnbufWr`. -/
def mvFlashBlockUnbufWr (mem : ℕ → BitVec 8) (offset : ℕ) (block : List (BitVec 8)) :
    ℕ × (ℕ → BitVec 8) :=
  unbufWrLoop dev info offset block block.length 0 mem

/-- The bytes that a word of the bus puts in the write buffer. -/
def bufferWord (pData : List (BitVec 8)) (offInBuff : ℕ) : List (BitVec 8) :=
  if info.busWidth = 4 then
    busBytes info (byteSwap32 (assemble32 (pData.getD offInBuff 0) (pData.getD (offInBuff + 1) 0)
      (pData.getD (offInBuff + 2) 0) (pData.getD (offInBuff + 3) 0)))
  else if info.busWidth = 2 then
    busBytes info ((byteSwap16 (assemble16 (pData.getD offInBuff 0)
      (pData.getD (offInBuff + 1) 0))).setWidth 32)
  else busBytes info ((pData.getD offInBuff 0).setWidth 32)

/-- The words of one buffer. -/
def bufferWords (pData : List (BitVec 8)) : ℕ → ℕ → List (BitVec 8)
  | 0, _ => []
  | wordCount + 1, offInBuff =>
    bufferWord info pData offInBuff ++ bufferWords pData wordCount (offInBuff + info.busWidth)

/-- The loop of `intelFlashHwBufferProg` over the buffers. The commands are for the sector of the
first one. -/
def hwBufferLoop (sec : ℕ) (pData : List (BitVec 8)) (wordCount : ℕ) :
    ℕ → ℕ → ℕ → (ℕ → BitVec 8) → Status × (ℕ → BitVec 8)
  | 0, _, _, mem => (.ok, mem)
  | buffers + 1, offInBuff, offset, mem =>
    if dev.takes sec offset then
      hwBufferLoop sec pData wordCount buffers (offInBuff + wordCount * info.busWidth)
        (offset + wordCount * info.busWidth)
        (program mem offset (bufferWords info pData wordCount offInBuff))
    else (.fail, mem)

/-- The turns of that loop, which ends where the count of the bytes that are left is zero. The
count of a block of no bytes is looked at only behind the first turn, when it has wrapped. -/
def hwBufferTurns (buffSize byteCount : ℕ) : ℕ :=
  if byteCount = 0 then 2 ^ 32 / Nat.gcd (2 ^ 32) buffSize else byteCount / buffSize

/-- `intelFlashHwBufferProg`. -/
def intelFlashHwBufferProg (mem : ℕ → BitVec 8) (offset : ℕ) (pData : List (BitVec 8)) :
    Status × (ℕ → BitVec 8) :=
  let buffSize := info.mvFlashNumOfDevGet * info.hwBuffLen
  if buffSize = 0 then (.badParam, mem)
  else if pData.length % buffSize ≠ 0 then (.badParam, mem)
  else if offset % buffSize ≠ 0 then (.badParam, mem)
  else
    hwBufferLoop dev info (info.mvFlashInWhichSec offset) pData (info.hwBuffLen / info.devWidth)
      (hwBufferTurns buffSize pData.length) 0 offset mem

/-- `flashHwBufferProg`. -/
def flashHwBufferProg (mem : ℕ → BitVec 8) (offset : ℕ) (pData : List (BitVec 8)) :
    Status × (ℕ → BitVec 8) :=
  match info.flashVen with
  | .intel => intelFlashHwBufferProg dev info mem offset pData
  | .amd | .stm | .sst => (.fail, mem)

/-- The check of `mvFlashBlockWr` that no sector is protected, from a sector on. -/
def checkSectors (blockSize : ℕ) : ℕ → ℕ → Option Bool
  | 0, _ => none
  | fuel + 1, secNum =>
    if info.mvFlashSecLockGet secNum then some false
    else if info.mvFlashSecOffsGet secNum + info.mvFlashSecSizeGet secNum < blockSize then
      checkSectors blockSize fuel ((secNum + 1) % 2 ^ 32)
    else some true

/-- What `mvFlashBlockWr` has still to write, and the number of bytes it has written. -/
structure BlockWrite where
  mem : ℕ → BitVec 8
  offset : ℕ
  block : List (BitVec 8)
  numOfBytesWritten : ℕ

/-- The first `unBufWritten` bytes are written. -/
def BlockWrite.advance (s : BlockWrite) (unBufWritten : ℕ) (mem : ℕ → BitVec 8) : BlockWrite :=
  { mem := mem
    offset := s.offset + unBufWritten
    block := s.block.drop unBufWritten
    numOfBytesWritten := s.numOfBytesWritten + unBufWritten }

/-- How much the first loop of `mvFlashBlockWr` writes at once. -/
def headSize (hwBuffSize offset blockSize : ℕ) : ℕ :=
  if blockSize < hwBuffSize ∨
      (offset + blockSize) % 2 ^ 32 <
        (offset + (2 * hwBuffSize + offset / hwBuffSize)) % 2 ^ 32 then blockSize
  else hwBuffSize - offset % hwBuffSize

/-- The first loop of `mvFlashBlockWr`, which writes what is not aligned to a buffer. The flag says
that all has been written. -/
def writeHead (hwBuffSize : ℕ) : ℕ → BlockWrite → Bool × BlockWrite
  | 0, s => (true, s)
  | fuel + 1, s =>
    if (s.offset % hwBuffSize ≠ 0 ∨ s.block.length < hwBuffSize) ∧ s.block.length ≠ 0 then
      let sizeToWrite := headSize hwBuffSize s.offset s.block.length
      let (unBufWritten, mem) :=
        mvFlashBlockUnbufWr dev info s.mem s.offset (s.block.take sizeToWrite)
      let s := s.advance unBufWritten mem
      if unBufWritten ≠ sizeToWrite then (false, s) else writeHead hwBuffSize fuel s
    else (true, s)

/-- The end of `mvFlashBlockWr`, which writes the rest without the buffer. -/
def writeTail (s : BlockWrite) : BlockWrite :=
  if s.block.length ≠ 0 then
    let (unBufWritten, mem) := mvFlashBlockUnbufWr dev info s.mem s.offset s.block
    s.advance unBufWritten mem
  else s

/-- The part of `mvFlashBlockWr` behind its first loop. `copied` says that the data are not in the
flash, or could be copied from there. -/
def writeBuffers (copied : Bool) (hwBuffSize : ℕ) (s : BlockWrite) : BlockWrite :=
  if s.block.length ≠ 0 then
    let sizeToWrite := s.block.length - s.block.length % hwBuffSize
    if ¬ copied then s
    else
      let (status, mem) := flashHwBufferProg dev info s.mem s.offset (s.block.take sizeToWrite)
      if status ≠ .ok then { s with mem := mem }
      else writeTail dev info (s.advance sizeToWrite mem)
  else s

/-- `mvFlashBlockWr`. -/
def mvFlashBlockWr (copied : Bool) (fuel : ℕ) (mem : ℕ → BitVec 8) (offset : ℕ)
    (block : List (BitVec 8)) : Option (ℕ × (ℕ → BitVec 8)) :=
  (checkSectors info block.length fuel (info.mvFlashInWhichSec offset)).map fun (unlocked : Bool) =>
    if ¬ unlocked then (0, mem)
    else if info.flashGetHwBuffSize = 0 then mvFlashBlockUnbufWr dev info mem offset block
    else
      let (complete, s) :=
        writeHead dev info info.flashGetHwBuffSize (block.length + 1) ⟨mem, offset, block, 0⟩
      if complete then
        let s := writeBuffers dev info copied info.flashGetHwBuffSize s
        (s.numOfBytesWritten, s.mem)
      else (s.numOfBytesWritten, s.mem)

end Writes

end Mv88fxx81.Flash
