import Mathlib.Algebra.Group.Nat.Defs
import Mathlib.Data.Nat.Notation

/-!
# Reading a NAND flash

The 8-bit devices have pages of 512 data bytes, read as two planes of 256 bytes, and 16 spare
bytes. A read command and three address bytes load a page; the bytes from the column on can be
read when the status shows that the device is ready. `K9F5608D0C` goes on with the next page
behind the last byte of a page, and has to be waited for then.
-/

namespace Mv88fxx81.Nflash

/-- `MV_STATUS`, as far as it is used. -/
inductive NflashStatus
  | ok
  | fail
  | timeout
  | writeProtect
  deriving DecidableEq, Repr

/-- `NFLASH_DEV_WIDTH`. -/
inductive DevWidth
  | x8
  | x16
  deriving DecidableEq, Repr

/-- The read commands. -/
inductive ReadType
  /-- `READ_A_PLAIN`. -/
  | readAPlain
  /-- `READ_B_PLAIN`. -/
  | readBPlain
  /-- `READ_SPARE`. -/
  | readSpare
  deriving DecidableEq, Repr

/-- The commands that reads use. -/
inductive NandCommand
  | read (readType : ReadType)
  | readStatus
  deriving DecidableEq, Repr

/-- `NFLASH_PAGE_SIZE`. -/
def nflashPageSize : ℕ := 528

/-- `NFLASH_DATA_PLAIN_SIZE`. -/
def nflashDataPlainSize : ℕ := 256

/-- `NFLASH_PROG_ERASE_TIMEOUT`. -/
def nflashProgEraseTimeout : ℕ := 80000

/-- `K9F5608D0C`, which is also `K9F5608U0C`. -/
def k9f5608d0c : ℕ := 0x75

/-! ### The device -/

/-- A device and what its pins have seen. -/
structure NandDevice where
  /-- The bytes of the pages, the spare bytes behind the data. -/
  cells : ℕ → ℕ → UInt8
  /-- The device goes on with the next page. -/
  sequential : Bool
  /-- The status after a status command and a number of reads of it. -/
  status : ℕ → ℕ → UInt8
  /-- What is read while no data are ready. -/
  unready : ℕ → UInt8
  area : ReadType
  addrBytes : List UInt8
  statusMode : Bool
  page : ℕ
  column : ℕ
  busy : Bool
  statusCommands : ℕ
  statusReads : ℕ
  unreadyReads : ℕ

/-- The column where the area of a read command starts. -/
def areaBase : ReadType → ℕ
  | .readAPlain => 0
  | .readBPlain => 256
  | .readSpare => 512

namespace NandDevice

/-- `mvNflashCommandSet`. -/
def mvNflashCommandSet (dev : NandDevice) : NandCommand → NandDevice
  | .read readType => { dev with area := readType, addrBytes := [], statusMode := false }
  | .readStatus =>
    { dev with statusMode := true, statusCommands := dev.statusCommands + 1, statusReads := 0 }

/-- `mvNflashAddrSet`: the third address byte starts to load the page. -/
def mvNflashAddrSet (dev : NandDevice) (addr : ℕ) : NandDevice :=
  match dev.addrBytes with
  | [column, row] =>
    { dev with
      addrBytes := []
      page := 256 * (UInt8.ofNat addr).toNat + row.toNat
      column := areaBase dev.area + column.toNat
      busy := true }
  | addrBytes => { dev with addrBytes := addrBytes ++ [UInt8.ofNat addr] }

/-- The place behind the byte that was read. -/
def advance (dev : NandDevice) : NandDevice :=
  if dev.column + 1 < nflashPageSize ∨ ¬ dev.sequential then { dev with column := dev.column + 1 }
  else
    { dev with
      page := dev.page + 1
      column := if dev.area = .readSpare then areaBase .readSpare else 0
      busy := true }

/-- One byte is read from the device. -/
def readByte (dev : NandDevice) : UInt8 × NandDevice :=
  if dev.statusMode then
    let status := dev.status dev.statusCommands dev.statusReads
    (status,
      { dev with
        statusReads := dev.statusReads + 1
        busy := dev.busy && status &&& 0x40 ≠ 0x40 })
  else if dev.busy ∨ nflashPageSize ≤ dev.column then
    (dev.unready dev.unreadyReads, { dev with unreadyReads := dev.unreadyReads + 1 })
  else (dev.cells dev.page dev.column, dev.advance)

/-- `mvNflash8bitDataGet`. -/
def mvNflash8bitDataGet : ℕ → NandDevice → List UInt8 × NandDevice
  | 0, dev => ([], dev)
  | size + 1, dev =>
    let (byte, dev) := dev.readByte
    let (bytes, dev) := mvNflash8bitDataGet size dev
    (byte :: bytes, dev)

/-- The loop of `prgmEraseStsGet`. -/
def pollStatus : ℕ → NandDevice → NflashStatus × NandDevice
  | 0, dev => (.timeout, dev)
  | timeout + 1, dev =>
    let (readStsReg, dev) := dev.readByte
    if readStsReg &&& 0x40 = 0x40 then
      if readStsReg &&& 0x80 = 0 then (.writeProtect, dev)
      else if readStsReg &&& 0x01 = 0 then (.ok, dev)
      else (.fail, dev)
    else pollStatus timeout dev

/-- `prgmEraseStsGet`. -/
def prgmEraseStsGet (dev : NandDevice) : NflashStatus × NandDevice :=
  pollStatus nflashProgEraseTimeout (dev.mvNflashCommandSet .readStatus)

end NandDevice

/-! ### The driver -/

/-- The fields of `MV_NFLASH_INFO` and `NFLASH_STRUCT` that reads use. -/
structure NflashInfo where
  devId : ℕ
  devWidth : DevWidth
  pageDataSize : ℕ
  spareSize : ℕ

/-- What a read returns, the bytes in `pData` and the device. -/
structure ReadResult where
  copied : ℕ
  pData : List UInt8
  dev : NandDevice

open NandDevice

/-- The second and the third phase of `readData`, for a number of full pages. -/
def readPages (readType : ReadType) (maxSize size : ℕ) :
    ℕ → ℕ → List UInt8 → NandDevice → ReadResult
  | 0, tmpSize, pData, dev =>
    if tmpSize = 0 then { copied := size, pData, dev }
    else
      let (bytes, dev) := mvNflash8bitDataGet tmpSize dev
      let (status, dev) := dev.prgmEraseStsGet
      if status = .timeout then { copied := tmpSize, pData := pData ++ bytes, dev }
      else { copied := size, pData := pData ++ bytes, dev }
  | numOfFullPages + 1, tmpSize, pData, dev =>
    let (bytes, dev) := mvNflash8bitDataGet maxSize dev
    let tmpSize := tmpSize - maxSize
    let (status, dev) := dev.prgmEraseStsGet
    if status = .timeout then { copied := tmpSize, pData := pData ++ bytes, dev }
    else
      readPages readType maxSize size numOfFullPages tmpSize (pData ++ bytes)
        (dev.mvNflashCommandSet (.read readType))

/-- `readData`. -/
def readData (flash : NflashInfo) (readType : ReadType) (offset size : ℕ) (dev : NandDevice) :
    ReadResult :=
  let maxSize :=
    if readType = .readSpare then flash.spareSize else flash.pageDataSize + flash.spareSize
  let tmpSize := maxSize - offset % 256
  let tmpSize := if tmpSize < size then tmpSize else size
  let (bytes, dev) := mvNflash8bitDataGet tmpSize dev
  if k9f5608d0c ≠ flash.devId then { copied := tmpSize, pData := bytes, dev }
  else
    let (status, dev) := dev.prgmEraseStsGet
    if status = .timeout then { copied := tmpSize, pData := bytes, dev }
    else
      let dev := dev.mvNflashCommandSet (.read readType)
      let leftSize := size - tmpSize
      readPages readType maxSize size (leftSize / maxSize) leftSize bytes dev

/-- The plane that `mvNflashPageRead` reads. -/
def planeOf (flash : NflashInfo) (offset : ℕ) : ReadType :=
  if flash.devWidth = .x8 ∧ offset % flash.pageDataSize > nflashDataPlainSize then .readBPlain
  else .readAPlain

/-- `mvNflashPageRead`. -/
def mvNflashPageRead (flash : NflashInfo) (offset size : ℕ) (dev : NandDevice) : ReadResult :=
  let readType := planeOf flash offset
  let dev := dev.mvNflashCommandSet (.read readType)
  let dev := dev.mvNflashAddrSet (offset % 256)
  let dev := dev.mvNflashAddrSet (offset / 2 ^ 9 % 256)
  let dev := dev.mvNflashAddrSet (offset / 2 ^ 17 % 256)
  let (status, dev) := dev.prgmEraseStsGet
  if status = .timeout then { copied := 0, pData := [], dev }
  else readData flash readType offset size (dev.mvNflashCommandSet (.read readType))

end Mv88fxx81.Nflash
