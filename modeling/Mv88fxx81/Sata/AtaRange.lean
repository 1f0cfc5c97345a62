import Mv88fxx81.Lib.Bytes
import Mv88fxx81.Sata.ScsiAta

/-!
# Sector ranges

The sectors that a command is about, as numbers: the range that the bytes of a CDB ask for, the
range that the fields of an ATA command denote, and the sectors that a disk has according to its
answer to READ CAPACITY. A READ or WRITE is translated into an ATA command for the range of its
CDB, or it is refused.
-/

namespace Mv88fxx81.Sata

open Bytes

/-- The first sector that a CDB names. -/
def cdbLba (scb : Scb) (isSixByte : Bool) : ℕ :=
  if isSixByte then bigEndianNat [scb.cmd 1 % 32, scb.cmd 2, scb.cmd 3]
  else bigEndianNat [scb.cmd 2, scb.cmd 3, scb.cmd 4, scb.cmd 5]

/-- The number of sectors that a CDB asks for. In a CDB of six bytes, zero stands for 256. -/
def cdbBlocks (scb : Scb) (isSixByte : Bool) : ℕ :=
  if isSixByte then if scb.cmd 4 = 0 then 256 else (scb.cmd 4).toNat
  else bigEndianNat [scb.cmd 7, scb.cmd 8]

/-- The number of the last sector in the answer to a READ CAPACITY. -/
def lastReportedLba (drive : DriveData) : ℕ := bigEndianNat ((readCapacityData drive).take 4)

/-- Sectors that exist on a disk, as READ CAPACITY reports it. The answer of a disk without
sectors does not tell that it has none. -/
def OnDisk (drive : DriveData) (lba blocks : ℕ) : Prop :=
  drive.identifyInfo.ataDiskSize ≠ 0 ∧ lba + blocks ≤ lastReportedLba drive + 1

/-- A drive without 48 bit addresses has at most as many sectors as 28 bits can address. -/
def DriveData.Addressable (drive : DriveData) : Prop :=
  drive.identifyInfo.lba48Supported = false → drive.identifyInfo.ataDiskSize.toNat ≤ 2 ^ 28

instance (drive : DriveData) (lba blocks : ℕ) : Decidable (OnDisk drive lba blocks) :=
  inferInstanceAs (Decidable (_ ∧ _))

instance (drive : DriveData) : Decidable drive.Addressable :=
  inferInstanceAs (Decidable (_ → _))

/-- The sectors that a UDMA command is about: the first one, and their number. A command that is not
extended has an address of 28 bits and a count of eight bits. -/
def UdmaCommandParams.range (params : UdmaCommandParams) : ℕ × ℕ :=
  if params.isEXT then
    (params.highLBAAddress.toNat * 2 ^ 32 + params.lowLBAAddress.toNat,
      if params.numOfSectors = 0 then 65536 else params.numOfSectors.toNat)
  else
    (params.lowLBAAddress.toNat % 2 ^ 28,
      if params.numOfSectors.toNat % 256 = 0 then 256 else params.numOfSectors.toNat % 256)

section Fields

variable {scb : Scb} {drive : DriveData}

theorem lba6_toNat : scb.lba6.toNat = cdbLba scb true := by
  have h1 := (scb.cmd 1).toNat_lt
  have h2 := (scb.cmd 2).toNat_lt
  have h3 := (scb.cmd 3).toNat_lt
  have hmask : ((scb.cmd 1).toUInt32 &&& 0x1f).toNat = (scb.cmd 1).toNat % 32 := by
    rw [UInt32.toNat_and]
    exact Nat.and_two_pow_sub_one_eq_mod _ 5
  have hlow : ((scb.cmd 3).toUInt32 ||| (scb.cmd 2).toUInt32 <<< 8).toNat =
      (scb.cmd 2).toNat * 2 ^ 8 + (scb.cmd 3).toNat := by
    rw [toNat_or_shiftLeft (by decide) (by simp [h3]) (by simp; omega)]
    simp
  unfold Scb.lba6
  rw [toNat_or_shiftLeft (by decide) (by rw [hlow]; simp; omega) (by rw [hmask]; simp; omega),
    hlow, hmask]
  simp [cdbLba, bigEndianNat]
  omega

theorem lba10_toNat : scb.lba10.toNat = cdbLba scb false := by
  have h2 := (scb.cmd 2).toNat_lt
  have h3 := (scb.cmd 3).toNat_lt
  have h4 := (scb.cmd 4).toNat_lt
  have h5 := (scb.cmd 5).toNat_lt
  have h16 : ((scb.cmd 5).toUInt32 ||| (scb.cmd 4).toUInt32 <<< 8).toNat =
      (scb.cmd 4).toNat * 2 ^ 8 + (scb.cmd 5).toNat := by
    rw [toNat_or_shiftLeft (by decide) (by simp [h5]) (by simp; omega)]
    simp
  have h24 : ((scb.cmd 5).toUInt32 ||| (scb.cmd 4).toUInt32 <<< 8 |||
      (scb.cmd 3).toUInt32 <<< 16).toNat =
      (scb.cmd 3).toNat * 2 ^ 16 + ((scb.cmd 4).toNat * 2 ^ 8 + (scb.cmd 5).toNat) := by
    rw [toNat_or_shiftLeft (by decide) (by rw [h16]; simp; omega) (by simp; omega), h16]
    simp
  unfold Scb.lba10
  rw [toNat_or_shiftLeft (by decide) (by rw [h24]; simp; omega) (by simp; omega), h24]
  simp [cdbLba, bigEndianNat]
  omega

theorem count10_toNat : scb.count10.toNat = cdbBlocks scb false := by
  have h7 := (scb.cmd 7).toNat_lt
  have h8 : (scb.cmd 8).toUInt16.toNat < 2 ^ 8 := (scb.cmd 8).toNat_lt
  have hshift : ((scb.cmd 7).toUInt16 <<< 8).toNat = (scb.cmd 7).toNat <<< 8 := by
    rw [UInt16.toNat_shiftLeft, UInt8.toNat_toUInt16, Nat.shiftLeft_eq, Nat.shiftLeft_eq]
    simp
    omega
  unfold Scb.count10
  rw [UInt16.toNat_or, hshift, Nat.or_comm, ← Nat.shiftLeft_add_eq_or_of_lt h8, Nat.shiftLeft_eq]
  simp [cdbBlocks, bigEndianNat]
  omega

/-- READ CAPACITY reports the last sector of a disk. -/
theorem lastReportedLba_eq (hsize : drive.identifyInfo.ataDiskSize ≠ 0) :
    lastReportedLba drive + 1 = drive.identifyInfo.ataDiskSize.toNat := by
  have hpos : drive.identifyInfo.ataDiskSize.toNat ≠ 0 := fun h => hsize (UInt32.toNat_inj.1 h)
  have hlt := drive.identifyInfo.ataDiskSize.toNat_lt
  have hlast : (drive.identifyInfo.ataDiskSize - 1).toNat =
      drive.identifyInfo.ataDiskSize.toNat - 1 := by
    rw [UInt32.toNat_sub]
    simp only [UInt32.reduceToNat]
    omega
  unfold lastReportedLba readCapacityData
  simp only [List.take_succ_cons, List.take_zero, bigEndianNat, List.foldl_cons, List.foldl_nil,
    UInt32.toNat_toUInt8, UInt32.toNat_shiftRight, hlast, Nat.shiftRight_eq_div_pow]
  simp only [UInt32.reduceToNat, Nat.reduceMod, Nat.reducePow]
  omega

/-- The test of `checkLBAOutOfRange`, for a range that is not empty. -/
theorem checkLBAOutOfRange_eq_false {lba sectors : UInt32} (hpos : 0 < sectors.toNat) :
    checkLBAOutOfRange drive.identifyInfo.ataDiskSize lba sectors = false ↔
      OnDisk drive lba.toNat sectors.toNat := by
  have hlt := drive.identifyInfo.ataDiskSize.toNat_lt
  have hlt' := lba.toNat_lt
  unfold checkLBAOutOfRange OnDisk
  rw [Bool.or_eq_false_iff, decide_eq_false_iff_not, decide_eq_false_iff_not,
    UInt32.le_iff_toNat_le, UInt32.lt_iff_toNat_lt, UInt32.toNat_sub]
  constructor
  · rintro ⟨hlba, hfit⟩
    have hsize : drive.identifyInfo.ataDiskSize ≠ 0 := by
      intro hzero
      rw [hzero] at hlba
      simp at hlba
    rw [lastReportedLba_eq hsize]
    exact ⟨hsize, by omega⟩
  · rintro ⟨hsize, hfit⟩
    rw [lastReportedLba_eq hsize] at hfit
    omega

/-- The test of `checkLBAOutOfRange` without sectors, which looks at the address alone. -/
theorem checkLBAOutOfRange_zero {lba : UInt32} :
    checkLBAOutOfRange drive.identifyInfo.ataDiskSize lba 0 = false ↔ OnDisk drive lba.toNat 1 := by
  rw [← UInt32.toNat_one, ← checkLBAOutOfRange_eq_false (by decide)]
  unfold checkLBAOutOfRange
  rw [Bool.or_eq_false_iff, Bool.or_eq_false_iff, decide_eq_false_iff_not, decide_eq_false_iff_not,
    decide_eq_false_iff_not, UInt32.le_iff_toNat_le, UInt32.lt_iff_toNat_lt,
    UInt32.lt_iff_toNat_lt, UInt32.toNat_sub, UInt32.toNat_zero, UInt32.toNat_one]
  have hlt := drive.identifyInfo.ataDiskSize.toNat_lt
  have hlt' := lba.toNat_lt
  omega

end Fields

section Data

/-- The form of the CDB of a READ or WRITE, and its direction. -/
def ScsiOpcode.dataForm : ScsiOpcode → Option (Bool × UdmaType)
  | .read6 => some (true, .read)
  | .write6 => some (true, .write)
  | .read10 => some (false, .read)
  | .write10 => some (false, .write)
  | _ => none

/-- What is right for the reply to a READ or WRITE: an ATA command for exactly the sectors of the
CDB if it can be carried out, and else a completion, with an error unless the CDB asks for no
sectors at all. -/
structure TranslatesData (drive : DriveData) (scb : Scb) (isSixByte : Bool) (direction : UdmaType)
    (result : QueueCommandResult) (reply : Reply) : Prop where
  queues : reply.queued.isSome ↔
    (0 < cdbBlocks scb isSixByte ∧ cdbBlocks scb isSixByte ≤ 256 ∧
      512 * cdbBlocks scb isSixByte = scb.dataBufferLength.toNat ∧
      OnDisk drive (cdbLba scb isSixByte) (cdbBlocks scb isSixByte)) ∧ result = .ok
  denotes : ∀ info, reply.queued = some info → reply.completions = [] ∧
    ∃ params, info = .udma scb.target params ∧ params.readWrite = direction ∧
      params.range = (cdbLba scb isSixByte, cdbBlocks scb isSixByte)
  completes : reply.queued = none → ∃ done, reply.completions = [done] ∧
    (done.scsiCommandCompletion = .success ↔
      isSixByte = false ∧ cdbBlocks scb isSixByte = 0 ∧ OnDisk drive (cdbLba scb isSixByte) 1)

variable {drive : DriveData} {scb : Scb} {op : ScsiOpcode} {isSixByte : Bool}
  {direction : UdmaType} {result : QueueCommandResult}

/-- What the code reads from the CDB of a READ or WRITE. -/
theorem dataFields_eq (hop : scb.opcode = some op)
    (hform : op.dataForm = some (isSixByte, direction)) :
    scb.sixByteData = isSixByte ∧ dataDirection scb = direction ∧
      (dataLba scb).toNat = cdbLba scb isSixByte ∧
      (if dataCount scb = 0 ∧ isSixByte then 256 else (dataCount scb).toNat) =
        cdbBlocks scb isSixByte := by
  have hsix : scb.sixByteData = isSixByte ∧ dataDirection scb = direction := by
    unfold Scb.sixByteData dataDirection
    rw [hop]
    cases op <;> simp_all [ScsiOpcode.dataForm]
  obtain ⟨hsix, hdirection⟩ := hsix
  refine ⟨hsix, hdirection, ?_, ?_⟩
  · unfold dataLba
    rw [hsix]
    cases isSixByte with
    | true => exact lba6_toNat
    | false => exact lba10_toNat
  · unfold dataCount
    rw [hsix]
    cases isSixByte with
    | true =>
      have hzero : (scb.cmd 4).toUInt16 = 0 ↔ scb.cmd 4 = 0 := by
        rw [← UInt16.toNat_inj, ← UInt8.toNat_inj]
        rfl
      simp only [if_true, and_true, hzero]
      rfl
    | false =>
      rw [if_neg (by simp)]
      exact count10_toNat

/-- A completion with an error, where no ATA command is to be sent. -/
theorem TranslatesData.of_error {done : Scb} (herror : done.scsiCommandCompletion ≠ .success)
    (hrefused : ¬ ((0 < cdbBlocks scb isSixByte ∧ cdbBlocks scb isSixByte ≤ 256 ∧
      512 * cdbBlocks scb isSixByte = scb.dataBufferLength.toNat ∧
      OnDisk drive (cdbLba scb isSixByte) (cdbBlocks scb isSixByte)) ∧ result = .ok))
    (hsome : isSixByte = false → cdbBlocks scb isSixByte = 0 →
      ¬ OnDisk drive (cdbLba scb isSixByte) 1) :
    TranslatesData drive scb isSixByte direction result (finish drive done) where
  queues := iff_of_false (by simp [finish]) hrefused
  denotes := by simp [finish]
  completes := fun _ => ⟨done, rfl, iff_of_false herror fun ⟨hten, hzero, hdisk⟩ =>
    hsome hten hzero hdisk⟩

/-- The ATA command of a READ or WRITE is about the sectors of the CDB. -/
theorem dataCommandInfo_range {sectors : UInt16} (hdrive : drive.Addressable)
    (hlba : (dataLba scb).toNat = cdbLba scb isSixByte)
    (hsectors : sectors.toNat = cdbBlocks scb isSixByte) (hpos : 0 < cdbBlocks scb isSixByte)
    (hmax : cdbBlocks scb isSixByte ≤ 256)
    (hdisk : OnDisk drive (cdbLba scb isSixByte) (cdbBlocks scb isSixByte)) :
    ∃ params, dataCommandInfo drive scb sectors = .udma scb.target params ∧
      params.readWrite = dataDirection scb ∧
      params.range = (cdbLba scb isSixByte, cdbBlocks scb isSixByte) := by
  have hne : sectors ≠ 0 := by
    intro hzero
    rw [hzero] at hsectors
    rw [← hsectors] at hpos
    exact absurd hpos (by decide)
  refine ⟨_, rfl, rfl, ?_⟩
  unfold UdmaCommandParams.range
  cases hext : drive.identifyInfo.lba48Supported with
  | true =>
    simp only [Bool.true_eq_false, and_false, if_false, if_true, if_neg hne, hlba, hsectors]
    simp
  | false =>
    have hbound := hdrive hext
    rw [← lastReportedLba_eq hdisk.1] at hbound
    have hlow : cdbLba scb isSixByte % 2 ^ 28 = cdbLba scb isSixByte :=
      Nat.mod_eq_of_lt (by have := hdisk.2; omega)
    simp only [Bool.false_eq_true, and_true, if_false, hlba, hlow]
    by_cases hfull : sectors = 256
    · rw [if_pos hfull]
      rw [hfull] at hsectors
      rw [← hsectors]
      rfl
    · have hlt : sectors.toNat < 256 := by
        have hne' : sectors.toNat ≠ 256 := fun h => hfull (UInt16.toNat_inj.1 h)
        omega
      rw [if_neg hfull, Nat.mod_eq_of_lt hlt, if_neg (by omega), hsectors]

/-- A READ or WRITE is translated into an ATA command for its sectors, or it is refused. -/
theorem mvScsiAtaSendDataCommand_translates (hop : scb.opcode = some op)
    (hform : op.dataForm = some (isSixByte, direction)) (hdrive : drive.Addressable)
    (result : QueueCommandResult) :
    TranslatesData drive scb isSixByte direction result
      (mvScsiAtaSendDataCommand drive scb result) := by
  obtain ⟨hsix, hdirection, hlba, hblocks⟩ := dataFields_eq hop hform
  unfold mvScsiAtaSendDataCommand
  rw [hsix]
  by_cases hzero : dataCount scb = 0 ∧ isSixByte = false
  · rw [if_pos hzero]
    have hnone : cdbBlocks scb isSixByte = 0 := by
      rw [← hblocks, hzero.1, hzero.2]
      rfl
    cases hrange : checkLBAOutOfRange drive.identifyInfo.ataDiskSize (dataLba scb) 0 with
    | true =>
      rw [if_pos rfl]
      refine TranslatesData.of_error (by simp [rejected]) (by omega) fun _ _ hdisk => ?_
      rw [← hlba, ← checkLBAOutOfRange_zero, hrange] at hdisk
      exact Bool.noConfusion hdisk
    | false =>
      rw [if_neg Bool.false_ne_true]
      have hdisk := checkLBAOutOfRange_zero.1 hrange
      rw [hlba] at hdisk
      exact
        { queues := iff_of_false (by simp [finish]) (by omega)
          denotes := by simp [finish]
          completes := fun _ => ⟨_, rfl, iff_of_true rfl ⟨hzero.2, hnone, hdisk⟩⟩ }
  · rw [if_neg hzero]
    obtain ⟨sectors, hsectors⟩ : ∃ sectors : UInt16,
        (if dataCount scb = 0 then 256 else dataCount scb) = sectors := ⟨_, rfl⟩
    have hcount : sectors.toNat = cdbBlocks scb isSixByte := by
      rw [← hblocks, ← hsectors]
      cases isSixByte with
      | true => by_cases h : dataCount scb = 0 <;> simp [h]
      | false =>
        have hne : dataCount scb ≠ 0 := fun h => hzero ⟨h, rfl⟩
        simp [hne]
    have hpos : 0 < cdbBlocks scb isSixByte := by
      rw [← hcount, ← hsectors]
      split
      next => decide
      next h => exact Nat.pos_of_ne_zero fun h' => h (UInt16.toNat_inj.1 h')
    have hsome : isSixByte = false → cdbBlocks scb isSixByte = 0 →
        ¬ OnDisk drive (cdbLba scb isSixByte) 1 := by omega
    have hwide : sectors.toUInt32.toNat = cdbBlocks scb isSixByte := by
      rw [UInt16.toNat_toUInt32, hcount]
    simp only [hsectors]
    cases hrange : checkLBAOutOfRange drive.identifyInfo.ataDiskSize (dataLba scb)
        sectors.toUInt32 with
    | true =>
      rw [if_pos rfl]
      refine TranslatesData.of_error (by simp [rejected]) (fun ⟨⟨_, _, _, hdisk⟩, _⟩ => ?_) hsome
      rw [← hlba, ← hwide, ← checkLBAOutOfRange_eq_false (by omega), hrange] at hdisk
      exact Bool.noConfusion hdisk
    | false =>
      rw [if_neg Bool.false_ne_true]
      have hdisk := (checkLBAOutOfRange_eq_false (by omega)).1 hrange
      rw [hlba, hwide] at hdisk
      have hlt := sectors.toNat_lt
      have hbytes : (sectors.toUInt32 * 512).toNat = 512 * cdbBlocks scb isSixByte := by
        rw [UInt32.toNat_mul, hwide]
        simp only [UInt32.reduceToNat]
        omega
      have hrefuses : (256 < sectors ∨ sectors.toUInt32 * 512 ≠ scb.dataBufferLength) ↔
          ¬ (cdbBlocks scb isSixByte ≤ 256 ∧
            512 * cdbBlocks scb isSixByte = scb.dataBufferLength.toNat) := by
        rw [UInt16.lt_iff_toNat_lt, hcount, ne_eq, ← UInt32.toNat_inj, hbytes]
        simp only [UInt16.reduceToNat]
        omega
      by_cases hrefused : 256 < sectors ∨ sectors.toUInt32 * 512 ≠ scb.dataBufferLength
      · rw [if_pos hrefused]
        refine TranslatesData.of_error (by simp) (fun ⟨⟨_, hmax, hlen, _⟩, _⟩ => ?_) hsome
        exact hrefuses.1 hrefused ⟨hmax, hlen⟩
      · rw [if_neg hrefused]
        obtain ⟨hmax, hlen⟩ := Decidable.not_not.1 (mt hrefuses.2 hrefused)
        unfold queueOrFinish
        by_cases hok : result = .ok
        · rw [if_pos hok]
          obtain ⟨params, hinfo, hreadWrite, hparams⟩ :=
            dataCommandInfo_range hdrive hlba hcount hpos hmax hdisk
          refine
            { queues := iff_of_true rfl ⟨⟨hpos, hmax, hlen, hdisk⟩, hok⟩
              denotes := fun info hinfo' => ⟨rfl, params, ?_, hreadWrite.trans hdirection, hparams⟩
              completes := by simp }
          rw [← hinfo]
          exact (Option.some.inj hinfo').symm
        · rw [if_neg hok]
          refine TranslatesData.of_error ?_ (fun h => hok h.2) hsome
          cases result <;> simp_all [checkQueueCommandResult]

/-- A WRITE of 256 sectors, with a CDB of six bytes and a count of zero. -/
theorem mvScsiAtaSendDataCommand_translates_write :
    TranslatesData smallDrive (hostBlock [0x0A, 0, 0, 16, 0, 0] 131072) true .write .ok
      (mvScsiAtaSendDataCommand smallDrive (hostBlock [0x0A, 0, 0, 16, 0, 0] 131072) .ok) :=
  mvScsiAtaSendDataCommand_translates rfl (by decide : ScsiOpcode.dataForm .write6 = _) (by decide)
    .ok

/-- A READ of no sectors is completed without an error. -/
theorem mvScsiAtaSendDataCommand_zero :
    ¬ ∃ done, (mvScsiAtaSendDataCommand smallDrive (hostBlock [0x28, 0, 0, 0, 0, 16, 0, 0, 0, 0] 0)
      .ok).completions = [done] ∧ done.scsiCommandCompletion ≠ .success := by
  rintro ⟨done, hdone, herror⟩
  obtain rfl := List.singleton_inj.1 hdone
  exact herror rfl

end Data

end Mv88fxx81.Sata
