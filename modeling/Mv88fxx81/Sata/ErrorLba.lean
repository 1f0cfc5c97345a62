import Mv88fxx81.Sata.VerifyCoverage

/-!
# The address of a failed sector

When an ATA command fails, the drive reports the failed sector in its registers, and the layer
reports it in the sense data. The low three bytes of the address come from the registers. The high
byte comes from the address that is kept in the command block: the first sector of the command, or,
for a part of a split VERIFY, the first sector behind it.
-/

namespace Mv88fxx81.Sata

open Bytes

/-- The ATA commands of a READ, WRITE or VERIFY, with the command block while they are in
progress. -/
inductive InProgress (drive : DriveData) : Scb → QueueCommandInfo → Prop
  | data {scb : Scb} {op : ScsiOpcode} {isSixByte : Bool} {direction : UdmaType}
      {info : QueueCommandInfo} (hop : scb.opcode = some op)
      (hform : op.dataForm = some (isSixByte, direction))
      (hqueued : (mvScsiAtaSendDataCommand drive scb .ok).queued = some info) :
      InProgress drive (mvScsiAtaSendDataCommand drive scb .ok).scb info
  | verify {scb : Scb} {info : QueueCommandInfo}
      (hop : scb.opcode = some .verify6 ∨ scb.opcode = some .verify10)
      (hqueued : (mvScsiAtaSendVerifyCommand drive scb .ok).queued = some info) :
      InProgress drive (mvScsiAtaSendVerifyCommand drive scb .ok).scb info
  | part {scb : Scb} {previous info : QueueCommandInfo} (hprogress : InProgress drive scb previous)
      (hnext : salCommandCompletionCB scb .normal = none)
      (hsent : (Block.service ⟨scb, [], []⟩ .ok).outstanding = [info]) :
      InProgress drive (Block.service ⟨scb, [], []⟩ .ok).scb info

/-- The command has an address of 48 bits. -/
def QueueCommandInfo.isExtended : QueueCommandInfo → Bool
  | .udma _ params => params.isEXT
  | .noneUdma _ params => params.isEXT

/-- The command is about `count` sectors from `start` on. -/
def QueueCommandInfo.Names : QueueCommandInfo → ℕ → ℕ → Prop
  | .udma _ params, start, count => params.range = (start, count)
  | .noneUdma _ params, start, count => params.verifyRange = some ((start : ℤ), (count : ℤ))

/-- The registers report a sector: the three low bytes of its address, and the others in the device
register or in the previous content of the address registers. -/
def StorageDeviceRegisters.Reports (registers : StorageDeviceRegisters) (isExtended : Bool)
    (lba : ℕ) : Prop :=
  registers.lbaLowRegister.toNat % 256 = lba % 256 ∧
    registers.lbaMidRegister.toNat % 256 = lba / 2 ^ 8 % 256 ∧
    registers.lbaHighRegister.toNat % 256 = lba / 2 ^ 16 % 256 ∧
    if isExtended then
      registers.lbaLowRegister.toNat / 256 = lba / 2 ^ 24 % 256 ∧
        registers.lbaMidRegister.toNat / 256 = lba / 2 ^ 32 % 256 ∧
        registers.lbaHighRegister.toNat / 256 = lba / 2 ^ 40 % 256
    else registers.deviceRegister.toNat % 16 = lba / 2 ^ 24 % 16

/-- The sense data that is built for a command that the drive has failed. -/
def failedCommandSense (scb : Scb) (registers : StorageDeviceRegisters) : SenseData :=
  if scb.commandType = .udma then udmaSense scb registers else noneUdmaSense scb registers

/-- The address in the information bytes of sense data. -/
def SenseData.lba (sense : SenseData) : ℕ :=
  bigEndianNat
    [sense.information 0, sense.information 1, sense.information 2, sense.information 3]

/-- The error handlers read the address registers: the error is one of the medium alone. -/
def readsAddress (scb : Scb) (registers : StorageDeviceRegisters) : Bool :=
  registers.errorRegister &&& 0x2a == 0 && registers.errorRegister &&& 0x40 != 0 &&
    (scb.commandType != .udma ||
      registers.errorRegister &&& 0x80 == 0 && registers.errorRegister != 0x0C)

section Sense

variable {scb : Scb} {registers : StorageDeviceRegisters} {isExtended : Bool} {lba : ℕ}

/-- The address is right if its high byte is. -/
theorem information_eq_iff {high : UInt8} (hregs : registers.Reports isExtended lba)
    (hlba : lba < 2 ^ 32) :
    bigEndianNat [high, registers.lbaHighRegister.toUInt8, registers.lbaMidRegister.toUInt8,
      registers.lbaLowRegister.toUInt8] = lba ↔ high.toNat = lba / 2 ^ 24 := by
  obtain ⟨hlow, hmid, hhigh, -⟩ := hregs
  simp only [bigEndianNat, List.foldl_cons, List.foldl_nil, UInt16.toNat_toUInt8]
  rw [hlow, hmid, hhigh]
  omega

/-- The high byte of the address that the block keeps. -/
theorem highLba_toNat (scb : Scb) : scb.highLba.toNat = scb.lowLbaAddress.toNat / 2 ^ 24 := by
  have hlt := scb.lowLbaAddress.toNat_lt
  unfold Scb.highLba
  rw [UInt32.toNat_toUInt8, UInt32.toNat_shiftRight, Nat.shiftRight_eq_div_pow]
  simp only [UInt32.reduceToNat, Nat.reduceMod]
  omega

/-- Sense data without an address has zeros for it. -/
theorem failureSense_lba (valid : Bool) (key : SenseKey) (asc : AdditionalSense) :
    (failureSense valid key asc).lba = 0 := rfl

/-- The address in the sense data of a failed UDMA command. -/
theorem udmaSense_lba (hcommand : scb.commandType = .udma) :
    (udmaSense scb registers).lba =
      if readsAddress scb registers then
        bigEndianNat [scb.highLba, registers.lbaHighRegister.toUInt8,
          registers.lbaMidRegister.toUInt8, registers.lbaLowRegister.toUInt8]
      else 0 := by
  have hread : readsAddress scb registers = (registers.errorRegister &&& 0x2a == 0 &&
      registers.errorRegister &&& 0x40 != 0 &&
      (registers.errorRegister &&& 0x80 == 0 && registers.errorRegister != 0x0C)) := by
    unfold readsAddress
    rw [hcommand]
    rfl
  unfold udmaSense
  rw [hread]
  by_cases hcrc : registers.errorRegister &&& 0x80 ≠ 0 ∨ registers.errorRegister = 0x0C
  · rw [if_pos hcrc, failureSense_lba, if_neg]
    simp only [Bool.and_eq_true, beq_iff_eq, bne_iff_ne]
    rintro ⟨-, hno, hother⟩
    exact hcrc.elim (fun h => h hno) hother
  · obtain ⟨hno, hother⟩ := not_or.1 hcrc
    rw [if_neg hcrc]
    by_cases hmedia : registers.errorRegister &&& 0x2a ≠ 0
    · rw [if_pos hmedia, failureSense_lba, if_neg]
      simp only [Bool.and_eq_true, beq_iff_eq, bne_iff_ne]
      exact fun h => hmedia h.1.1
    · rw [if_neg hmedia]
      by_cases hsector : registers.errorRegister &&& 0x40 ≠ 0
      · have hreads : (registers.errorRegister &&& 0x2a == 0 &&
            registers.errorRegister &&& 0x40 != 0 &&
            (registers.errorRegister &&& 0x80 == 0 && registers.errorRegister != 0x0C)) = true := by
          simp only [Bool.and_eq_true, beq_iff_eq, bne_iff_ne]
          exact ⟨⟨Decidable.not_not.1 hmedia, hsector⟩, Decidable.not_not.1 hno, hother⟩
        rw [if_pos hsector, hreads]
        rfl
      · rw [if_neg hsector, if_neg (c := _ = true)]
        · split <;> rfl
        · simp only [Bool.and_eq_true, beq_iff_eq, bne_iff_ne]
          exact fun h => hsector h.1.2

/-- The address in the sense data of a failed VERIFY. -/
theorem verifySense_lba (hop : scb.opcode = some .verify6 ∨ scb.opcode = some .verify10)
    (hcommand : scb.commandType = .noneUdma) :
    (noneUdmaSense scb registers).lba =
      if readsAddress scb registers then
        bigEndianNat [scb.highLba, registers.lbaHighRegister.toUInt8,
          registers.lbaMidRegister.toUInt8, registers.lbaLowRegister.toUInt8]
      else 0 := by
  have hread : readsAddress scb registers = (registers.errorRegister &&& 0x2a == 0 &&
      registers.errorRegister &&& 0x40 != 0) := by
    unfold readsAddress
    rw [hcommand]
    simp
  have hsense : noneUdmaSense scb registers =
      if registers.errorRegister &&& 0x2a ≠ 0 then failureSense false .unitAttention .noSense
      else if registers.errorRegister &&& 0x40 ≠ 0 then
        { failureSense true .mediumError .noSense with
          information := registers.information scb.highLba }
      else if registers.errorRegister &&& 0x04 ≠ 0 ∨ registers.errorRegister &&& 0x10 ≠ 0 then
        failureSense false .abortedCommand .noSense
      else failureSense false .noSense .noSense := by
    unfold noneUdmaSense
    rcases hop with hop | hop <;> rw [hop]
  rw [hsense, hread]
  by_cases hmedia : registers.errorRegister &&& 0x2a ≠ 0
  · rw [if_pos hmedia, failureSense_lba, if_neg]
    simp only [Bool.and_eq_true, beq_iff_eq, bne_iff_ne]
    exact fun h => hmedia h.1
  · rw [if_neg hmedia]
    by_cases hsector : registers.errorRegister &&& 0x40 ≠ 0
    · rw [if_pos hsector, if_pos]
      · rfl
      · simp only [Bool.and_eq_true, beq_iff_eq, bne_iff_ne]
        exact ⟨Decidable.not_not.1 hmedia, hsector⟩
    · rw [if_neg hsector, if_neg (c := _ = true)]
      · split <;> rfl
      · simp only [Bool.and_eq_true, beq_iff_eq, bne_iff_ne]
        exact fun h => hsector h.2

end Sense

section Progress

variable {drive : DriveData} {scb : Scb} {info : QueueCommandInfo}
  {registers : StorageDeviceRegisters} {start count lba : ℕ}

/-- The reply of a READ or WRITE that is queued. -/
theorem dataCommand_queued (hqueued : (mvScsiAtaSendDataCommand drive scb .ok).queued = some info) :
    (mvScsiAtaSendDataCommand drive scb .ok).scb.commandType = .udma ∧
      (mvScsiAtaSendDataCommand drive scb .ok).scb.opcode = scb.opcode ∧
      (mvScsiAtaSendDataCommand drive scb .ok).scb.lowLbaAddress = dataLba scb ∧
      ∃ sectors : UInt16, 0 < sectors.toNat ∧ info = dataCommandInfo drive scb sectors ∧
        OnDisk drive (dataLba scb).toNat sectors.toNat := by
  unfold mvScsiAtaSendDataCommand at hqueued ⊢
  by_cases hzero : dataCount scb = 0 ∧ scb.sixByteData = false
  · rw [if_pos hzero] at hqueued
    split at hqueued <;> cases hqueued
  · rw [if_neg hzero] at hqueued ⊢
    obtain ⟨sectors, hsectors⟩ : ∃ sectors : UInt16,
        (if dataCount scb = 0 then 256 else dataCount scb) = sectors := ⟨_, rfl⟩
    have hpos : 0 < sectors.toNat := by
      rw [← hsectors]
      split
      next => decide
      next hne => exact Nat.pos_of_ne_zero fun h => hne (UInt16.toNat_inj.1 h)
    simp only [hsectors] at hqueued ⊢
    by_cases hrange : checkLBAOutOfRange drive.identifyInfo.ataDiskSize (dataLba scb)
        sectors.toUInt32 = true
    · rw [if_pos hrange] at hqueued
      cases hqueued
    · have hwide : 0 < sectors.toUInt32.toNat := by
        rw [UInt16.toNat_toUInt32]
        exact hpos
      have hdisk := (checkLBAOutOfRange_eq_false hwide).1 ((Bool.not_eq_true _).mp hrange)
      rw [UInt16.toNat_toUInt32] at hdisk
      rw [if_neg hrange] at hqueued ⊢
      by_cases hrefused : 256 < sectors ∨ sectors.toUInt32 * 512 ≠ scb.dataBufferLength
      · rw [if_pos hrefused] at hqueued
        cases hqueued
      · rw [if_neg hrefused] at hqueued ⊢
        exact ⟨rfl, rfl, rfl, sectors, hpos, (Option.some.inj hqueued).symm, hdisk⟩

/-- A VERIFY with a command for the core driver is answered as queued. -/
theorem verifyCommand_status
    (hqueued : (mvScsiAtaSendVerifyCommand drive scb .ok).queued = some info) :
    (mvScsiAtaSendVerifyCommand drive scb .ok).status = .queued := by
  unfold mvScsiAtaSendVerifyCommand at hqueued ⊢
  by_cases hzero : verifyCount scb = 0 ∧ scb.opcode = some .verify10
  · rw [if_pos hzero] at hqueued
    split at hqueued <;> cases hqueued
  · rw [if_neg hzero] at hqueued ⊢
    by_cases hrange : verifyOutOfRange drive scb = true
    · rw [if_pos hrange] at hqueued
      cases hqueued
    · rw [if_neg hrange]
      cases hext : drive.identifyInfo.lba48Supported <;> rfl

/-- The reply of a VERIFY that is queued. -/
theorem verifyCommand_queued
    (hqueued : (mvScsiAtaSendVerifyCommand drive scb .ok).queued = some info) :
    (mvScsiAtaSendVerifyCommand drive scb .ok).scb.commandType = .noneUdma ∧
      (mvScsiAtaSendVerifyCommand drive scb .ok).scb.opcode = scb.opcode ∧
      ((info = verifyExtInfo scb (verifyLba scb)
            (if verifyCount scb = 0 then 256 else verifyCount scb) ∧
          (mvScsiAtaSendVerifyCommand drive scb .ok).scb.lowLbaAddress = verifyLba scb) ∨
        ∃ first : Scb,
          info = splittedVerifyInfo { first with sequenceNumber := first.sequenceNumber + 1 } ∧
          (mvScsiAtaSendVerifyCommand drive scb .ok).scb =
            (mvScsiAtaSendSplittedVerifyCommand first .ok).scb) := by
  obtain ⟨hcount, hrange⟩ := verify_passes (verifyCommand_status hqueued)
  cases hext : drive.identifyInfo.lba48Supported with
  | true =>
    have hreply : mvScsiAtaSendVerifyCommand drive scb .ok =
        queueOrFinish drive
          { scb with
            commandType := .noneUdma
            lowLbaAddress := verifyLba scb
            splitCount := 1
            isExtended := true }
          (verifyExtInfo scb (verifyLba scb)
            (if verifyCount scb = 0 then 256 else verifyCount scb)) .ok := by
      unfold mvScsiAtaSendVerifyCommand
      rw [if_neg hcount, hrange, hext]
      rfl
    rw [hreply] at hqueued ⊢
    exact ⟨rfl, rfl, Or.inl ⟨(Option.some.inj hqueued).symm, rfl⟩⟩
  | false =>
    have hreply : mvScsiAtaSendVerifyCommand drive scb .ok =
        (mvScsiAtaSendSplittedVerifyCommand
          { scb with
            commandType := .noneUdma
            lowLbaAddress := verifyLba scb
            splitCount := verifyCommands (verifyCount scb)
            sequenceNumber := 0
            isExtended := false } .ok).reply drive .queued := by
      unfold mvScsiAtaSendVerifyCommand
      rw [if_neg hcount, hrange, hext]
      rfl
    rw [hreply] at hqueued ⊢
    exact ⟨rfl, rfl, Or.inr ⟨_, (Option.some.inj hqueued).symm, rfl⟩⟩

/-- The number of sectors of a VERIFY for a drive with 48 bit addresses. -/
theorem verifySectors_ne_zero (scb : Scb) :
    (if verifyCount scb = 0 then (256 : UInt16) else verifyCount scb) ≠ 0 := by
  split
  next => decide
  next hne => exact hne

/-- The next part of a VERIFY. -/
theorem service_verify_part (hop : scb.opcode = some .verify6 ∨ scb.opcode = some .verify10)
    (hsent : (Block.service ⟨scb, [], []⟩ .ok).outstanding = [info]) :
    info = splittedVerifyInfo { scb with sequenceNumber := scb.sequenceNumber + 1 } ∧
      (Block.service ⟨scb, [], []⟩ .ok).scb = (mvScsiAtaSendSplittedVerifyCommand scb .ok).scb := by
  have hservice : Block.service ⟨scb, [], []⟩ .ok =
      Block.followUp ⟨scb, [], []⟩ (mvScsiAtaSendSplittedVerifyCommand scb .ok) := by
    unfold Block.service
    rcases hop with hop | hop <;> simp only [hop]
  rw [hservice] at hsent ⊢
  exact ⟨(List.singleton_inj.1 hsent).symm, rfl⟩

/-- A command with an address of 28 bits ends not far behind the last one of them. -/
theorem verifyRange_end_le {params : NoneUdmaCommandParams} (hext : params.isEXT = false)
    (hrange : params.verifyRange = some ((start : ℤ), (count : ℤ))) : start + count ≤ 2 ^ 32 := by
  unfold NoneUdmaCommandParams.verifyRange at hrange
  rw [hext, if_neg Bool.false_ne_true] at hrange
  by_cases hmode : params.protocolType ≠ .nonData ∨ params.device &&& 0x40 = 0
  · rw [if_pos hmode] at hrange
    cases hrange
  · rw [if_neg hmode] at hrange
    by_cases hcommand : params.command = 0x40
    · rw [if_pos hcommand] at hrange
      obtain ⟨hstart, hcount⟩ := Prod.mk.inj (Option.some.inj hrange)
      split at hcount <;> omega
    · rw [if_neg hcommand] at hrange
      cases hrange

/-- The sectors of the command for a READ or WRITE. -/
theorem dataCommandInfo_names {sectors : UInt16} (hpos : 0 < sectors.toNat)
    (hnames : (dataCommandInfo drive scb sectors).Names start count) :
    if drive.identifyInfo.lba48Supported then
      start = (dataLba scb).toNat ∧ count = sectors.toNat
    else start = (dataLba scb).toNat % 2 ^ 28 ∧ count ≤ 256 := by
  have hrange : UdmaCommandParams.range
      { readWrite := dataDirection scb
        isEXT := drive.identifyInfo.lba48Supported
        fua := !scb.sixByteData && scb.cmd 1 &&& 0x08 != 0
        lowLBAAddress := dataLba scb
        highLBAAddress := 0
        numOfSectors :=
          if sectors = 256 ∧ drive.identifyInfo.lba48Supported = false then 0 else sectors
        prdLowAddr := scb.prdTableLowPhyAddress
        prdHighAddr := scb.prdTableHighPhyAddress
        singleDataRegion := scb.singleDataRegion
        byteCount := scb.byteCount } = (start, count) := hnames
  unfold UdmaCommandParams.range at hrange
  cases hext : drive.identifyInfo.lba48Supported with
  | true =>
    have hne : sectors ≠ 0 := fun h => by rw [h] at hpos; exact absurd hpos (by decide)
    simp only [hext, if_true, Bool.true_eq_false, and_false, if_false, if_neg hne,
      Prod.mk.injEq] at hrange
    obtain ⟨rfl, rfl⟩ := hrange
    rw [if_pos rfl]
    exact ⟨Nat.zero_add _, rfl⟩
  | false =>
    simp only [hext, Bool.false_eq_true, if_false, Prod.mk.injEq] at hrange
    obtain ⟨hstart, hcount⟩ := hrange
    have hle : ∀ n, (if n % 256 = 0 then 256 else n % 256) ≤ 256 := by
      intro n
      split <;> omega
    rw [if_neg Bool.false_ne_true]
    exact ⟨hstart.symm, hcount ▸ hle _⟩

/-- The commands in progress are UDMA commands or parts of a VERIFY, and their sectors have
addresses of 32 bits. -/
theorem InProgress.kind (hprogress : InProgress drive scb info) :
    (scb.commandType = .udma ∧ scb.continues = false ∨ scb.commandType = .noneUdma ∧
      (scb.opcode = some .verify6 ∨ scb.opcode = some .verify10)) ∧
      ∀ start count, info.Names start count → start + count ≤ 2 ^ 32 := by
  have hsize : ∀ {lba blocks : ℕ}, OnDisk drive lba blocks → lba + blocks ≤ 2 ^ 32 := by
    intro lba blocks hdisk
    have hle := hdisk.2
    rw [lastReportedLba_eq hdisk.1] at hle
    have hlt := drive.identifyInfo.ataDiskSize.toNat_lt
    omega
  induction hprogress with
  | @data scb op isSixByte direction info hop hform hqueued =>
    obtain ⟨hcommand, hopcode, -, sectors, hpos, rfl, hdisk⟩ := dataCommand_queued hqueued
    refine ⟨Or.inl ⟨hcommand, ?_⟩, fun start count hnames => ?_⟩
    · unfold Scb.continues
      rw [hopcode, hop]
      cases op <;> first | rfl | cases hform
    · have hend := hsize hdisk
      have hfields := dataCommandInfo_names hpos hnames
      split at hfields <;> omega
  | @verify scb info hop hqueued =>
    obtain ⟨hcommand, hopcode, hinfo⟩ := verifyCommand_queued hqueued
    refine ⟨Or.inr ⟨hcommand, by rw [hopcode]; exact hop⟩, fun start count hnames => ?_⟩
    rcases hinfo with ⟨rfl, -⟩ | ⟨first, rfl, -⟩
    · obtain ⟨hcount, hrange⟩ := verify_passes (verifyCommand_status hqueued)
      obtain ⟨hlba, hblocks, hpos⟩ := verifyFields_eq hop hcount
      have hdisk := hsize (verify_onDisk hop hcount hrange)
      have hsectors : (if verifyCount scb = 0 then (256 : UInt16) else verifyCount scb).toNat =
          cdbBlocks scb (scb.opcode = some .verify6) := by
        rw [← hblocks]
        split <;> rfl
      have hrange' := verifyExtInfo_range scb (verifyLba scb)
        (verifySectors_ne_zero scb)
      obtain ⟨hstart, hcount⟩ := Prod.mk.inj (Option.some.inj (hrange'.symm.trans hnames))
      omega
    · exact verifyRange_end_le rfl hnames
  | @part scb previous info hprogress hnext hsent ih =>
    obtain ⟨hkind, -⟩ := ih
    have hcontinues := salCommandCompletionCB_eq_none.1 hnext
    rcases hkind with ⟨-, hstops⟩ | ⟨hcommand, hop⟩
    · rw [hcontinues] at hstops
      cases hstops
    · obtain ⟨rfl, hscb⟩ := service_verify_part hop hsent
      rw [hscb]
      exact ⟨Or.inr ⟨hcommand, hop⟩, fun start count hnames => verifyRange_end_le rfl hnames⟩

/-- The address in the sense data of a failed READ, WRITE or VERIFY. -/
theorem failedCommandSense_lba (hprogress : InProgress drive scb info) :
    (failedCommandSense scb registers).lba =
      if readsAddress scb registers then
        bigEndianNat [scb.highLba, registers.lbaHighRegister.toUInt8,
          registers.lbaMidRegister.toUInt8, registers.lbaLowRegister.toUInt8]
      else 0 := by
  unfold failedCommandSense
  rcases hprogress.kind.1 with ⟨hcommand, -⟩ | ⟨hcommand, hop⟩
  · rw [if_pos hcommand]
    exact udmaSense_lba hcommand
  · rw [if_neg (by rw [hcommand]; decide)]
    exact verifySense_lba hop hcommand

/-- The sense data names the failed sector if and only if the error is one of the medium alone and
the kept address has the high byte of the sector (or the sector is the first one of the disk, and
no address is reported). -/
theorem failedCommandSense_lba_eq_iff (hprogress : InProgress drive scb info)
    (hnames : info.Names start count) (hlba : start ≤ lba ∧ lba < start + count)
    (hregs : registers.Reports info.isExtended lba) :
    (failedCommandSense scb registers).lba = lba ↔
      if readsAddress scb registers then scb.lowLbaAddress.toNat / 2 ^ 24 = lba / 2 ^ 24
      else lba = 0 := by
  have hend := hprogress.kind.2 start count hnames
  rw [failedCommandSense_lba hprogress]
  by_cases hreads : readsAddress scb registers = true
  · rw [if_pos hreads, if_pos hreads, information_eq_iff hregs (by omega), highLba_toNat]
  · rw [if_neg hreads, if_neg hreads]
    exact eq_comm

end Progress

/-- A READ of two sectors. -/
def readTwo (lba : List UInt8) : Scb := hostBlock ([0x28, 0] ++ lba ++ [0, 0, 2, 0]) 1024

/-- The registers of a drive that reports an uncorrectable sector. -/
def uncorrectable (low mid high : UInt16) : StorageDeviceRegisters :=
  { errorRegister := 0x40
    lbaLowRegister := low
    lbaMidRegister := mid
    lbaHighRegister := high
    deviceRegister := 0x40 }

/-- A READ of the sectors 16 and 17, of which the second one fails. -/
theorem failedCommandSense_lba_eq_read :
    (failedCommandSense (mvScsiAtaSendDataCommand smallDrive (readTwo [0, 0, 0, 16]) .ok).scb
      (uncorrectable 17 0 0)).lba = 17 := by
  have hprogress : InProgress smallDrive
      (mvScsiAtaSendDataCommand smallDrive (readTwo [0, 0, 0, 16]) .ok).scb
      (dataCommandInfo smallDrive (readTwo [0, 0, 0, 16]) 2) :=
    .data (@rfl _ (readTwo _).opcode) rfl rfl
  have hnames : (dataCommandInfo smallDrive (readTwo [0, 0, 0, 16]) 2).Names 16 2 := rfl
  have hregs : (uncorrectable 17 0 0).Reports false 17 := ⟨rfl, rfl, rfl, rfl⟩
  exact (failedCommandSense_lba_eq_iff hprogress hnames (by decide) hregs).2 (by decide)

/-- A READ of the sectors 0xffffff and 0x1000000, of which the second one fails: it is reported as
sector 0. -/
theorem failedCommandSense_lba_crossing : ∃ info,
    InProgress largeDrive
        (mvScsiAtaSendDataCommand largeDrive (readTwo [0, 0xff, 0xff, 0xff]) .ok).scb info ∧
      info.Names 0xffffff 2 ∧ (uncorrectable 0x100 0 0).Reports info.isExtended 0x1000000 ∧
      (failedCommandSense
        (mvScsiAtaSendDataCommand largeDrive (readTwo [0, 0xff, 0xff, 0xff]) .ok).scb
        (uncorrectable 0x100 0 0)).lba ≠ 0x1000000 := by
  have hregs : (uncorrectable 0x100 0 0).Reports true 0x1000000 :=
    ⟨rfl, rfl, rfl, (⟨rfl, rfl, rfl⟩ : 1 = 1 ∧ 0 = 0 ∧ 0 = 0)⟩
  exact ⟨_, .data (@rfl _ (readTwo _).opcode) rfl rfl, rfl, hregs, by decide⟩

end Mv88fxx81.Sata
