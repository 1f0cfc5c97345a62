import Mathlib.Tactic.IntervalCases
import Mv88fxx81.Lib.Tiling
import Mv88fxx81.Sata.AtaRange
import Mv88fxx81.Sata.Sal

/-!
# The sectors that a VERIFY reads

A VERIFY becomes one command with a 48 bit address, or parts of at most 256 sectors one after the
other. The state of the split (its number of parts, the number of the last part that was sent, the
address of the next one) is kept in the command block. Where a drive has 48 bit addresses, the
number of the last part stays as the memory of the block had it.
-/

namespace Mv88fxx81.Sata

open Tiling

/-- The sectors that a READ VERIFY command is about, `none` for another command. The previous
content of a register is the high byte of its value. -/
def NoneUdmaCommandParams.verifyRange (params : NoneUdmaCommandParams) : Option (ℤ × ℤ) :=
  if params.protocolType ≠ .nonData ∨ params.device &&& 0x40 = 0 then none
  else if params.isEXT then
    if params.command = 0x42 then
      some ((params.lbaHigh.toNat / 256 * 2 ^ 40 + params.lbaMid.toNat / 256 * 2 ^ 32 +
          params.lbaLow.toNat / 256 * 2 ^ 24 + params.lbaHigh.toNat % 256 * 2 ^ 16 +
          params.lbaMid.toNat % 256 * 2 ^ 8 + params.lbaLow.toNat % 256 : ℕ),
        (if params.sectorCount = 0 then 65536 else params.sectorCount.toNat : ℕ))
    else none
  else if params.command = 0x40 then
    some ((params.device.toNat % 16 * 2 ^ 24 + params.lbaHigh.toNat % 256 * 2 ^ 16 +
        params.lbaMid.toNat % 256 * 2 ^ 8 + params.lbaLow.toNat % 256 : ℕ),
      (if params.sectorCount.toNat % 256 = 0 then 256 else params.sectorCount.toNat % 256 : ℕ))
  else none

/-- The sectors that an ATA command verifies. -/
def QueueCommandInfo.verifyRange : QueueCommandInfo → Option (ℤ × ℤ)
  | .udma _ _ => none
  | .noneUdma _ params => params.verifyRange

section Parts

variable {scb : Scb}

/-- A block that goes on has parts left. -/
theorem Scb.lt_of_continues (hcontinues : scb.continues = true) :
    scb.sequenceNumber.toNat < scb.splitCount.toNat := by
  unfold Scb.continues at hcontinues
  rw [Bool.and_eq_true, decide_eq_true_eq, UInt16.lt_iff_toNat_lt] at hcontinues
  exact hcontinues.2

/-- The number of the last part is raised by one, as long as parts are left. -/
theorem sequenceNumber_add_one (hlt : scb.sequenceNumber.toNat < scb.splitCount.toNat) :
    (scb.sequenceNumber + 1).toNat = scb.sequenceNumber.toNat + 1 := by
  have hmax := scb.splitCount.toNat_lt
  rw [UInt16.toNat_add]
  simp only [UInt16.reduceToNat]
  omega

/-- The completion of a part puts the block on the post-interrupt list if parts are left. -/
theorem salCommandCompletionCB_eq_none :
    salCommandCompletionCB scb .normal = none ↔ scb.continues = true := by
  simp only [salCommandCompletionCB]
  by_cases hcontinues : scb.continues = true
  · simp [hcontinues]
  · rw [if_neg hcontinues]
    by_cases hsense : scb.opcode = some .modeSense6 <;> simp [hsense, hcontinues]

/-- The service of a block that goes on raises the number of its last part. -/
theorem service_scb (hcontinues : scb.continues = true) :
    (Block.service ⟨scb, [], []⟩ .ok).scb.splitCount = scb.splitCount ∧
      (Block.service ⟨scb, [], []⟩ .ok).scb.sequenceNumber = scb.sequenceNumber + 1 := by
  unfold Block.service
  cases hop : scb.opcode with
  | none => simp [Scb.continues, hop] at hcontinues
  | some op =>
    unfold Scb.continues at hcontinues
    rw [hop] at hcontinues
    cases op <;> first | exact ⟨rfl, rfl⟩ | cases hcontinues

end Parts

/-- The ATA commands that follow the one in progress, if the core driver accepts all of them and
none of them fails: `SALCommandCompletionCB` puts the block on the post-interrupt list, and
`mvSataScsiPostIntService` sends the next one. -/
def laterCommands (scb : Scb) : List QueueCommandInfo :=
  match _hnext : salCommandCompletionCB scb .normal with
  | some _ => []
  | none =>
    (Block.service ⟨scb, [], []⟩ .ok).outstanding ++
      laterCommands (Block.service ⟨scb, [], []⟩ .ok).scb
termination_by scb.splitCount.toNat - scb.sequenceNumber.toNat
decreasing_by
  have hcontinues := salCommandCompletionCB_eq_none.1 _hnext
  have hlt := Scb.lt_of_continues hcontinues
  obtain ⟨hcount, hnumber⟩ := service_scb hcontinues
  rw [hcount, hnumber, sequenceNumber_add_one hlt]
  omega

/-- A VERIFY is carried out as it should: its commands verify consecutive ranges, which are together
the sectors of the CDB; there is one command on a drive with 48 bit addresses, and else each has
at most 256 sectors. -/
structure VerifiesSectors (drive : DriveData) (scb : Scb) (infos : List QueueCommandInfo) :
    Prop where
  covers : ∃ ranges, infos.map QueueCommandInfo.verifyRange = ranges.map some ∧
    Tiles ranges (cdbLba scb (scb.opcode = some .verify6))
      (cdbLba scb (scb.opcode = some .verify6) + cdbBlocks scb (scb.opcode = some .verify6)) ∧
    (drive.identifyInfo.lba48Supported = false → ∀ range ∈ ranges, range.2 ≤ 256)
  single : drive.identifyInfo.lba48Supported = true → infos.length = 1

section Registers

variable {scb : Scb} {sectors : UInt16}

/-- A field of a word, cut out by a mask and a shift. -/
theorem toNat_field {x mask k : UInt32} {bits : ℕ} (hk : k.toNat < 32)
    (hmask : mask.toNat >>> k.toNat = 2 ^ bits - 1) :
    ((x &&& mask) >>> k).toNat = x.toNat / 2 ^ k.toNat % 2 ^ bits := by
  rw [UInt32.toNat_shiftRight, UInt32.toNat_and, Nat.mod_eq_of_lt hk,
    Nat.shiftRight_and_distrib, hmask, Nat.and_two_pow_sub_one_eq_mod, Nat.shiftRight_eq_div_pow]

/-- The low byte of a word. -/
theorem toNat_lowByte (x : UInt32) : (x &&& 0xff).toNat = x.toNat % 2 ^ 8 := by
  rw [UInt32.toNat_and]
  exact Nat.and_two_pow_sub_one_eq_mod x.toNat 8

/-- The high byte of a word in the place of the second one. -/
theorem toNat_highByte (x : UInt32) :
    ((x &&& 0xff000000) >>> 16).toNat = x.toNat / 2 ^ 24 * 2 ^ 8 := by
  have hmask : x &&& (0xff000000 : UInt32) = (x >>> 24) <<< (24 : UInt32) := by
    apply UInt32.toBitVec_inj.mp
    apply BitVec.eq_of_getLsbD_eq
    intro i hi
    simp only [UInt32.toBitVec_and, UInt32.toBitVec_shiftLeft, UInt32.toBitVec_shiftRight]
    interval_cases i <;> simp
  have hlt := x.toNat_lt
  rw [hmask, UInt32.toNat_shiftRight, UInt32.toNat_shiftLeft, UInt32.toNat_shiftRight,
    Nat.shiftLeft_eq, Nat.shiftRight_eq_div_pow, Nat.shiftRight_eq_div_pow]
  simp only [UInt32.reduceToNat, Nat.reduceMod, Nat.reducePow]
  omega

/-- The device register of a command with an address of 28 bits. -/
theorem deviceRegister_eq {nibble : UInt8} (hlt : nibble.toNat < 16) :
    ((0x40 : UInt8) ||| nibble) &&& 0x40 ≠ 0 ∧
      ((0x40 : UInt8) ||| nibble).toNat % 16 = nibble.toNat := by
  have hmask : ((0x40 : UInt8) ||| nibble) &&& 0x40 = 0x40 := by
    apply UInt8.toBitVec_inj.mp
    apply BitVec.eq_of_getLsbD_eq
    intro i hi
    simp only [UInt8.toBitVec_and, UInt8.toBitVec_or]
    interval_cases i <;> simp
  refine ⟨by rw [hmask]; decide, ?_⟩
  have hlow : nibble.toNat < 2 ^ 6 := by omega
  have hsum := Nat.shiftLeft_add_eq_or_of_lt hlow 1
  rw [UInt8.toNat_or]
  simp only [UInt8.reduceToNat, Nat.reduceShiftLeft] at hsum ⊢
  omega

/-- One part of a split VERIFY is about the sectors from the low 28 bits of the address of the block
on. -/
theorem splittedVerifyInfo_range_mod (scb : Scb) :
    (splittedVerifyInfo scb).verifyRange =
      some (((scb.lowLbaAddress.toNat % 2 ^ 28 : ℕ) : ℤ),
        ((if splittedVerifySectors scb = 0 then 256
          else (splittedVerifySectors scb).toNat : ℕ) : ℤ)) := by
  have hhigh : ((scb.lowLbaAddress &&& 0xf000000) >>> 24).toNat =
      scb.lowLbaAddress.toNat / 2 ^ 24 % 2 ^ 4 := toNat_field (by decide) (by decide)
  have hthird : ((scb.lowLbaAddress &&& 0xff0000) >>> 16).toNat =
      scb.lowLbaAddress.toNat / 2 ^ 16 % 2 ^ 8 := toNat_field (by decide) (by decide)
  have hsecond : ((scb.lowLbaAddress &&& 0xff00) >>> 8).toNat =
      scb.lowLbaAddress.toNat / 2 ^ 8 % 2 ^ 8 := toNat_field (by decide) (by decide)
  have hnibble : ((scb.lowLbaAddress &&& 0xf000000) >>> 24).toUInt8.toNat =
      scb.lowLbaAddress.toNat / 2 ^ 24 % 2 ^ 4 := by
    rw [UInt32.toNat_toUInt8, hhigh]
    omega
  have hsmall : ((scb.lowLbaAddress &&& 0xf000000) >>> 24).toUInt8.toNat < 16 := by omega
  obtain ⟨hmode, hdevice⟩ := deviceRegister_eq hsmall
  have hcount : (splittedVerifySectors scb).toUInt16.toNat = (splittedVerifySectors scb).toNat :=
    UInt8.toNat_toUInt16 _
  have hsectors := (splittedVerifySectors scb).toNat_lt
  have hzero : splittedVerifySectors scb = 0 ↔ (splittedVerifySectors scb).toNat % 256 = 0 := by
    rw [← UInt8.toNat_inj, Nat.mod_eq_of_lt hsectors]
    rfl
  unfold splittedVerifyInfo QueueCommandInfo.verifyRange NoneUdmaCommandParams.verifyRange
  simp only [hmode, hdevice, hnibble, hcount, hzero, UInt32.toNat_toUInt16, hthird, hsecond,
    toNat_lowByte, ne_eq, not_true_eq_false, or_self, if_false, Bool.false_eq_true, if_true,
    Nat.mod_eq_of_lt hsectors]
  congr 2
  omega

/-- One part of a split VERIFY is about the sectors from the address of the block on. -/
theorem splittedVerifyInfo_range (hlba : scb.lowLbaAddress.toNat < 2 ^ 28) :
    (splittedVerifyInfo scb).verifyRange =
      some ((scb.lowLbaAddress.toNat : ℤ),
        ((if splittedVerifySectors scb = 0 then 256
          else (splittedVerifySectors scb).toNat : ℕ) : ℤ)) := by
  rw [splittedVerifyInfo_range_mod, Nat.mod_eq_of_lt hlba]

/-- The command for a drive with 48 bit addresses is about the sectors of the CDB. -/
theorem verifyExtInfo_range (scb : Scb) (lba : UInt32) (hsectors : sectors ≠ 0) :
    (verifyExtInfo scb lba sectors).verifyRange = some ((lba.toNat : ℤ), (sectors.toNat : ℤ)) := by
  have hlt := lba.toNat_lt
  have hthird : ((lba &&& 0xff0000) >>> 16).toNat = lba.toNat / 2 ^ 16 % 2 ^ 8 :=
    toNat_field (by decide) (by decide)
  have hsecond : ((lba &&& 0xff00) >>> 8).toNat = lba.toNat / 2 ^ 8 % 2 ^ 8 :=
    toNat_field (by decide) (by decide)
  have hlow : (((lba &&& 0xff000000) >>> 16) ||| (lba &&& 0xff)).toNat =
      lba.toNat / 2 ^ 24 * 2 ^ 8 + lba.toNat % 2 ^ 8 := by
    have hbyte : lba.toNat % 2 ^ 8 < 2 ^ 8 := Nat.mod_lt _ (by decide)
    rw [UInt32.toNat_or, toNat_highByte, toNat_lowByte, ← Nat.shiftLeft_eq,
      ← Nat.shiftLeft_add_eq_or_of_lt hbyte]
  unfold verifyExtInfo QueueCommandInfo.verifyRange NoneUdmaCommandParams.verifyRange
  simp only [UInt32.toNat_toUInt16, hthird, hsecond, hlow, if_neg hsectors, ne_eq,
    not_true_eq_false, false_or, if_true]
  rw [if_neg (by decide)]
  have hbytes : lba.toNat = lba.toNat / 2 ^ 24 * 2 ^ 24 + lba.toNat / 2 ^ 16 % 2 ^ 8 * 2 ^ 16 +
      lba.toNat / 2 ^ 8 % 2 ^ 8 * 2 ^ 8 + lba.toNat % 2 ^ 8 := by omega
  have hfirst : lba.toNat / 2 ^ 24 < 2 ^ 8 := by omega
  have hthird' := Nat.mod_lt (lba.toNat / 2 ^ 16) (show 0 < 2 ^ 8 by decide)
  have hsecond' := Nat.mod_lt (lba.toNat / 2 ^ 8) (show 0 < 2 ^ 8 by decide)
  have hlow' := Nat.mod_lt lba.toNat (show 0 < 2 ^ 8 by decide)
  refine congrArg some (Prod.ext (congrArg Nat.cast (Eq.trans ?_ hbytes.symm)) rfl)
  generalize lba.toNat / 2 ^ 24 = first at *
  generalize lba.toNat / 2 ^ 16 % 2 ^ 8 = third at *
  generalize lba.toNat / 2 ^ 8 % 2 ^ 8 = second at *
  generalize lba.toNat % 2 ^ 8 = low at *
  have hword : first * 2 ^ 8 + low < 2 ^ 16 := by omega
  have hfirst' : (first * 2 ^ 8 + low) / 256 = first := by omega
  rw [Nat.mod_eq_of_lt (show third < 2 ^ 16 by omega),
    Nat.mod_eq_of_lt (show second < 2 ^ 16 by omega), Nat.mod_eq_of_lt hword, hfirst']
  omega

end Registers

section Split

variable {scb : Scb} {drive : DriveData}

/-- The service of a VERIFY that goes on sends 256 sectors more. -/
theorem service_verify (hop : scb.opcode = some .verify6 ∨ scb.opcode = some .verify10)
    (hnumber : 1 ≤ scb.sequenceNumber.toNat)
    (hlt : scb.sequenceNumber.toNat < scb.splitCount.toNat) :
    Block.service ⟨scb, [], []⟩ .ok =
      { scb :=
          { scb with
            sequenceNumber := scb.sequenceNumber + 1
            lowLbaAddress := scb.lowLbaAddress + 0x100 }
        completions := []
        outstanding :=
          [splittedVerifyInfo { scb with sequenceNumber := scb.sequenceNumber + 1 }] } := by
  have hlater : scb.sequenceNumber + 1 ≠ 1 := by
    intro heq
    have hnext := sequenceNumber_add_one hlt
    rw [heq] at hnext
    simp only [UInt16.reduceToNat] at hnext
    omega
  have hsectors :
      splittedVerifySectors { scb with sequenceNumber := scb.sequenceNumber + 1 } = 0 :=
    if_neg hlater
  have hservice : Block.service ⟨scb, [], []⟩ .ok =
      Block.followUp ⟨scb, [], []⟩ (mvScsiAtaSendSplittedVerifyCommand scb .ok) := by
    unfold Block.service
    rcases hop with hop | hop <;> simp only [hop]
  rw [hservice]
  unfold mvScsiAtaSendSplittedVerifyCommand
  simp only [hsectors, if_true]
  rfl

/-- The parts of a split VERIFY that are left tile the sectors from the address of the block on. -/
theorem laterCommands_tile (hop : scb.opcode = some .verify6 ∨ scb.opcode = some .verify10)
    {n : ℕ} (hnumber : 1 ≤ scb.sequenceNumber.toNat)
    (hleft : scb.splitCount.toNat = scb.sequenceNumber.toNat + n)
    (hfit : scb.lowLbaAddress.toNat + 256 * n ≤ 2 ^ 28) :
    ∃ ranges, (laterCommands scb).map QueueCommandInfo.verifyRange = ranges.map some ∧
      Tiles ranges scb.lowLbaAddress.toNat (scb.lowLbaAddress.toNat + 256 * n : ℕ) ∧
      ∀ range ∈ ranges, range.2 ≤ 256 := by
  induction n generalizing scb with
  | zero =>
    have hstops : ¬ scb.continues = true := by
      intro hcontinues
      have hlt := Scb.lt_of_continues hcontinues
      omega
    have hlast : laterCommands scb = [] := by
      rw [laterCommands]
      split
      next => rfl
      next hnone => exact absurd (salCommandCompletionCB_eq_none.1 hnone) hstops
    rw [hlast]
    exact ⟨[], rfl, rfl, by simp⟩
  | succ n ih =>
    have hlt : scb.sequenceNumber.toNat < scb.splitCount.toNat := by omega
    have hcontinues : scb.continues = true := by
      unfold Scb.continues
      rw [Bool.and_eq_true, decide_eq_true_eq, UInt16.lt_iff_toNat_lt]
      refine ⟨?_, hlt⟩
      rcases hop with hop | hop <;> rw [hop] <;> rfl
    have hnext := sequenceNumber_add_one hlt
    have hlba : (scb.lowLbaAddress + 0x100).toNat = scb.lowLbaAddress.toNat + 256 := by
      rw [UInt32.toNat_add]
      simp only [UInt32.reduceToNat]
      omega
    have hservice := service_verify hop hnumber hlt
    have hunfold : laterCommands scb =
        splittedVerifyInfo { scb with sequenceNumber := scb.sequenceNumber + 1 } ::
          laterCommands { scb with
            sequenceNumber := scb.sequenceNumber + 1
            lowLbaAddress := scb.lowLbaAddress + 0x100 } := by
      conv_lhs => rw [laterCommands]
      split
      next hsome =>
        rw [salCommandCompletionCB_eq_none.2 hcontinues] at hsome
        cases hsome
      next => rw [hservice]; rfl
    obtain ⟨ranges, hranges, htiles, hsmall⟩ := @ih
      { scb with
        sequenceNumber := scb.sequenceNumber + 1
        lowLbaAddress := scb.lowLbaAddress + 0x100 }
      hop (by dsimp only; omega) (by dsimp only; omega) (by dsimp only; omega)
    have hlater : scb.sequenceNumber + 1 ≠ 1 := by
      intro heq
      rw [heq] at hnext
      simp only [UInt16.reduceToNat] at hnext
      omega
    have hsectors :
        splittedVerifySectors { scb with sequenceNumber := scb.sequenceNumber + 1 } = 0 :=
      if_neg hlater
    have hfirst : (splittedVerifyInfo
        { scb with sequenceNumber := scb.sequenceNumber + 1 }).verifyRange =
        some ((scb.lowLbaAddress.toNat : ℤ), 256) := by
      rw [splittedVerifyInfo_range (by dsimp only; omega), hsectors]
      rfl
    refine ⟨(scb.lowLbaAddress.toNat, 256) :: ranges, ?_,
      ⟨rfl, show (0 : ℤ) ≤ 256 by decide, ?_⟩, ?_⟩
    · rw [hunfold, List.map_cons, List.map_cons, hfirst, hranges]
    · dsimp only at htiles
      rw [hlba] at htiles
      have hstop : scb.lowLbaAddress.toNat + 256 + 256 * n =
          scb.lowLbaAddress.toNat + 256 * (n + 1) := by omega
      rw [hstop, Nat.cast_add] at htiles
      exact htiles
    · intro range hmem
      rcases List.mem_cons.1 hmem with rfl | hmem
      · exact Int.le_refl _
      · exact hsmall range hmem

/-- What the code reads from the CDB of a VERIFY. -/
theorem verifyFields_eq (hop : scb.opcode = some .verify6 ∨ scb.opcode = some .verify10)
    (hcount : ¬ (verifyCount scb = 0 ∧ scb.opcode = some .verify10)) :
    (verifyLba scb).toNat = cdbLba scb (scb.opcode = some .verify6) ∧
      (if verifyCount scb = 0 then 256 else (verifyCount scb).toNat) =
        cdbBlocks scb (scb.opcode = some .verify6) ∧
      0 < cdbBlocks scb (scb.opcode = some .verify6) := by
  unfold verifyLba verifyCount at *
  rcases hop with hop | hop
  · simp only [hop, if_true, decide_true]
    have hzero : (scb.cmd 4).toUInt16 = 0 ↔ scb.cmd 4 = 0 := by
      rw [← UInt16.toNat_inj, ← UInt8.toNat_inj]
      rfl
    refine ⟨lba6_toNat, by rw [cdbBlocks]; simp only [hzero]; rfl, ?_⟩
    unfold cdbBlocks
    split
    next =>
      split
      next => decide
      next hne => exact Nat.pos_of_ne_zero fun h => hne (UInt8.toNat_inj.1 h)
    next hfalse => exact absurd rfl hfalse
  · have hverify6 : ¬ (some ScsiOpcode.verify10 = some ScsiOpcode.verify6) := by decide
    have hform : decide (some ScsiOpcode.verify10 = some ScsiOpcode.verify6) = false := rfl
    simp only [hop, if_neg hverify6, and_true, hform] at hcount ⊢
    rw [if_neg hcount]
    refine ⟨lba10_toNat, count10_toNat, ?_⟩
    rw [← count10_toNat]
    exact Nat.pos_of_ne_zero fun h => hcount (UInt16.toNat_inj.1 h)

/-- The sectors of a VERIFY that passes the test are on the disk. -/
theorem verify_onDisk (hop : scb.opcode = some .verify6 ∨ scb.opcode = some .verify10)
    (hcount : ¬ (verifyCount scb = 0 ∧ scb.opcode = some .verify10))
    (hrange : verifyOutOfRange drive scb = false) :
    OnDisk drive (cdbLba scb (scb.opcode = some .verify6))
      (cdbBlocks scb (scb.opcode = some .verify6)) := by
  obtain ⟨hlba, hblocks, hpos⟩ := verifyFields_eq hop hcount
  have hsectors : (if verifyCount scb = 0 then (256 : UInt32)
      else (verifyCount scb).toUInt32).toNat = cdbBlocks scb (scb.opcode = some .verify6) := by
    rw [← hblocks]
    split <;> rfl
  rw [← hlba, ← hsectors]
  exact (checkLBAOutOfRange_eq_false (by rw [hsectors]; exact hpos)).1 hrange

/-- A VERIFY for which a command is sent asks for sectors and passes the test. -/
theorem verify_passes {result : QueueCommandResult}
    (hqueued : (mvScsiAtaSendVerifyCommand drive scb result).status = .queued) :
    ¬ (verifyCount scb = 0 ∧ scb.opcode = some .verify10) ∧ verifyOutOfRange drive scb = false := by
  have hcount : ¬ (verifyCount scb = 0 ∧ scb.opcode = some .verify10) := by
    intro hzero
    unfold mvScsiAtaSendVerifyCommand at hqueued
    rw [if_pos hzero] at hqueued
    split at hqueued <;> cases hqueued
  refine ⟨hcount, ?_⟩
  rw [← Bool.not_eq_true]
  intro hout
  unfold mvScsiAtaSendVerifyCommand at hqueued
  rw [if_neg hcount, if_pos hout] at hqueued
  cases hqueued

/-- The number of parts, rounded up. -/
theorem verifyCommands_toNat {sectors : UInt16} :
    (verifyCommands sectors).toNat =
      ((if sectors = 0 then 256 else sectors.toNat) + 255) / 256 := by
  unfold verifyCommands
  by_cases hzero : sectors = 0
  · rw [if_pos hzero, if_pos hzero]
    rfl
  · have hlt := sectors.toNat_lt
    have hsum : (sectors.toUInt32 + 0xff).toNat = sectors.toNat + 255 := by
      rw [UInt32.toNat_add, UInt16.toNat_toUInt32]
      simp only [UInt32.reduceToNat]
      omega
    have hfield : (((sectors.toUInt32 + 0xff) &&& 0x1ff00) >>> 8).toNat =
        (sectors.toUInt32 + 0xff).toNat / 2 ^ 8 % 2 ^ 9 := toNat_field (by decide) (by decide)
    rw [if_neg hzero, if_neg hzero, UInt32.toNat_toUInt16, hfield, hsum]
    omega

/-- The first part takes what the other ones, of 256 sectors each, do not. -/
theorem firstPart_eq (hop : scb.opcode = some .verify6 ∨ scb.opcode = some .verify10)
    (hcount : ¬ (verifyCount scb = 0 ∧ scb.opcode = some .verify10)) {first : Scb}
    (hfirst : first.sequenceNumber = 1) (hopcode : first.opcode = scb.opcode)
    (hcdb : ∀ i, first.cmd i = scb.cmd i) :
    (if splittedVerifySectors first = 0 then 256 else (splittedVerifySectors first).toNat) +
        256 * ((verifyCommands (verifyCount scb)).toNat - 1) =
      cdbBlocks scb (scb.opcode = some .verify6) := by
  obtain ⟨-, hblocks, hpos⟩ := verifyFields_eq hop hcount
  rw [verifyCommands_toNat, hblocks]
  unfold splittedVerifySectors
  rw [if_pos hfirst, hopcode, hcdb, hcdb]
  rcases hop with hop | hop
  · rw [if_pos hop]
    simp only [hop, decide_true] at hpos ⊢
    have hlt := (scb.cmd 4).toNat_lt
    unfold cdbBlocks at hpos ⊢
    simp only [if_true] at hpos ⊢
    by_cases hzero : scb.cmd 4 = 0
    · simp [hzero]
    · simp only [if_neg hzero] at hpos ⊢
      omega
  · have hverify6 : ¬ scb.opcode = some .verify6 := by
      rw [hop]
      decide
    rw [if_neg hverify6]
    simp only [hverify6, decide_false] at hpos ⊢
    have hlow := (scb.cmd 8).toNat_lt
    have hhigh := (scb.cmd 7).toNat_lt
    have hbytes : cdbBlocks scb false = 256 * (scb.cmd 7).toNat + (scb.cmd 8).toNat := by
      simp [cdbBlocks, Bytes.bigEndianNat]
    rw [hbytes] at hpos ⊢
    by_cases hzero : scb.cmd 8 = 0
    · rw [if_pos hzero]
      rw [hzero] at hpos ⊢
      simp only [UInt8.reduceToNat] at hpos ⊢
      omega
    · have hne : (scb.cmd 8).toNat ≠ 0 := fun h => hzero (UInt8.toNat_inj.1 h)
      rw [if_neg hzero]
      omega

/-- A VERIFY on a drive with 28 bit addresses is carried out in parts. -/
theorem splitVerify_verifies (hop : scb.opcode = some .verify6 ∨ scb.opcode = some .verify10)
    (hdrive : drive.Addressable) (hext : drive.identifyInfo.lba48Supported = false)
    (hcount : ¬ (verifyCount scb = 0 ∧ scb.opcode = some .verify10))
    (hrange : verifyOutOfRange drive scb = false) :
    VerifiesSectors drive scb
      ((mvScsiAtaSendVerifyCommand drive scb .ok).queued.toList ++
        laterCommands (mvScsiAtaSendVerifyCommand drive scb .ok).scb) := by
  obtain ⟨hlba, hblocks, hpos⟩ := verifyFields_eq hop hcount
  have hdisk := verify_onDisk hop hcount hrange
  have hfit : cdbLba scb (scb.opcode = some .verify6) +
      cdbBlocks scb (scb.opcode = some .verify6) ≤ 2 ^ 28 := by
    have hsize := hdrive hext
    rw [← lastReportedLba_eq hdisk.1] at hsize
    exact Nat.le_trans hdisk.2 hsize
  obtain ⟨first, hfirst⟩ : ∃ first : Scb, first = { scb with
      commandType := .noneUdma
      lowLbaAddress := verifyLba scb
      splitCount := verifyCommands (verifyCount scb)
      sequenceNumber := 1
      isExtended := false } := ⟨_, rfl⟩
  have hnumber : first.sequenceNumber = 1 := by rw [hfirst]
  have hopcode : first.opcode = scb.opcode := by
    rw [hfirst]
    rfl
  have hparts := firstPart_eq hop hcount hnumber hopcode (by rw [hfirst]; exact fun _ => rfl)
  have hfirstLba : first.lowLbaAddress.toNat = cdbLba scb (scb.opcode = some .verify6) := by
    rw [hfirst]
    exact hlba
  have hreply : mvScsiAtaSendVerifyCommand drive scb .ok =
      FollowUp.reply
        { scb :=
            { first with
              lowLbaAddress := first.lowLbaAddress +
                if splittedVerifySectors first = 0 then 0x100
                else (splittedVerifySectors first).toUInt32 }
          completions := []
          queued := some (splittedVerifyInfo first) } drive .queued := by
    unfold mvScsiAtaSendVerifyCommand
    rw [if_neg hcount, hrange, hext, hfirst]
    rfl
  obtain ⟨sectors, hsectors⟩ : ∃ sectors : ℕ, sectors =
      if splittedVerifySectors first = 0 then 256 else (splittedVerifySectors first).toNat :=
    ⟨_, rfl⟩
  rw [← hsectors] at hparts
  have hnext : (first.lowLbaAddress + if splittedVerifySectors first = 0 then 0x100
      else (splittedVerifySectors first).toUInt32).toNat = first.lowLbaAddress.toNat + sectors := by
    have hadvance : (if splittedVerifySectors first = 0 then (0x100 : UInt32)
        else (splittedVerifySectors first).toUInt32).toNat = sectors := by
      rw [hsectors]
      split <;> rfl
    rw [UInt32.toNat_add, hadvance]
    omega
  have hcommands : 1 ≤ (verifyCommands (verifyCount scb)).toNat := by
    rw [verifyCommands_toNat, hblocks]
    omega
  have hsplit : first.splitCount = verifyCommands (verifyCount scb) := by rw [hfirst]
  obtain ⟨ranges, hranges, htiles, hsmall⟩ := @laterCommands_tile
    { first with
      lowLbaAddress := first.lowLbaAddress + if splittedVerifySectors first = 0 then 0x100
        else (splittedVerifySectors first).toUInt32 }
    (by rw [← hopcode] at hop; exact hop) ((verifyCommands (verifyCount scb)).toNat - 1)
    (by dsimp only; rw [hnumber]; decide)
    (by dsimp only; rw [hsplit, hnumber]; simp only [UInt16.reduceToNat]; omega)
    (by dsimp only; rw [hnext]; omega)
  have hinfo : (splittedVerifyInfo first).verifyRange =
      some ((first.lowLbaAddress.toNat : ℤ), (sectors : ℤ)) := by
    rw [hsectors]
    exact splittedVerifyInfo_range (by omega)
  rw [hreply]
  refine ⟨⟨(first.lowLbaAddress.toNat, sectors) :: ranges, ?_, ?_, ?_⟩, ?_⟩
  · rw [List.map_cons, ← hranges, ← hinfo]
    rfl
  · dsimp only at htiles
    rw [hnext] at htiles
    refine ⟨congrArg Nat.cast hfirstLba, by omega, ?_⟩
    dsimp only
    rw [← hfirstLba, ← hparts]
    have hstop : first.lowLbaAddress.toNat + sectors +
        256 * ((verifyCommands (verifyCount scb)).toNat - 1) = first.lowLbaAddress.toNat +
        (sectors + 256 * ((verifyCommands (verifyCount scb)).toNat - 1)) := by omega
    rw [hstop, Nat.cast_add, Nat.cast_add] at htiles
    exact htiles
  · intro _ range hmem
    rcases List.mem_cons.1 hmem with rfl | hmem
    · have hbyte := (splittedVerifySectors first).toNat_lt
      dsimp only
      rw [hsectors]
      split <;> omega
    · exact hsmall range hmem
  · intro hother
    rw [hext] at hother
    cases hother

/-- A VERIFY on a drive with 48 bit addresses is carried out by one command, unless the memory of
its block had a zero where the number of the last part is. -/
theorem extVerify_verifies_iff (hop : scb.opcode = some .verify6 ∨ scb.opcode = some .verify10)
    (hext : drive.identifyInfo.lba48Supported = true)
    (hcount : ¬ (verifyCount scb = 0 ∧ scb.opcode = some .verify10))
    (hrange : verifyOutOfRange drive scb = false) :
    VerifiesSectors drive scb
      ((mvScsiAtaSendVerifyCommand drive scb .ok).queued.toList ++
        laterCommands (mvScsiAtaSendVerifyCommand drive scb .ok).scb) ↔
      scb.sequenceNumber ≠ 0 := by
  obtain ⟨hlba, hblocks, hpos⟩ := verifyFields_eq hop hcount
  obtain ⟨sectors, hsectors⟩ : ∃ sectors : UInt16, sectors =
      if verifyCount scb = 0 then 256 else verifyCount scb := ⟨_, rfl⟩
  have hsectors' : sectors.toNat = cdbBlocks scb (scb.opcode = some .verify6) := by
    rw [← hblocks, hsectors]
    split <;> rfl
  obtain ⟨sent, hsent⟩ : ∃ sent : Scb, sent = { scb with
      commandType := .noneUdma
      lowLbaAddress := verifyLba scb
      splitCount := 1
      isExtended := true } := ⟨_, rfl⟩
  have hqueued : (mvScsiAtaSendVerifyCommand drive scb .ok).queued =
      some (verifyExtInfo scb (verifyLba scb) sectors) := by
    unfold mvScsiAtaSendVerifyCommand
    rw [if_neg hcount, hrange, hext, hsectors]
    rfl
  have hscb : (mvScsiAtaSendVerifyCommand drive scb .ok).scb = sent := by
    unfold mvScsiAtaSendVerifyCommand
    rw [if_neg hcount, hrange, hext, hsent]
    rfl
  have hcontinues : sent.continues = true ↔ scb.sequenceNumber = 0 := by
    have hopcode : sent.opcode = scb.opcode := by
      rw [hsent]
      rfl
    have hsplit : sent.opcode.any ScsiOpcode.isSplit = true := by
      rw [hopcode]
      rcases hop with hop | hop <;> rw [hop] <;> rfl
    unfold Scb.continues
    rw [hsplit, Bool.true_and, decide_eq_true_eq, UInt16.lt_iff_toNat_lt, ← UInt16.toNat_inj, hsent]
    simp only [UInt16.reduceToNat]
    omega
  rw [hqueued, hscb]
  constructor
  · intro hverifies hzero
    have hsingle := hverifies.single hext
    have hnone := salCommandCompletionCB_eq_none.2 (hcontinues.2 hzero)
    have hmore : 0 < (laterCommands sent).length := by
      rw [laterCommands]
      split
      next hsome =>
        rw [hnone] at hsome
        cases hsome
      next =>
        have hservice : (Block.service ⟨sent, [], []⟩ .ok).outstanding.length = 1 := by
          have hopcode : sent.opcode = scb.opcode := by
            rw [hsent]
            rfl
          unfold Block.service
          rcases hop with hop | hop <;> simp only [hopcode, hop] <;> rfl
        rw [List.length_append, hservice]
        omega
    rw [List.length_append] at hsingle
    simp only [Option.toList_some, List.length_singleton] at hsingle
    omega
  · intro hnumber
    have hlast : laterCommands sent = [] := by
      rw [laterCommands]
      split
      next => rfl
      next hnone => exact absurd (hcontinues.1 (salCommandCompletionCB_eq_none.1 hnone)) hnumber
    rw [hlast]
    have hne : sectors ≠ 0 := by
      intro hzero
      rw [hzero] at hsectors'
      rw [← hsectors'] at hpos
      exact absurd hpos (by decide)
    refine ⟨⟨[((verifyLba scb).toNat, sectors.toNat)], ?_, ⟨?_, by omega, ?_⟩, ?_⟩, fun _ => rfl⟩
    · simp [verifyExtInfo_range scb (verifyLba scb) hne]
    · exact congrArg Nat.cast hlba
    · dsimp only
      rw [hsectors']
      rfl
    · intro hother
      rw [hext] at hother
      cases hother

/-- The commands of a VERIFY that is sent verify its sectors if and only if the drive has no 48 bit
addresses, or the memory of the block had no zero where the number of the last part is. -/
theorem mvScsiAtaSendVerifyCommand_verifies_iff
    (hop : scb.opcode = some .verify6 ∨ scb.opcode = some .verify10)
    (hdrive : drive.Addressable)
    (hqueued : (mvScsiAtaSendVerifyCommand drive scb .ok).status = .queued) :
    VerifiesSectors drive scb
      ((mvScsiAtaSendVerifyCommand drive scb .ok).queued.toList ++
        laterCommands (mvScsiAtaSendVerifyCommand drive scb .ok).scb) ↔
      drive.identifyInfo.lba48Supported = false ∨ scb.sequenceNumber ≠ 0 := by
  obtain ⟨hcount, hrange⟩ := verify_passes hqueued
  cases hext : drive.identifyInfo.lba48Supported with
  | false => exact iff_of_true (splitVerify_verifies hop hdrive hext hcount hrange) (Or.inl rfl)
  | true =>
    rw [extVerify_verifies_iff hop hext hcount hrange]
    simp

end Split

/-- A VERIFY of 300 sectors in two parts. -/
theorem mvScsiAtaSendVerifyCommand_verifies_parts :
    VerifiesSectors smallDrive (hostBlock [0x2F, 0, 0, 0, 0, 16, 0, 1, 44, 0] 0)
      ((mvScsiAtaSendVerifyCommand smallDrive
          (hostBlock [0x2F, 0, 0, 0, 0, 16, 0, 1, 44, 0] 0) .ok).queued.toList ++
        laterCommands (mvScsiAtaSendVerifyCommand smallDrive
          (hostBlock [0x2F, 0, 0, 0, 0, 16, 0, 1, 44, 0] 0) .ok).scb) :=
  (mvScsiAtaSendVerifyCommand_verifies_iff (Or.inr rfl) (by decide) rfl).2 (Or.inl rfl)

/-- A drive with 48 bit addresses. -/
def largeDrive : DriveData :=
  { smallDrive with
    identifyInfo :=
      { smallDrive.identifyInfo with lba48Supported := true, ataDiskSize := 0x20000000 } }

/-- A VERIFY of 300 sectors on a drive with 48 bit addresses, in a block whose memory was zero: a
second command follows, for 44 sectors. -/
theorem mvScsiAtaSendVerifyCommand_repeats :
    ¬ VerifiesSectors largeDrive (hostBlock [0x2F, 0, 0, 0, 0, 16, 0, 1, 44, 0] 0)
      ((mvScsiAtaSendVerifyCommand largeDrive
          (hostBlock [0x2F, 0, 0, 0, 0, 16, 0, 1, 44, 0] 0) .ok).queued.toList ++
        laterCommands (mvScsiAtaSendVerifyCommand largeDrive
          (hostBlock [0x2F, 0, 0, 0, 0, 16, 0, 1, 44, 0] 0) .ok).scb) := by
  intro hverifies
  have hsingle := hverifies.single rfl
  have hnone : salCommandCompletionCB (mvScsiAtaSendVerifyCommand largeDrive
      (hostBlock [0x2F, 0, 0, 0, 0, 16, 0, 1, 44, 0] 0) .ok).scb .normal = none := rfl
  rw [laterCommands] at hsingle
  split at hsingle
  next hsome =>
    rw [hnone] at hsome
    cases hsome
  next =>
    rw [List.length_append, List.length_append] at hsingle
    have hfirst : (mvScsiAtaSendVerifyCommand largeDrive
        (hostBlock [0x2F, 0, 0, 0, 0, 16, 0, 1, 44, 0] 0) .ok).queued.toList.length = 1 := rfl
    have hsecond : (Block.service ⟨(mvScsiAtaSendVerifyCommand largeDrive
        (hostBlock [0x2F, 0, 0, 0, 0, 16, 0, 1, 44, 0] 0) .ok).scb, [], []⟩
        .ok).outstanding.length = 1 := rfl
    omega

end Mv88fxx81.Sata
