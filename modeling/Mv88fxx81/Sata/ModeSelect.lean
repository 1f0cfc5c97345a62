import Mv88fxx81.Lib.Bytes
import Mv88fxx81.Sata.ParameterList
import Mv88fxx81.Sata.VerifyCoverage

/-!
# MODE SELECT

A caching page is accepted if its unchangeable fields are as MODE SENSE reports them and if the
drive can do what it asks for, and its settings are then requested from the drive by SET FEATURES
commands. Together with the parser of the parameter list this says what a MODE SELECT does.
-/

namespace Mv88fxx81.Sata

open Bytes

section CachingPage

variable {contents : DriveContents} {drive : DriveData} {page : List UInt8} {scb : Scb}
  {result : QueueCommandResult}

theorem pageCode_iff {byte : UInt8} (hcode : byte &&& 0x3f = 0x08) :
    byte &&& 0xc0 = 0 ↔ byte = 0x08 := by
  revert hcode
  exact byte_induction (P := fun byte => byte &&& 0x3f = 0x08 → (byte &&& 0xc0 = 0 ↔ byte = 0x08))
    (by decide +kernel) byte

/-- A field of which no bit can be changed. -/
theorem fixedField_iff {byte value : UInt8} :
    byte &&& ~~~0 = value &&& ~~~0 ↔ byte = value := by
  simp

/-- The write cache bit, where it can be changed and where it cannot. -/
theorem writeCacheField_iff (byte : UInt8) :
    (byte ||| 0x04 = 0x04 ↔ byte &&& ~~~0x04 = 0) ∧
      (byte = 0 ↔ byte ||| 0x04 = 0x04 ∧ byte &&& 0x04 = 0) :=
  byte_induction (P := fun byte => (byte ||| 0x04 = 0x04 ↔ byte &&& ~~~0x04 = 0) ∧
    (byte = 0 ↔ byte ||| 0x04 = 0x04 ∧ byte &&& 0x04 = 0))
    (by decide +kernel) byte

/-- The look-ahead bit, where it can be changed and where it cannot. -/
theorem lookAheadField_iff (byte : UInt8) :
    (byte ||| 0x20 = 0x20 ↔ byte &&& ~~~0x20 = 0) ∧
      (byte = 0x20 ↔ byte ||| 0x20 = 0x20 ∧ byte &&& 0x20 ≠ 0) :=
  byte_induction (P := fun byte => (byte ||| 0x20 = 0x20 ↔ byte &&& ~~~0x20 = 0) ∧
    (byte = 0x20 ↔ byte ||| 0x20 = 0x20 ∧ byte &&& 0x20 ≠ 0))
    (by decide +kernel) byte

/-- The fields that no drive can change. -/
def fixedFields : List (ℕ × UInt8) :=
  [(3, 0), (4, 0xff), (5, 0xff), (6, 0), (7, 0), (8, 0), (9, 0x10), (10, 0), (11, 0x10), (13, 0x01),
    (14, 0xff), (15, 0xff), (16, 0), (17, 0), (18, 0), (19, 0)]

/-- A page is as `mvParseModeCachingPage` compares it. -/
theorem cachingPageInvalid_eq_false (hframe : CachingFrame page) :
    cachingPageInvalid (fun i => page.getD i 0) = false ↔
      page.getD 0 0 = 0x08 ∧ page.getD 2 0 ||| 0x04 = 0x04 ∧ page.getD 12 0 ||| 0x20 = 0x20 ∧
        ∀ field ∈ fixedFields, page.getD field.1 0 = field.2 := by
  have hcode := pageCode_iff hframe.code
  have hlength := hframe.pageLength
  simp only [cachingPageInvalid, fixedFields, Bool.or_eq_false_iff, bne_eq_false_iff_eq,
    List.forall_mem_cons, List.not_mem_nil, IsEmpty.forall_iff, implies_true, hcode, hlength]
  tauto

/-- MODE SENSE reports the fixed fields as they are compared, and as not changeable. -/
theorem fixedFields_sense : ∀ field ∈ fixedFields, (field.1 < 20 ∧ 2 ≤ field.1) ∧
    (mvModeSenseCachingPage contents drive 0).getD field.1 0 = field.2 ∧
    (mvModeSenseCachingPage contents drive 1).getD field.1 0 = 0 := by
  simp only [fixedFields, List.forall_mem_cons, List.not_mem_nil, IsEmpty.forall_iff, implies_true,
    and_true]
  refine ⟨?_, ?_, ?_, ?_, ?_, ?_, ?_, ?_, ?_, ?_, ?_, ?_, ?_, ?_, ?_, ?_⟩ <;>
    exact ⟨by decide, rfl, rfl⟩

/-- The write cache bit is the one bit of its field that a drive may be able to change. -/
theorem writeCache_sense :
    (mvModeSenseCachingPage contents drive 1).getD 2 0 =
        (if drive.identifyInfo.writeCacheSupported then 0x04 else 0) ∧
      (mvModeSenseCachingPage contents drive 0).getD 2 0 &&&
          ~~~(mvModeSenseCachingPage contents drive 1).getD 2 0 = 0 := by
  have hcurrent : (mvModeSenseCachingPage contents drive 0).getD 2 0 =
      if drive.identifyInfo.writeCacheSupported && contents.identifyWord85 &&& 0x20 != 0 then 0x04
      else 0 := rfl
  have hchangeable : (mvModeSenseCachingPage contents drive 1).getD 2 0 =
      if drive.identifyInfo.writeCacheSupported then 0x04 else 0 := rfl
  rw [hcurrent, hchangeable]
  refine ⟨rfl, ?_⟩
  cases drive.identifyInfo.writeCacheSupported with
  | false =>
    rw [Bool.false_and]
    rfl
  | true =>
    rw [Bool.true_and]
    split <;> rfl

/-- The look-ahead bit is the one bit of its field that a drive may be able to change. -/
theorem lookAhead_sense :
    (mvModeSenseCachingPage contents drive 1).getD 12 0 =
        (if drive.identifyInfo.readAheadSupported then 0x20 else 0) ∧
      (mvModeSenseCachingPage contents drive 0).getD 12 0 &&&
          ~~~(mvModeSenseCachingPage contents drive 1).getD 12 0 =
        if drive.identifyInfo.readAheadSupported then 0 else 0x20 := by
  have hcurrent : (mvModeSenseCachingPage contents drive 0).getD 12 0 =
      if !(drive.identifyInfo.readAheadSupported && contents.identifyWord85 &&& 0x40 != 0) then 0x20
      else 0 := rfl
  have hchangeable : (mvModeSenseCachingPage contents drive 1).getD 12 0 =
      if drive.identifyInfo.readAheadSupported then 0x20 else 0 := rfl
  rw [hcurrent, hchangeable]
  refine ⟨rfl, ?_⟩
  cases drive.identifyInfo.readAheadSupported with
  | false =>
    rw [Bool.false_and]
    rfl
  | true =>
    rw [Bool.true_and]
    split <;> rfl

/-- The fields of a page that a drive keeps, field by field. -/
theorem carriesCurrent_iff :
    CarriesCurrent (mvModeSenseCachingPage contents drive 0)
        (mvModeSenseCachingPage contents drive 1) page ↔
      page.getD 2 0 &&& ~~~(if drive.identifyInfo.writeCacheSupported then 0x04 else 0) = 0 ∧
        (page.getD 12 0 &&& ~~~(if drive.identifyInfo.readAheadSupported then 0x20 else 0) =
          if drive.identifyInfo.readAheadSupported then 0 else 0x20) ∧
        ∀ field ∈ fixedFields, page.getD field.1 0 = field.2 := by
  obtain ⟨hwrite, hwriteCurrent⟩ := @writeCache_sense contents drive
  obtain ⟨hahead, haheadCurrent⟩ := @lookAhead_sense contents drive
  constructor
  · intro hcurrent
    refine ⟨?_, ?_, fun field hmem => ?_⟩
    · have h := hcurrent 2 (by omega) (by omega)
      rwa [hwriteCurrent, hwrite] at h
    · have h := hcurrent 12 (by omega) (by omega)
      rwa [haheadCurrent, hahead] at h
    · obtain ⟨⟨hlt, hle⟩, hvalue, hfixed⟩ := fixedFields_sense field hmem
      have h := hcurrent field.1 hlt hle
      rw [hvalue, hfixed] at h
      exact fixedField_iff.1 h
  · rintro ⟨hcache, hlook, hfields⟩ i hlt hle
    by_cases htwo : i = 2
    · rw [htwo, hwriteCurrent, hwrite]
      exact hcache
    · by_cases htwelve : i = 12
      · rw [htwelve, haheadCurrent, hahead]
        exact hlook
      · obtain ⟨value, hmem⟩ : ∃ value, (i, value) ∈ fixedFields := by
          have hall : ∀ i < 20, 2 ≤ i → i ≠ 2 → i ≠ 12 →
              fixedFields.any (fun field => field.1 == i) = true := by decide
          obtain ⟨⟨j, value⟩, hmem, heq⟩ := List.any_eq_true.1 (hall i hlt hle htwo htwelve)
          obtain rfl : j = i := beq_iff_eq.1 heq
          exact ⟨value, hmem⟩
        obtain ⟨-, hvalue, hfixed⟩ := @fixedFields_sense contents drive (i, value) hmem
        dsimp only at hvalue hfixed
        rw [hvalue, hfixed]
        exact fixedField_iff.2 (hfields (i, value) hmem)

/-- The write cache bit is as it can be: any, or zero where the drive has no write cache. -/
theorem writeCache_allowed (supported : Bool) (byte : UInt8) :
    byte &&& ~~~(if supported then 0x04 else 0) = 0 ↔
      byte ||| 0x04 = 0x04 ∧ ¬ ((byte &&& 0x04 != 0) = true ∧ supported = false) := by
  obtain ⟨hmasked, hzero⟩ := writeCacheField_iff byte
  cases supported with
  | true => simp [← hmasked]
  | false =>
    have hfixed : byte &&& ~~~(if false = true then 0x04 else 0) = 0 ↔ byte = 0 := by simp
    rw [hfixed, hzero]
    simp

/-- The look-ahead bit is as it can be: any, or set where the drive has no look-ahead. -/
theorem lookAhead_allowed (supported : Bool) (byte : UInt8) :
    (byte &&& ~~~(if supported then 0x20 else 0) = if supported then 0 else 0x20) ↔
      byte ||| 0x20 = 0x20 ∧ ¬ ((byte &&& 0x20 != 0) = false ∧ supported = false) := by
  obtain ⟨hmasked, hset⟩ := lookAheadField_iff byte
  cases supported with
  | true => simp [← hmasked]
  | false =>
    have hfixed : (byte &&& ~~~(if false = true then 0x20 else 0) =
        if false = true then 0 else 0x20) ↔ byte = 0x20 := by simp
    rw [hfixed, hset]
    simp

/-- A page is valid for a drive if it passes the comparisons of `mvParseModeCachingPage` and asks
for nothing that the drive does not support. -/
theorem validCachingPage_iff (hframe : CachingFrame page) :
    ValidCachingPage contents drive page ↔
      cachingPageInvalid (fun i => page.getD i 0) = false ∧
        ¬ (disablesLookAhead (fun i => page.getD i 0) = false ∧
          drive.identifyInfo.readAheadSupported = false) ∧
        ¬ (enablesWriteCache (fun i => page.getD i 0) = true ∧
          drive.identifyInfo.writeCacheSupported = false) := by
  have hiff : ValidCachingPage contents drive page ↔ page.getD 0 0 = 0x08 ∧
      CarriesCurrent (mvModeSenseCachingPage contents drive 0)
        (mvModeSenseCachingPage contents drive 1) page :=
    ⟨fun h => ⟨h.code_eq, h.carriesCurrent⟩, fun h => ⟨hframe, h.1, h.2⟩⟩
  rw [hiff, carriesCurrent_iff, writeCache_allowed, lookAhead_allowed,
    cachingPageInvalid_eq_false hframe]
  constructor
  · rintro ⟨hcode, ⟨hwrite, hcache⟩, ⟨hlook, hahead⟩, hfields⟩
    exact ⟨⟨hcode, hwrite, hlook, hfields⟩, hahead, hcache⟩
  · rintro ⟨⟨hcode, hwrite, hlook, hfields⟩, hahead, hcache⟩
    exact ⟨hcode, ⟨hwrite, hcache⟩, ⟨hlook, hahead⟩, hfields⟩

end CachingPage

/-- The ATA commands for a block, if the core driver accepts them all and none of them fails. -/
def requestedCommands (reply : Reply) : List QueueCommandInfo :=
  match reply.queued with
  | none => []
  | some info => info :: laterCommands reply.scb

section Request

variable {contents : DriveContents} {drive : DriveData} {page : List UInt8} {scb : Scb}
  {result : QueueCommandResult}

/-- `mvParseModeCachingPage` looks at twenty bytes only. -/
theorem mvParseModeCachingPage_congr {f g : ℕ → UInt8} (hpage : ∀ i < 20, f i = g i) :
    mvParseModeCachingPage drive scb f result = mvParseModeCachingPage drive scb g result := by
  have hinvalid : cachingPageInvalid f = cachingPageInvalid g := by
    unfold cachingPageInvalid
    rw [hpage 0 (by omega), hpage 1 (by omega), hpage 2 (by omega), hpage 3 (by omega),
      hpage 4 (by omega), hpage 5 (by omega), hpage 6 (by omega), hpage 7 (by omega),
      hpage 8 (by omega), hpage 9 (by omega), hpage 10 (by omega), hpage 11 (by omega),
      hpage 12 (by omega), hpage 13 (by omega), hpage 14 (by omega), hpage 15 (by omega),
      hpage 16 (by omega), hpage 17 (by omega), hpage 18 (by omega), hpage 19 (by omega)]
  have hahead : disablesLookAhead f = disablesLookAhead g := by
    unfold disablesLookAhead
    rw [hpage 12 (by omega)]
  have hcache : enablesWriteCache f = enablesWriteCache g := by
    unfold enablesWriteCache
    rw [hpage 2 (by omega)]
  unfold mvParseModeCachingPage
  rw [hinvalid, hahead, hcache]

/-- A page that is not valid for the drive is refused. -/
theorem mvParseModeCachingPage_invalid (contents : DriveContents) (hframe : CachingFrame page)
    (hinvalid : ¬ ValidCachingPage contents drive page) :
    ∃ error, mvParseModeCachingPage drive scb (fun i => page.getD i 0) result = .error error := by
  rw [validCachingPage_iff hframe] at hinvalid
  unfold mvParseModeCachingPage
  dsimp only
  by_cases hfields : cachingPageInvalid (fun i => page.getD i 0) = true
  · exact ⟨_, by rw [if_pos hfields]⟩
  · by_cases hahead : disablesLookAhead (fun i => page.getD i 0) = false ∧
        drive.identifyInfo.readAheadSupported = false
    · exact ⟨_, by rw [if_neg hfields, if_pos hahead]⟩
    · have hcache : enablesWriteCache (fun i => page.getD i 0) = true ∧
          drive.identifyInfo.writeCacheSupported = false := by
        by_contra hcache
        exact hinvalid ⟨Bool.not_eq_true _ ▸ hfields, hahead, hcache⟩
      exact ⟨_, by rw [if_neg hfields, if_neg hahead, if_pos hcache.1, if_pos hcache.2]⟩

/-- No commands follow the last one. -/
theorem laterCommands_eq_nil (hcount : scb.splitCount ≤ scb.sequenceNumber) :
    laterCommands scb = [] := by
  have hcontinues : scb.continues = false := by
    unfold Scb.continues
    rw [decide_eq_false (UInt16.not_lt.2 hcount), Bool.and_false]
  rw [laterCommands]
  split
  · rfl
  · rename_i hnext
    rw [salCommandCompletionCB_eq_none, hcontinues] at hnext
    cases hnext

/-- The look-ahead is set after the write cache. -/
theorem laterCommands_lookAhead (hop : scb.opcode = some .modeSelect6) (hcount : scb.splitCount = 2)
    (hnumber : scb.sequenceNumber = 1) :
    laterCommands scb = [setFeaturesInfo scb (if scb.lowLbaAddress = 0 then 0x55 else 0xAA)] := by
  have hcontinues : scb.continues = true := by
    simp only [Scb.continues, hop, hcount, hnumber]
    decide
  have hservice : Block.service ⟨scb, [], []⟩ .ok =
      Block.followUp ⟨scb, [], []⟩ (mvScsiAtaSendReadLookAhead scb .ok) := by
    rw [Block.service, hop]
  rw [laterCommands]
  split
  · rename_i hnext
    rw [salCommandCompletionCB_eq_none.2 hcontinues] at hnext
    cases hnext
  · have hlast : laterCommands (Block.service ⟨scb, [], []⟩ .ok).scb = [] := by
      refine laterCommands_eq_nil ?_
      rw [(service_scb hcontinues).1, (service_scb hcontinues).2, hcount, hnumber]
      decide
    rw [hlast, hservice]
    rfl

/-- The commands that follow the one for the write cache. -/
theorem laterCommands_writeCache {supported disables : Bool} (hop : scb.opcode = some .modeSelect6)
    (hcount : scb.splitCount = if supported then 2 else 1) (hnumber : scb.sequenceNumber = 1)
    (hlba : scb.lowLbaAddress = if disables then 0 else 1) :
    laterCommands scb =
      (if supported then [if disables then 0x55 else 0xAA] else []).map (setFeaturesInfo scb) := by
  cases supported with
  | true =>
    rw [laterCommands_lookAhead hop hcount hnumber, hlba]
    cases disables <;> rfl
  | false =>
    refine laterCommands_eq_nil ?_
    rw [hcount, hnumber]
    decide

/-- The block with which the settings of a page are requested. -/
def selectBlock (drive : DriveData) (scb : Scb) (page : List UInt8) : Scb :=
  { scb with
    splitCount := if drive.identifyInfo.readAheadSupported then 2 else 1
    sequenceNumber := 1
    lowLbaAddress := if disablesLookAhead fun i => page.getD i 0 then 0 else 1 }

/-- The write cache is set first. -/
theorem mvParseModeCachingPage_writeCache (hvalid : ValidCachingPage contents drive page)
    (hwrite : drive.identifyInfo.writeCacheSupported = true) :
    mvParseModeCachingPage drive scb (fun i => page.getD i 0) result =
      .ok (queueOrFinish drive { selectBlock drive scb page with commandType := .noneUdma }
        (setFeaturesInfo scb (if page.getD 2 0 &&& 0x04 != 0 then 0x02 else 0x82)) result) := by
  obtain ⟨hfields, hahead, hcache⟩ := (validCachingPage_iff hvalid.toCachingFrame).1 hvalid
  have hsupported : ¬ drive.identifyInfo.writeCacheSupported = false := by
    rw [hwrite]
    simp
  unfold mvParseModeCachingPage
  dsimp only
  rw [if_neg (by rw [hfields]; exact Bool.false_ne_true), if_neg hahead]
  by_cases henable : enablesWriteCache (fun i => page.getD i 0) = true
  · have hbit : (page.getD 2 0 &&& 0x04 != 0) = true := henable
    rw [if_pos henable, if_neg hsupported, hbit]
    rfl
  · have hbit : (page.getD 2 0 &&& 0x04 != 0) = false := Bool.not_eq_true _ ▸ henable
    rw [if_neg henable, if_pos hwrite, hbit]
    rfl

/-- On a drive without a write cache, the look-ahead is set at once. -/
theorem mvParseModeCachingPage_lookAhead (hvalid : ValidCachingPage contents drive page)
    (hwrite : drive.identifyInfo.writeCacheSupported = false) :
    mvParseModeCachingPage drive scb (fun i => page.getD i 0) result =
      .ok (if drive.identifyInfo.readAheadSupported then
        (mvScsiAtaSendReadLookAhead { selectBlock drive scb page with splitCount := 1 }
          result).reply drive .queued
      else
        finish drive { selectBlock drive scb page with
          splitCount := 0
          dataTransfered := 0
          scsiCommandCompletion := .success
          scsiStatus := .good }) := by
  obtain ⟨hfields, hahead, hcache⟩ := (validCachingPage_iff hvalid.toCachingFrame).1 hvalid
  have henable : ¬ enablesWriteCache (fun i => page.getD i 0) = true := fun h => hcache ⟨h, hwrite⟩
  unfold mvParseModeCachingPage selectBlock
  dsimp only
  rw [if_neg (by rw [hfields]; exact Bool.false_ne_true), if_neg hahead, if_neg henable,
    if_neg (by rw [hwrite]; exact Bool.false_ne_true)]
  cases drive.identifyInfo.readAheadSupported with
  | true =>
    rw [if_pos (show (if true = true then (2 : UInt16) else 1) - 1 = 1 from rfl), if_pos rfl]
    rfl
  | false =>
    rw [if_neg (show ¬ (if false = true then (2 : UInt16) else 1) - 1 = 1 by decide),
      if_neg Bool.false_ne_true]
    rfl

/-- A page that is valid for the drive is accepted. -/
theorem mvParseModeCachingPage_accepted (hvalid : ValidCachingPage contents drive page) :
    ∃ reply, mvParseModeCachingPage drive scb (fun i => page.getD i 0) result = .ok reply := by
  cases hwrite : drive.identifyInfo.writeCacheSupported with
  | true => exact ⟨_, mvParseModeCachingPage_writeCache hvalid hwrite⟩
  | false => exact ⟨_, mvParseModeCachingPage_lookAhead hvalid hwrite⟩

/-- The settings of a page that is valid for the drive are requested. -/
theorem mvParseModeCachingPage_requests {reply : Reply} (hop : scb.opcode = some .modeSelect6)
    (hvalid : ValidCachingPage contents drive page)
    (hok : mvParseModeCachingPage drive scb (fun i => page.getD i 0) .ok = .ok reply) :
    requestedCommands reply = (pageFeatures drive page).map (setFeaturesInfo scb) := by
  have hdisables : disablesLookAhead (fun i => page.getD i 0) =
      (page.getD 12 0 &&& 0x20 != 0) := rfl
  cases hwrite : drive.identifyInfo.writeCacheSupported with
  | true =>
    rw [mvParseModeCachingPage_writeCache hvalid hwrite] at hok
    cases hok
    have hlater : laterCommands { selectBlock drive scb page with commandType := .noneUdma } = _ :=
      laterCommands_writeCache hop rfl rfl rfl
    rw [hdisables] at hlater
    rw [pageFeatures, hwrite, if_pos rfl, List.map_append, List.map_singleton]
    exact congrArg (setFeaturesInfo scb _ :: ·) hlater
  | false =>
    rw [mvParseModeCachingPage_lookAhead hvalid hwrite] at hok
    cases hok
    rw [pageFeatures, hwrite, if_neg Bool.false_ne_true, List.nil_append]
    cases hlook : drive.identifyInfo.readAheadSupported with
    | true =>
      have hlast : laterCommands { selectBlock drive scb page with
          splitCount := 1
          commandType := .noneUdma
          sequenceNumber := 1 + 1 } = [] :=
        laterCommands_eq_nil (show (1 : UInt16) ≤ 1 + 1 by decide)
      have hfeatures : (if (if page.getD 12 0 &&& 0x20 != 0 then (0 : UInt32) else 1) = 0
          then (0x55 : UInt16) else 0xAA) =
            if page.getD 12 0 &&& 0x20 != 0 then 0x55 else 0xAA := by
        cases page.getD 12 0 &&& 0x20 != 0 <;> rfl
      rw [if_pos rfl, if_pos rfl, List.map_singleton, ← hfeatures]
      exact congrArg (setFeaturesInfo scb _ :: ·) hlast
    | false =>
      rw [if_neg Bool.false_ne_true, if_neg Bool.false_ne_true]
      rfl

end Request

section Select

variable {contents : DriveContents} {drive : DriveData} {scb : Scb} {bytes behind : List UInt8}
  {pages : List (List UInt8)} {page : List UInt8} {result : QueueCommandResult}

/-- The last caching page is one. -/
theorem lastCachingPage_frame (hframes : ∀ page ∈ pages, PageFrame page)
    (hpage : lastCachingPage pages = some page) : CachingFrame page := by
  obtain ⟨hmem, hcode⟩ := List.mem_filter.1 (List.mem_of_getLast? hpage)
  rcases hframes page hmem with hframe | rfl
  · exact hframe
  · cases hcode

/-- The last caching page as it stands in memory. -/
theorem memory_page {cache : ℕ} (hbuffer : scb.pDataBuffer = bytes ++ behind)
    (hat : (bytes.drop cache).take 20 = page) (hend : cache + 20 ≤ bytes.length) :
    ∀ i < 20, scb.pDataBuffer.getD (cache + i) 0 = page.getD i 0 := by
  intro i hi
  rw [hbuffer, List.getD_append _ _ _ _ (by omega), ← hat, List.getD_eq_getElem?_getD,
    List.getD_eq_getElem?_getD, List.getElem?_take_of_lt hi, List.getElem?_drop]

/-- A list is accepted only if it follows the grammar. -/
theorem parameterList_of_modeSelect {reply : Reply} (contents : DriveContents)
    (hbuffer : scb.pDataBuffer = bytes ++ behind)
    (hlength : scb.dataBufferLength.toNat = bytes.length)
    (hok : modeSelect drive scb result = .ok reply) :
    selectFlags scb = true ∧ ∃ last, ParameterList contents drive bytes last := by
  unfold modeSelect at hok
  cases hlist : modeParameterList scb with
  | error error =>
    rw [hlist] at hok
    cases hok
  | ok position =>
    refine ⟨selectFlags_of_modeParameterList hlist, ?_⟩
    by_cases hempty : bytes = []
    · exact ⟨none, hempty ▸ .empty⟩
    · obtain ⟨-, descriptor, pages, cache, hdescriptor, hframes, hbytes, hlast, hposition⟩ :=
        grammar_of_modeParameterList hbuffer hlength hempty hlist
      refine ⟨lastCachingPage pages, hbytes ▸ .header hdescriptor hframes ?_⟩
      cases hlast with
      | none hnone hcache =>
        rw [hnone]
        exact fun _ hmem => by cases hmem
      | @some page hpage hat hpos hend =>
        have hframe := lastCachingPage_frame hframes hpage
        rw [hpage]
        rintro _ ⟨⟩
        by_contra hinvalid
        obtain ⟨error, herror⟩ : ∃ error,
            mvParseModeCachingPage drive scb (fun i => page.getD i 0) result = .error error :=
          mvParseModeCachingPage_invalid contents hframe hinvalid
        rw [hlist, hposition, if_neg (by omega)] at hok
        dsimp only at hok
        rw [mvParseModeCachingPage_congr (memory_page hbuffer hat hend), herror] at hok
        cases hok

/-- What is done with a list that follows the grammar. -/
theorem modeSelect_of_parameterList {last : Option (List UInt8)} (result : QueueCommandResult)
    (hop : scb.opcode = some .modeSelect6) (hbuffer : scb.pDataBuffer = bytes ++ behind)
    (hlength : scb.dataBufferLength.toNat = bytes.length) (hflags : selectFlags scb = true)
    (hlist : ParameterList contents drive bytes last) :
    (∃ reply, modeSelect drive scb result = .ok reply) ∧
      ∀ reply, modeSelect drive scb .ok = .ok reply →
        requestedCommands reply =
          (last.elim [] (pageFeatures drive)).map (setFeaturesInfo scb) := by
  have hnothing : modeParameterList scb = .ok none →
      (∃ reply, modeSelect drive scb result = .ok reply) ∧
        ∀ reply, modeSelect drive scb .ok = .ok reply → requestedCommands reply = [] := by
    intro hnone
    unfold modeSelect
    rw [hnone]
    refine ⟨⟨_, rfl⟩, fun reply hreply => ?_⟩
    cases hreply
    rfl
  cases hlist with
  | empty => exact hnothing (modeParameterList_empty hlength hflags)
  | @header descriptor pages hdescriptor hframes hvalid =>
    obtain ⟨cache, hlast, hparse⟩ :=
      modeParameterList_of_grammar hbuffer hlength hflags hdescriptor hframes rfl
    cases hlast with
    | none hnone hcache =>
      rw [hnone]
      exact hnothing (by rw [hparse, if_pos hcache])
    | @some page hpage hat hpos hend =>
      rw [hpage] at hvalid ⊢
      have hpageValid := hvalid page rfl
      have hselect : ∀ result, modeSelect drive scb result =
          mvParseModeCachingPage drive scb (fun i => page.getD i 0) result := by
        intro result
        unfold modeSelect
        rw [hparse, if_neg (by omega)]
        exact mvParseModeCachingPage_congr (memory_page hbuffer hat hend)
      rw [hselect, hselect]
      exact ⟨mvParseModeCachingPage_accepted hpageValid,
        fun reply hreply => mvParseModeCachingPage_requests hop hpageValid hreply⟩

/-- A MODE SELECT does what its parameter list asks for: the list is accepted if it follows the
grammar, the settings of the last caching page are requested, and a list that is rejected changes
nothing. -/
structure SelectsByGrammar (contents : DriveContents) (drive : DriveData) (scb : Scb)
    (bytes : List UInt8) : Prop where
  accepts_iff : ∀ result, (∃ reply, modeSelect drive scb result = .ok reply) ↔
    selectFlags scb = true ∧ ∃ last, ParameterList contents drive bytes last
  requests : ∀ last reply, ParameterList contents drive bytes last →
    modeSelect drive scb .ok = .ok reply →
      mvScsiAtaModeSelect drive scb .ok = reply ∧
        requestedCommands reply = (last.elim [] (pageFeatures drive)).map (setFeaturesInfo scb)
  rejects : ∀ result error, modeSelect drive scb result = .error error →
    (mvScsiAtaModeSelect drive scb result).queued = none ∧
      (mvScsiAtaModeSelect drive scb result).drive = drive ∧
      ∃ answer, (mvScsiAtaModeSelect drive scb result).completions = [answer] ∧
        answer.scsiStatus = .checkCondition
  reads_inside : ∀ i ∈ modeSelectReads scb, ReadsInside bytes i

/-- The parameter lists of a MODE SELECT, of any length and with any bytes behind them. -/
theorem modeSelect_selectsByGrammar (contents : DriveContents) (drive : DriveData)
    (hop : scb.opcode = some .modeSelect6) (hbuffer : scb.pDataBuffer = bytes ++ behind)
    (hlength : scb.dataBufferLength.toNat = bytes.length) :
    SelectsByGrammar contents drive scb bytes := by
  refine ⟨fun result => ⟨?_, ?_⟩, ?_, ?_, ?_⟩
  · rintro ⟨reply, hok⟩
    exact parameterList_of_modeSelect contents hbuffer hlength hok
  · rintro ⟨hflags, last, hlist⟩
    exact (modeSelect_of_parameterList result hop hbuffer hlength hflags hlist).1
  · intro last reply hlist hok
    have hflags := (parameterList_of_modeSelect contents hbuffer hlength hok).1
    refine ⟨by rw [mvScsiAtaModeSelect, hok], ?_⟩
    exact (modeSelect_of_parameterList .ok hop hbuffer hlength hflags hlist).2 reply hok
  · intro result error herror
    rw [mvScsiAtaModeSelect, herror]
    exact ⟨rfl, rfl, _, rfl, rfl⟩
  · exact fun i hmem => modeSelectReads_inside hbuffer hlength hmem

end Select

/-- A MODE SELECT with a parameter list. -/
def selectScb (flags : UInt8) (bytes : List UInt8) : Scb :=
  { hostBlock [0x15, flags, 0, 0, UInt8.ofNat bytes.length, 0] (UInt32.ofNat bytes.length) with
    pDataBuffer := bytes }

/-- A caching page that enables the write cache and the look-ahead. -/
def enablingPage : List UInt8 :=
  [0x08, 0x12, 0x04, 0, 0xff, 0xff, 0, 0, 0, 0x10, 0, 0x10, 0, 0x01, 0xff, 0xff, 0, 0, 0, 0]

/-- A list with a caching page and a control page. -/
theorem modeSelect_selectsByGrammar_pages :
    SelectsByGrammar unnamedContents smallDrive
      (selectScb 0x10 ([0, 0, 0, 0] ++ enablingPage ++ currentControlPage))
      ([0, 0, 0, 0] ++ enablingPage ++ currentControlPage) :=
  modeSelect_selectsByGrammar unnamedContents smallDrive rfl (List.append_nil _).symm rfl

/-- The empty list is accepted, and so is one whose first caching page has a field that cannot be
changed with another value; a valid list is refused if the CDB does not have its page format
bit. -/
theorem modeSelect_not_strict :
    (∃ reply, modeSelect smallDrive (selectScb 0x10 []) .ok = .ok reply ∧
      ¬ StrictParameterList unnamedContents smallDrive []) ∧
    (∃ reply, modeSelect smallDrive
        (selectScb 0x10 ([0, 0, 0, 0] ++ enablingPage.set 3 1 ++ enablingPage)) .ok = .ok reply ∧
      ¬ StrictParameterList unnamedContents smallDrive
        ([0, 0, 0, 0] ++ enablingPage.set 3 1 ++ enablingPage)) ∧
    ∃ error, modeSelect smallDrive (selectScb 0 [0, 0, 0, 0]) .ok = .error error := by
  refine ⟨⟨_, rfl, ?_⟩, ⟨_, rfl, ?_⟩, ⟨_, rfl⟩⟩
  · rintro ⟨descriptor, pages, -, -, hbytes⟩
    cases hbytes
  · rintro ⟨descriptor, pages, rfl | rfl, hpages, hbytes⟩
    · cases pages with
      | nil => cases hbytes
      | cons page pages =>
        rcases hpages page List.mem_cons_self with hvalid | rfl
        · have hpage : page = enablingPage.set 3 1 := by
            have htake := congrArg (fun bytes : List UInt8 => (bytes.drop 4).take 20) hbytes
            have hleft : (page ++ pages.flatten).take 20 = page := List.take_left' hvalid.length_eq
            exact hleft.symm.trans htake.symm
          have hfield := hvalid.carriesCurrent 3 (by omega) (by omega)
          rw [hpage] at hfield
          exact absurd hfield (by decide)
        · have hcode := congrArg (fun bytes : List UInt8 => bytes.getD 4 0) hbytes
          cases hcode
    · have hsize := congrArg (fun bytes : List UInt8 => bytes.getD 3 0) hbytes
      cases hsize

end Mv88fxx81.Sata
