import Mathlib.Data.Fintype.Basic
import Mv88fxx81.Lib.Attention
import Mv88fxx81.Sata.Smart

/-!
# Unit attention

A drive with pending events is a unit in the sense of the library: raising is
`mvSataScsiNotifyUA`, a report is the answer to a command, and the work is to
call the handler of an operation, where INQUIRY and REQUEST SENSE are exempt, or
to pass a SMART command through, which is exempt as well.
-/

namespace Mv88fxx81.Sata

open TransitionSystem Attention

instance : Fintype UaEvent :=
  ⟨{.reset, .paramsChanged}, by intro event; cases event <;> decide⟩

/-- The reset is reported before the changed parameters. -/
def UaEvent.rank : UaEvent → ℕ
  | .reset => 0
  | .paramsChanged => 1

instance : LE UaEvent := ⟨fun a b => a.rank ≤ b.rank⟩

instance (a b : UaEvent) : Decidable (a ≤ b) := inferInstanceAs (Decidable (a.rank ≤ b.rank))

/-- The events whose bits are set. -/
def eventsOf (bits : UInt8) : Finset UaEvent :=
  Finset.univ.filter fun event => bits &&& event.bit ≠ 0

/-- The bits of a byte that has no other bits than those of the two events. -/
theorem eventBits_cases {bits : UInt8} (h : bits &&& 3 = bits) :
    bits = 0 ∨ bits = 1 ∨ bits = 2 ∨ bits = 3 := by
  have hall : ∀ x : BitVec 8, x &&& 3 = x → x = 0 ∨ x = 1 ∨ x = 2 ∨ x = 3 := by decide
  rcases hall bits.toBitVec (congrArg UInt8.toBitVec h) with h | h | h | h
  · exact Or.inl (UInt8.toBitVec_inj.mp h)
  · exact Or.inr (Or.inl (UInt8.toBitVec_inj.mp h))
  · exact Or.inr (Or.inr (Or.inl (UInt8.toBitVec_inj.mp h)))
  · exact Or.inr (Or.inr (Or.inr (UInt8.toBitVec_inj.mp h)))

/-- The mask of an adapter is one of the two that the driver sets. -/
def MaskSet (mask : UInt8) : Prop := mask = 0xFF ∨ mask = 0x01

/-- The flag and the event bits of a drive agree: only bits of masked events are set, and
the flag is set just if one is. -/
structure Coherent (mask : UInt8) (drive : DriveData) : Prop where
  bits : drive.uaEvents &&& 3 = drive.uaEvents
  masked : drive.uaEvents &&& mask = drive.uaEvents
  flag : drive.uaConditionPending = true ↔ drive.uaEvents ≠ 0

/-- The first of the events whose bits are set: it is one of them, it comes before the others,
and clearing its bit leaves the others. -/
theorem eventBits_first {bits : UInt8} (h : bits &&& 3 = bits) (hne : bits ≠ 0) :
    ∃ event, (if bits &&& UaEvent.reset.bit ≠ 0 then some UaEvent.reset
        else if bits &&& UaEvent.paramsChanged.bit ≠ 0 then some .paramsChanged else none) =
          some event ∧
      event ∈ eventsOf bits ∧ (∀ other ∈ eventsOf bits, event ≤ other) ∧
      (bits &&& ~~~event.bit) &&& 3 = bits &&& ~~~event.bit ∧
      eventsOf (bits &&& ~~~event.bit) = (eventsOf bits).erase event := by
  rcases eventBits_cases h with rfl | rfl | rfl | rfl
  · exact absurd rfl hne
  · exact ⟨.reset, by decide⟩
  · exact ⟨.paramsChanged, by decide⟩
  · exact ⟨.reset, by decide⟩

/-- The events of a coherent drive that has an event pending, as those of its bits. -/
theorem Coherent.firstEvent {mask : UInt8} {drive : DriveData} (h : Coherent mask drive)
    (hpending : drive.uaConditionPending = true) :
    ∃ event, drive.firstEvent = some event ∧ event ∈ eventsOf drive.uaEvents ∧
      (∀ other ∈ eventsOf drive.uaEvents, event ≤ other) ∧
      Coherent mask (drive.clearEvent (some event)) ∧
      eventsOf (drive.clearEvent (some event)).uaEvents =
        (eventsOf drive.uaEvents).erase event := by
  obtain ⟨event, hfirst, hmem, hleast, hbits, herase⟩ :=
    eventBits_first h.bits (h.flag.mp hpending)
  refine ⟨event, hfirst, hmem, hleast, ⟨hbits, ?_, ?_⟩, herase⟩
  · show (drive.uaEvents &&& ~~~event.bit) &&& mask = drive.uaEvents &&& ~~~event.bit
    rw [UInt8.and_assoc, UInt8.and_comm (~~~event.bit) mask, ← UInt8.and_assoc, h.masked]
  · show (if drive.uaEvents &&& ~~~event.bit = 0 then false else drive.uaConditionPending) = true ↔
      drive.uaEvents &&& ~~~event.bit ≠ 0
    by_cases hzero : drive.uaEvents &&& ~~~event.bit = 0
    · simp [hzero]
    · simp [hzero, hpending]

/-- A coherent drive whose flag is not set has no event pending. -/
theorem Coherent.idle {mask : UInt8} {drive : DriveData} (h : Coherent mask drive)
    (hpending : drive.uaConditionPending = false) : eventsOf drive.uaEvents = ∅ := by
  have hzero : drive.uaEvents = 0 := by
    by_contra hne
    rw [h.flag.mpr hne] at hpending
    cases hpending
  rw [hzero]
  decide

/-- Sense data of the fixed format, without information. -/
def fixedSense (key asc ascq : UInt8) : List UInt8 :=
  [0x70, 0, key, 0, 0, 0, 0, 10, 0, 0, 0, 0, asc, ascq, 0, 0, 0, 0]

/-- The sense data of an event: a unit attention with the code and the qualifier of the event. -/
def UaEvent.fixedSense : UaEvent → List UInt8
  | .reset => Sata.fixedSense 0x06 0x29 2
  | .paramsChanged => Sata.fixedSense 0x06 0x2A 1

/-- The sense data that REQUEST SENSE hands over, for the event it reports. -/
def requestedSense : Option UaEvent → List UInt8
  | none => fixedSense 0 0 0
  | some event => event.fixedSense

/-- The answer hands over sense data in the data buffer of the block: as much as the buffer
takes, with zeros behind it. -/
structure SenseReturned (sense : List UInt8) (scb answer : Scb) : Prop where
  status : answer.scsiStatus = .good
  completion : answer.scsiCommandCompletion = .success
  transfered : answer.dataTransfered.toNat = min 18 scb.dataBufferLength.toNat
  data : answer.pDataBuffer = sense.take scb.dataBufferLength.toNat ++
    List.replicate (scb.dataBufferLength.toNat - 18) 0 ++
      scb.pDataBuffer.drop scb.dataBufferLength.toNat

/-- The answer reports an event with a check condition: the sense data stands in the sense
buffer of the block, as much as the buffer takes. -/
structure CheckCondition (event : UaEvent) (scb answer : Scb) : Prop where
  status : answer.scsiStatus = .checkCondition
  completion : answer.scsiCommandCompletion = event.completion
  transfered : answer.dataTransfered = 0
  length : answer.senseDataLength.toNat = min 18 scb.senseBufferLength.toNat
  sense : answer.pSenseBuffer = event.fixedSense.take scb.senseBufferLength.toNat ++
    scb.pSenseBuffer.drop (min 18 scb.senseBufferLength.toNat)

/-- What a command's answers say of the events: REQUEST SENSE hands over the sense data of the
event it reports, any other report is a check condition with the event's own completion code
and sense data, no other answer has such a code, and what is not executed gives the drive
nothing to do. -/
structure Reports (scb : Scb) (reply : Reply) : Prop where
  sense : reply.executed = some .requestSense6 → ∃ answer, reply.completions = [answer] ∧
    SenseReturned (requestedSense reply.reported) scb answer
  attention : reply.executed ≠ some .requestSense6 → ∀ event, reply.reported = some event →
    ∃ answer, reply.completions = [answer] ∧ CheckCondition event scb answer
  only : reply.executed ≠ some .requestSense6 → ∀ answer ∈ reply.completions, ∀ event : UaEvent,
    answer.scsiCommandCompletion = event.completion → reply.reported = some event
  idle : reply.executed = none ∨ reply.reported.isSome → reply.queued = none

section Answers

/-- The bytes of the sense data that the layer gives on its own. -/
theorem senseData_bytes (key : SenseKey) (asc : AdditionalSense) (ascq : UInt8) :
    (senseData key asc ascq).bytes = fixedSense key.code asc.code ascq := rfl

/-- The length of the sense data that fits a buffer, as the handlers compute it. -/
theorem senseLength_toNat (length : UInt32) :
    (if length ≥ 18 then 18 else length : UInt32).toNat = min 18 length.toNat := by
  have h18 : (18 : UInt32).toNat = 18 := rfl
  split
  · rename_i hge
    have hle : 18 ≤ length.toNat := by simpa [UInt32.le_iff_toNat_le] using hge
    omega
  · rename_i hlt
    have hle : ¬ 18 ≤ length.toNat := by simpa [UInt32.le_iff_toNat_le] using hlt
    omega

/-- The same for the sense buffer, where the comparison is the other way. -/
theorem senseSize_toNat (length : UInt32) :
    (if length < 18 then length else 18 : UInt32).toNat = min 18 length.toNat := by
  rw [← senseLength_toNat, ← ite_not]
  simp only [ge_iff_le, UInt32.not_lt]

/-- Sense data has eighteen bytes, so that it is cut there anyway. -/
theorem fixedSense_take (key asc ascq : UInt8) (length : ℕ) :
    (fixedSense key asc ascq).take (min 18 length) = (fixedSense key asc ascq).take length := by
  rw [Nat.min_comm]
  exact (List.take_eq_take_min (l := fixedSense key asc ascq)).symm

/-- Copying sense data to the start of a buffer. -/
theorem copyBytes_fixedSense (buffer : List UInt8) (key asc ascq : UInt8) (length : ℕ) :
    copyBytes buffer (fixedSense key asc ascq) (min 18 length) =
      (fixedSense key asc ascq).take length ++ buffer.drop (min 18 length) := by
  have hlength : ((fixedSense key asc ascq).take (min 18 length)).length = min 18 length := by
    rw [List.length_take]
    show min _ 18 = _
    omega
  rw [copyBytes, hlength, fixedSense_take]

/-- The answer of REQUEST SENSE hands over its sense data. -/
theorem requestSenseAnswer_returned (scb : Scb) (key : SenseKey) (asc : AdditionalSense)
    (ascq : UInt8) :
    SenseReturned (fixedSense key.code asc.code ascq) scb
      (requestSenseAnswer scb (senseData key asc ascq)) := by
  have hkept : scb.clearData.dataBufferLength = scb.dataBufferLength := rfl
  have hcleared : scb.clearData.pDataBuffer = List.replicate scb.dataBufferLength.toNat 0 ++
      scb.pDataBuffer.drop scb.dataBufferLength.toNat := rfl
  refine ⟨rfl, rfl, senseLength_toNat _, ?_⟩
  show copyBytes scb.clearData.pDataBuffer (senseData key asc ascq).bytes _ = _
  rw [senseData_bytes, senseLength_toNat, hkept, copyBytes_fixedSense, hcleared,
    List.drop_append_of_le_length (by rw [List.length_replicate]; omega), List.drop_replicate,
    List.append_assoc]
  congr 3
  omega

/-- The answer that reports an event is a check condition with the sense data of the event. -/
theorem report_checkCondition (event : UaEvent) (scb : Scb) :
    CheckCondition event scb
      { event.report scb with scsiStatus := .checkCondition, dataTransfered := 0 } := by
  have hsense : event.fixedSense = fixedSense event.sense.senseKey.code
      event.sense.additionalSenseCode.code event.sense.additionalSenseCodeQualifier := by
    cases event <;> rfl
  unfold UaEvent.report setSenseData
  dsimp only
  by_cases hzero : scb.senseBufferLength = 0
  · rw [if_pos hzero]
    refine ⟨rfl, rfl, rfl, ?_, ?_⟩ <;> simp [hzero]
  · rw [if_neg hzero]
    refine ⟨rfl, rfl, rfl, senseSize_toNat _, ?_⟩
    show copyBytes scb.pSenseBuffer (senseData _ _ _).bytes _ = _
    rw [senseData_bytes, senseSize_toNat, copyBytes_fixedSense, hsense]

end Answers

/-- A completion code that reports no unit attention. -/
def ScsiCompletion.plain : ScsiCompletion → Bool
  | .uaReset | .uaParamsChanged => false
  | _ => true

/-- A reply that has nothing to do with the unit attention of the drive. -/
structure Quiet (drive : DriveData) (reply : Reply) : Prop where
  drive_eq : reply.drive = drive
  reported : reply.reported = none
  plain : ∀ answer ∈ reply.completions, answer.scsiCommandCompletion.plain = true

section Handlers

variable {drive : DriveData} {scb : Scb} {result : QueueCommandResult}

/-- Completing a block with a plain code is quiet. -/
theorem finish_quiet (h : scb.scsiCommandCompletion.plain = true) :
    Quiet drive (finish drive scb) :=
  ⟨rfl, rfl, fun answer hanswer => by rw [List.mem_singleton.mp hanswer]; exact h⟩

/-- Success is a plain code. -/
theorem succeeded_quiet {transfered : UInt32} :
    Quiet drive (finish drive (succeeded scb transfered)) :=
  finish_quiet rfl

/-- A check condition with a plain code is quiet. -/
theorem rejected_quiet {completion : ScsiCompletion} {key : SenseKey} {asc : AdditionalSense}
    (h : completion.plain = true) : Quiet drive (finish drive (rejected scb completion key asc)) :=
  finish_quiet h

/-- An address that is not on the disk is refused quietly. -/
theorem lbaOutOfRange_quiet : Quiet drive (lbaOutOfRange drive scb) :=
  rejected_quiet rfl

/-- The code of a refused ATA command is plain. -/
theorem checkQueueCommandResult_plain (h : result ≠ .ok) :
    (checkQueueCommandResult scb result).scsiCommandCompletion.plain = true := by
  cases result <;> first | rfl | exact absurd rfl h

/-- Giving a command to the core driver is quiet. -/
theorem queueOrFinish_quiet {info : QueueCommandInfo} :
    Quiet drive (queueOrFinish drive scb info result) := by
  unfold queueOrFinish
  by_cases hok : result = .ok
  · rw [if_pos hok]
    exact ⟨rfl, rfl, fun answer hanswer => absurd hanswer List.not_mem_nil⟩
  · rw [if_neg hok]
    exact finish_quiet (checkQueueCommandResult_plain hok)

/-- `mvScsiAtaSendDataCommand` is quiet. -/
theorem mvScsiAtaSendDataCommand_quiet :
    Quiet drive (mvScsiAtaSendDataCommand drive scb result) := by
  unfold mvScsiAtaSendDataCommand
  dsimp only
  generalize (if dataCount scb = 0 then (256 : UInt16) else dataCount scb) = sectors
  split
  · split
    · exact lbaOutOfRange_quiet
    · exact succeeded_quiet
  · split
    · exact lbaOutOfRange_quiet
    · split
      · exact finish_quiet rfl
      · exact queueOrFinish_quiet

/-- Sending a part of a split VERIFY calls no callback. -/
theorem mvScsiAtaSendSplittedVerifyCommand_completions :
    (mvScsiAtaSendSplittedVerifyCommand scb result).completions = [] := by
  unfold mvScsiAtaSendSplittedVerifyCommand
  dsimp only
  split <;> rfl

/-- `mvScsiAtaSendVerifyCommand` is quiet. -/
theorem mvScsiAtaSendVerifyCommand_quiet :
    Quiet drive (mvScsiAtaSendVerifyCommand drive scb result) := by
  unfold mvScsiAtaSendVerifyCommand
  dsimp only
  split
  · split
    · exact lbaOutOfRange_quiet
    · exact succeeded_quiet
  · split
    · exact lbaOutOfRange_quiet
    · split
      · exact queueOrFinish_quiet
      · refine ⟨rfl, rfl, fun answer hanswer => ?_⟩
        rw [FollowUp.reply, mvScsiAtaSendSplittedVerifyCommand_completions] at hanswer
        exact absurd hanswer List.not_mem_nil

/-- Setting the look-ahead directly is quiet. -/
theorem mvScsiAtaSendReadLookAhead_quiet {status : ScsiCommandStatus} :
    Quiet drive ((mvScsiAtaSendReadLookAhead scb result).reply drive status) := by
  refine ⟨rfl, rfl, fun answer hanswer => ?_⟩
  unfold FollowUp.reply mvScsiAtaSendReadLookAhead at hanswer
  dsimp only at hanswer
  by_cases hok : result = .ok
  · rw [if_pos hok] at hanswer
    exact absurd hanswer List.not_mem_nil
  · rw [if_neg hok] at hanswer
    rw [List.mem_singleton.mp hanswer]
    exact checkQueueCommandResult_plain hok

/-- A page that is accepted is acted on quietly. -/
theorem mvParseModeCachingPage_quiet {page : ℕ → UInt8} {reply : Reply}
    (h : mvParseModeCachingPage drive scb page result = .ok reply) : Quiet drive reply := by
  unfold mvParseModeCachingPage at h
  dsimp only at h
  split at h
  · cases h
  · split at h
    · cases h
    · split at h
      · split at h
        · cases h
        · cases h
          exact queueOrFinish_quiet
      · split at h
        · cases h
          exact queueOrFinish_quiet
        · split at h
          · cases h
            exact mvScsiAtaSendReadLookAhead_quiet
          · cases h
            exact finish_quiet rfl

/-- `mvScsiAtaModeSelect` is quiet. -/
theorem mvScsiAtaModeSelect_quiet : Quiet drive (mvScsiAtaModeSelect drive scb result) := by
  unfold mvScsiAtaModeSelect
  split
  · exact rejected_quiet rfl
  · rename_i reply hreply
    unfold modeSelect at hreply
    split at hreply
    · cases hreply
    · cases hreply
      exact finish_quiet rfl
    · exact mvParseModeCachingPage_quiet hreply

/-- `mvScsiAtaGetReadCapacityData` is quiet. -/
theorem mvScsiAtaGetReadCapacityData_quiet :
    Quiet drive (mvScsiAtaGetReadCapacityData drive scb) := by
  unfold mvScsiAtaGetReadCapacityData
  split
  · exact rejected_quiet rfl
  · exact succeeded_quiet

/-- `mvScsiAtaSeek` is quiet. -/
theorem mvScsiAtaSeek_quiet : Quiet drive (mvScsiAtaSeek drive scb) := by
  unfold mvScsiAtaSeek
  split
  · exact lbaOutOfRange_quiet
  · exact succeeded_quiet

/-- `mvScsiAtaSendSyncCacheCommand` is quiet. -/
theorem mvScsiAtaSendSyncCacheCommand_quiet :
    Quiet drive (mvScsiAtaSendSyncCacheCommand drive scb result) := by
  unfold mvScsiAtaSendSyncCacheCommand
  dsimp only
  split
  · exact rejected_quiet rfl
  · split
    · exact lbaOutOfRange_quiet
    · exact queueOrFinish_quiet

/-- All handlers but the two that look at the unit attention are quiet. -/
theorem dispatch_quiet {op : ScsiOpcode} (hinquiry : op ≠ .inquiry) (hsense : op ≠ .requestSense6) :
    Quiet drive (dispatch drive scb result op) := by
  cases op with
  | inquiry => exact absurd rfl hinquiry
  | requestSense6 => exact absurd rfl hsense
  | read6 => exact mvScsiAtaSendDataCommand_quiet
  | read10 => exact mvScsiAtaSendDataCommand_quiet
  | write6 => exact mvScsiAtaSendDataCommand_quiet
  | write10 => exact mvScsiAtaSendDataCommand_quiet
  | testUnitReady => exact succeeded_quiet
  | modeSelect6 => exact mvScsiAtaModeSelect_quiet
  | modeSense6 => exact queueOrFinish_quiet
  | verify6 => exact mvScsiAtaSendVerifyCommand_quiet
  | verify10 => exact mvScsiAtaSendVerifyCommand_quiet
  | reassignBlocks =>
    refine ⟨rfl, rfl, fun answer hanswer => ?_⟩
    rw [List.mem_singleton.mp hanswer]
    rfl
  | readCapacity10 => exact mvScsiAtaGetReadCapacityData_quiet
  | seek10 => exact mvScsiAtaSeek_quiet
  | synchronizeCache10 => exact mvScsiAtaSendSyncCacheCommand_quiet

end Handlers

/-- The operations that are executed while an event is pending. -/
def ScsiOpcode.exempt (op : ScsiOpcode) : Bool := op == .inquiry || op == .requestSense6

/-- What a call of `mvSataExecuteScsiCommand` for a drive is as a part of its history. -/
def replyLabels (reply : Reply) : List (Label UaEvent) :=
  (reply.executed.toList.map fun op => .work op.exempt) ++ reply.reported.toList.map .report

/-- A call for a drive, as a part of the history of its events. -/
structure Serves (mask : UInt8) (drive : DriveData) (scb : Scb) (reply : Reply) : Prop where
  coherent : Coherent mask reply.drive
  steps : Steps (eventsOf drive.uaEvents) (replyLabels reply) (eventsOf reply.drive.uaEvents)
  reports : Reports scb reply

section Serves

variable {mask : UInt8} {drive : DriveData} {scb : Scb} {reply : Reply}

/-- A completion code that is plain reports no event. -/
theorem plain_ne_completion {answer : Scb} (h : answer.scsiCommandCompletion.plain = true)
    (event : UaEvent) : answer.scsiCommandCompletion ≠ event.completion := by
  intro heq
  rw [heq] at h
  cases event <;> cases h

/-- The answers of a quiet reply. -/
theorem Quiet.reports (h : Quiet drive reply) (hexecuted : reply.executed ≠ some .requestSense6)
    (hqueued : reply.executed = none → reply.queued = none) :
    Reports scb reply := by
  refine ⟨fun hsense => absurd hsense hexecuted, fun _ event hevent => ?_,
    fun _ answer hanswer event hcode => ?_, fun hidle => ?_⟩
  · rw [h.reported] at hevent
    cases hevent
  · exact absurd hcode (plain_ne_completion (h.plain answer hanswer) event)
  · rcases hidle with hidle | hidle
    · exact hqueued hidle
    · rw [h.reported] at hidle
      cases hidle

/-- A quiet reply without a call of a handler leaves the events alone. -/
theorem Quiet.serves (h : Quiet drive reply) (hcoherent : Coherent mask drive)
    (hexecuted : reply.executed = none) (hqueued : reply.queued = none) :
    Serves mask drive scb reply := by
  constructor
  · rw [h.drive_eq]
    exact hcoherent
  · rw [replyLabels, hexecuted, h.reported, h.drive_eq]
    exact .refl
  · refine h.reports ?_ fun _ => hqueued
    rw [hexecuted]
    simp

/-- A quiet handler is called where no event is pending, or for an exempt operation. -/
theorem Quiet.serves_executed {op : ScsiOpcode} (h : Quiet drive reply)
    (hcoherent : Coherent mask drive) (hsense : op ≠ .requestSense6)
    (hidle : drive.uaConditionPending = false ∨ op.exempt = true) :
    Serves mask drive scb { reply with executed := some op } := by
  constructor
  · rw [h.drive_eq]
    exact hcoherent
  · rw [replyLabels, h.reported, h.drive_eq]
    refine Step.steps (.work ?_)
    rcases hidle with hidle | hidle
    · exact Or.inl (hcoherent.idle hidle)
    · exact Or.inr hidle
  · refine Quiet.reports ⟨h.drive_eq, h.reported, h.plain⟩ ?_ fun hnone => by cases hnone
    simpa using hsense

/-- The first event is reported with a check condition, with `executed` as it may be. -/
theorem reportUnitAttention_serves (hcoherent : Coherent mask drive)
    (hpending : drive.uaConditionPending = true) {executed : Option ScsiOpcode}
    (hexecuted : executed = none ∨ executed = some .inquiry) :
    Serves mask drive scb { reportUnitAttention drive scb with executed } := by
  obtain ⟨event, hfirst, hmem, hleast, hclear, herase⟩ := hcoherent.firstEvent hpending
  have hsense : executed ≠ some .requestSense6 := by
    rcases hexecuted with rfl | rfl <;> simp
  have hreport : Steps (eventsOf drive.uaEvents) [.report event]
      (eventsOf (drive.clearEvent (some event)).uaEvents) := by
    rw [herase]
    exact Step.steps (.report hmem hleast)
  unfold reportUnitAttention
  rw [hfirst]
  constructor
  · exact hclear
  · rcases hexecuted with rfl | rfl
    · exact hreport
    · exact .head (.work (Or.inr rfl)) hreport
  · refine ⟨fun h => absurd h hsense, fun _ other hother => ?_,
      fun _ answer hanswer other hcode => ?_, fun _ => rfl⟩
    · obtain rfl := Option.some.inj hother
      exact ⟨_, rfl, report_checkCondition event scb⟩
    · rw [List.mem_singleton.mp hanswer] at hcode
      have hcompletion : event.completion = other.completion := by
        rw [← hcode]
        unfold UaEvent.report setSenseData
        dsimp only
        split <;> rfl
      cases event <;> cases other <;> first | rfl | cases hcompletion

/-- REQUEST SENSE hands over the first event. -/
theorem mvScsiAtaGetRequestSenseData_serves (hcoherent : Coherent mask drive) :
    Serves mask drive scb
      { mvScsiAtaGetRequestSenseData drive scb with executed := some .requestSense6 } := by
  unfold mvScsiAtaGetRequestSenseData
  by_cases hpending : drive.uaConditionPending = true
  · obtain ⟨event, hfirst, hmem, hleast, hclear, herase⟩ := hcoherent.firstEvent hpending
    rw [if_pos hpending, hfirst]
    constructor
    · exact hclear
    · have hreport : Steps (eventsOf drive.uaEvents) [.report event]
          (eventsOf (drive.clearEvent (some event)).uaEvents) := by
        rw [herase]
        exact Step.steps (.report hmem hleast)
      exact .head (.work (Or.inr rfl)) hreport
    · refine ⟨fun _ => ⟨_, rfl, ?_⟩, fun h => absurd rfl h, fun h => absurd rfl h, fun _ => rfl⟩
      cases event with
      | reset => exact requestSenseAnswer_returned scb .unitAttention .busReset 2
      | paramsChanged => exact requestSenseAnswer_returned scb .unitAttention .parametersChanged 1
  · rw [if_neg hpending]
    constructor
    · exact hcoherent
    · exact Step.steps (.work (Or.inr rfl))
    · exact ⟨fun _ => ⟨_, rfl, requestSenseAnswer_returned scb .noSense .noSense 0⟩,
        fun h => absurd rfl h,
        fun h => absurd rfl h, fun _ => rfl⟩

/-- INQUIRY reports the first event where it asks for something the layer does not have. -/
theorem mvScsiAtaGetInquiryData_serves (hcoherent : Coherent mask drive) :
    Serves mask drive scb { mvScsiAtaGetInquiryData drive scb with executed := some .inquiry } := by
  unfold mvScsiAtaGetInquiryData
  split
  · split
    · rename_i hpending
      exact reportUnitAttention_serves hcoherent hpending (Or.inr rfl)
    · exact (rejected_quiet rfl).serves_executed hcoherent (by decide) (Or.inr rfl)
  · exact succeeded_quiet.serves_executed hcoherent (by decide) (Or.inr rfl)

/-- A call for a drive that has been found serves its events. -/
theorem executeOnDrive_serves {result : QueueCommandResult} (hcoherent : Coherent mask drive) :
    Serves mask drive scb (executeOnDrive drive scb result) := by
  unfold executeOnDrive
  by_cases hfirst : attentionFirst drive scb = true
  · have hpending : drive.uaConditionPending = true := by
      unfold attentionFirst at hfirst
      exact (Bool.and_eq_true _ _ ▸ hfirst).1
    rw [if_pos hfirst]
    exact reportUnitAttention_serves hcoherent hpending (Or.inl rfl)
  rw [if_neg hfirst]
  by_cases hcdb : invalidCdb scb = true
  · rw [if_pos hcdb]
    exact (rejected_quiet rfl).serves hcoherent rfl rfl
  rw [if_neg hcdb]
  cases hop : scb.opcode with
  | none => exact (rejected_quiet rfl).serves hcoherent rfl rfl
  | some op =>
    dsimp only
    by_cases hsense : op = .requestSense6
    · subst hsense
      exact mvScsiAtaGetRequestSenseData_serves hcoherent
    by_cases hinquiry : op = .inquiry
    · subst hinquiry
      exact mvScsiAtaGetInquiryData_serves hcoherent
    have hidle : drive.uaConditionPending = false := by
      by_contra hpending
      refine hfirst ?_
      simp [attentionFirst, hop, hsense, hinquiry, Bool.not_eq_false _ ▸ hpending]
    exact (dispatch_quiet hinquiry hsense).serves_executed hcoherent hsense (Or.inl hidle)

/-- A call of `mvSataExecuteScsiCommand` serves the events of the drive it is for. -/
theorem mvSataExecuteScsiCommand_serves {ext : SalAdapterExtension} {result : QueueCommandResult}
    (hcoherent : Coherent mask (ext.ataDriveData scb.bus scb.target)) :
    Serves mask (ext.ataDriveData scb.bus scb.target) scb.clear
      (mvSataExecuteScsiCommand ext scb result) := by
  unfold mvSataExecuteScsiCommand
  dsimp only
  split
  · exact executeOnDrive_serves hcoherent
  · refine (finish_quiet ?_).serves hcoherent rfl rfl
    dsimp only
    split <;> rfl

/-- A pending event is reported by the next command that finds the drive, unless that is an
INQUIRY without an error. -/
theorem executeOnDrive_reported {result : QueueCommandResult}
    (hpending : drive.uaConditionPending = true)
    (hinquiry : scb.opcode = some .inquiry → invalidCdb scb = true ∨ inquiryInvalid scb = true) :
    (executeOnDrive drive scb result).reported = drive.firstEvent := by
  unfold executeOnDrive
  by_cases hfirst : attentionFirst drive scb = true
  · rw [if_pos hfirst]
    rfl
  have hvalid : invalidCdb scb = false ∧
      (scb.opcode = some .inquiry ∨ scb.opcode = some .requestSense6) := by
    simp only [attentionFirst, hpending, Bool.true_and, Bool.or_eq_true, Bool.and_eq_true, not_or,
      bne_iff_ne, ne_eq, not_and, not_not, Bool.not_eq_true] at hfirst
    refine ⟨hfirst.2, ?_⟩
    by_cases hop : scb.opcode = some .inquiry
    · exact Or.inl hop
    · exact Or.inr (hfirst.1 hop)
  rw [if_neg hfirst, if_neg (by rw [hvalid.1]; simp)]
  rcases hvalid.2 with hop | hop
  · have hinvalid : inquiryInvalid scb = true := by
      rcases hinquiry hop with h | h
      · rw [hvalid.1] at h
        cases h
      · exact h
    rw [hop]
    dsimp only [dispatch, mvScsiAtaGetInquiryData]
    rw [if_pos hinvalid, if_pos hpending]
    rfl
  · rw [hop]
    dsimp only [dispatch, mvScsiAtaGetRequestSenseData]
    rw [if_pos hpending]

end Serves

section Run

/-- A block is for the drive at port `p` of channel `c`. -/
def Scb.isFor (scb : Scb) (c p : UInt8) : Prop := scb.bus = c ∧ scb.target = p

instance (scb : Scb) (c p : UInt8) : Decidable (scb.isFor c p) :=
  inferInstanceAs (Decidable (_ ∧ _))

/-- What a call is in the history of the events of a drive. -/
def uaLabels (mask c p : UInt8) : SalEvent × SalAnswer → List (Label UaEvent)
  | (.notifyUA channelIndex pmPort, _) =>
    if channelIndex = c ∧ pmPort = p then [.raise (eventsOf mask)] else []
  | (.execute scb _, .executed reply) => if scb.isFor c p then replyLabels reply else []
  | _ => []

variable {mask c p : UInt8}

/-- The data of a drive after that of some drive was replaced. -/
theorem setDrive_ataDriveData (ext : SalAdapterExtension) (bus target : UInt8) (drive : DriveData) :
    (ext.setDrive bus target drive).ataDriveData c p =
      if c = bus ∧ p = target then drive else ext.ataDriveData c p := rfl

/-- What replacing the data of one drive does not change of that drive, it changes of none. -/
theorem setDrive_frame {α : Type} (f : DriveData → α) {ext : SalAdapterExtension}
    {bus target : UInt8} {drive : DriveData} (h : f drive = f (ext.ataDriveData bus target)) :
    f ((ext.setDrive bus target drive).ataDriveData c p) = f (ext.ataDriveData c p) := by
  rw [setDrive_ataDriveData]
  split
  · rename_i heq
    rw [h, heq.1, heq.2]
  · rfl

/-- The ready flag and the identify data have no part in it. -/
theorem Coherent.congr {drive drive' : DriveData} (h : Coherent mask drive)
    (hevents : drive'.uaEvents = drive.uaEvents)
    (hpending : drive'.uaConditionPending = drive.uaConditionPending) : Coherent mask drive' := by
  constructor
  · rw [hevents]
    exact h.bits
  · rw [hevents]
    exact h.masked
  · rw [hevents, hpending]
    exact h.flag

/-- The bits that `mvSataScsiNotifyUA` sets, for the masks the driver uses. -/
theorem notifyBits {mask : UInt8} (hmask : MaskSet mask) :
    ((UaEvent.paramsChanged.bit ||| UaEvent.reset.bit) &&& mask) &&& 3 =
        (UaEvent.paramsChanged.bit ||| UaEvent.reset.bit) &&& mask ∧
      ((UaEvent.paramsChanged.bit ||| UaEvent.reset.bit) &&& mask) &&& mask =
        (UaEvent.paramsChanged.bit ||| UaEvent.reset.bit) &&& mask ∧
      (UaEvent.paramsChanged.bit ||| UaEvent.reset.bit) &&& mask ≠ 0 ∧
      eventsOf ((UaEvent.paramsChanged.bit ||| UaEvent.reset.bit) &&& mask) = eventsOf mask := by
  rcases hmask with rfl | rfl <;> decide

/-- The masked events include those of a coherent drive. -/
theorem Coherent.union {drive : DriveData} (h : Coherent mask drive) :
    eventsOf drive.uaEvents ∪ eventsOf mask = eventsOf mask := by
  refine Finset.union_eq_right.mpr fun event hevent => ?_
  rw [eventsOf, Finset.mem_filter] at hevent ⊢
  refine ⟨hevent.1, fun hzero => hevent.2 ?_⟩
  rw [← h.masked, UInt8.and_assoc, hzero, UInt8.and_zero]

/-- A drive after `mvSataScsiNotifyUA`, whatever its data was before. -/
theorem mvSataScsiNotifyUA_coherent {ext : SalAdapterExtension} (hmask : MaskSet ext.uaMask) :
    Coherent ext.uaMask ((mvSataScsiNotifyUA ext c p).ataDriveData c p) ∧
      eventsOf ((mvSataScsiNotifyUA ext c p).ataDriveData c p).uaEvents = eventsOf ext.uaMask := by
  obtain ⟨hbits, hmasked, hne, hevents⟩ := notifyBits hmask
  rw [mvSataScsiNotifyUA, setDrive_ataDriveData, if_pos ⟨rfl, rfl⟩]
  exact ⟨⟨hbits, hmasked, fun _ => hne, fun _ => rfl⟩, hevents⟩

/-- One call, as a part of the history of a drive. -/
structure Keeps (mask c p : UInt8) (sal : Sal) (event : SalEvent) (answer : SalAnswer)
    (sal' : Sal) :
    Prop where
  mask_eq : sal'.ext.uaMask = mask
  coherent : Coherent mask (sal'.ext.ataDriveData c p)
  steps : Steps (eventsOf (sal.ext.ataDriveData c p).uaEvents) (uaLabels mask c p (event, answer))
    (eventsOf (sal'.ext.ataDriveData c p).uaEvents)
  reports : ∀ scb result reply, event = .execute scb result → answer = .executed reply →
    scb.isFor c p → Reports scb.clear reply

/-- A call that leaves the flag and the bits of the drive alone. -/
theorem Keeps.frame {sal sal' : Sal} {event : SalEvent} {answer : SalAnswer}
    (hmask : sal'.ext.uaMask = mask) (hcoherent : Coherent mask (sal.ext.ataDriveData c p))
    (hevents : (sal'.ext.ataDriveData c p).uaEvents = (sal.ext.ataDriveData c p).uaEvents)
    (hpending : (sal'.ext.ataDriveData c p).uaConditionPending =
      (sal.ext.ataDriveData c p).uaConditionPending)
    (hlabels : uaLabels mask c p (event, answer) = [])
    (hother : ∀ scb result, event = .execute scb result → ¬ scb.isFor c p) :
    Keeps mask c p sal event answer sal' := by
  refine ⟨hmask, hcoherent.congr hevents hpending, ?_, ?_⟩
  · rw [hlabels, hevents]
    exact .refl
  · intro scb result reply hevent _ hfor
    exact absurd hfor (hother scb result hevent)

/-- A command keeps the history of every drive. -/
theorem executed_keeps {sal : Sal} {scb : Scb} {result : QueueCommandResult}
    (hmask : sal.ext.uaMask = mask) (hcoherent : Coherent mask (sal.ext.ataDriveData c p)) :
    Keeps mask c p sal (.execute scb result)
      (.executed (mvSataExecuteScsiCommand sal.ext scb result))
      (sal.executed scb (mvSataExecuteScsiCommand sal.ext scb result)) := by
  by_cases hfor : scb.isFor c p
  · obtain ⟨rfl, rfl⟩ := hfor
    have hserves : Serves mask (sal.ext.ataDriveData scb.bus scb.target) scb.clear
        (mvSataExecuteScsiCommand sal.ext scb result) := mvSataExecuteScsiCommand_serves hcoherent
    have hdrive : (sal.executed scb (mvSataExecuteScsiCommand sal.ext scb result)).ext.ataDriveData
        scb.bus scb.target = (mvSataExecuteScsiCommand sal.ext scb result).drive :=
      if_pos ⟨rfl, rfl⟩
    refine ⟨hmask, ?_, ?_, ?_⟩
    · rw [hdrive]
      exact hserves.coherent
    · rw [hdrive, uaLabels, if_pos ⟨rfl, rfl⟩]
      exact hserves.steps
    · rintro scb' result' reply ⟨⟩ ⟨⟩ -
      exact hserves.reports
  · have hdrive : (sal.executed scb (mvSataExecuteScsiCommand sal.ext scb result)).ext.ataDriveData
        c p = sal.ext.ataDriveData c p := by
      refine if_neg ?_
      rintro ⟨rfl, rfl⟩
      exact hfor ⟨rfl, rfl⟩
    refine .frame hmask hcoherent (by rw [hdrive]) (by rw [hdrive]) (if_neg hfor) ?_
    rintro scb' result' ⟨⟩
    exact hfor

/-- `mvSataScsiNotifyUA` keeps the history of every drive. -/
theorem notifyUA_keeps {sal : Sal} {channelIndex pmPort : UInt8} (hset : MaskSet mask)
    (hmask : sal.ext.uaMask = mask) (hcoherent : Coherent mask (sal.ext.ataDriveData c p)) :
    Keeps mask c p sal (.notifyUA channelIndex pmPort) .done
      { sal with ext := mvSataScsiNotifyUA sal.ext channelIndex pmPort } := by
  subst hmask
  by_cases hfor : channelIndex = c ∧ pmPort = p
  · obtain ⟨rfl, rfl⟩ := hfor
    obtain ⟨hnew, hevents⟩ := mvSataScsiNotifyUA_coherent (c := channelIndex) (p := pmPort) hset
    refine ⟨rfl, hnew, ?_, fun scb result reply h => by cases h⟩
    rw [uaLabels, if_pos ⟨rfl, rfl⟩]
    have hraise : Step (eventsOf (sal.ext.ataDriveData channelIndex pmPort).uaEvents)
        (.raise (eventsOf sal.ext.uaMask))
        (eventsOf (sal.ext.ataDriveData channelIndex pmPort).uaEvents ∪ eventsOf sal.ext.uaMask) :=
      .raise
    rw [hcoherent.union] at hraise
    refine Step.steps ?_
    show Step _ _ (eventsOf ((mvSataScsiNotifyUA sal.ext _ _).ataDriveData _ _).uaEvents)
    rw [hevents]
    exact hraise
  · have hdrive : (mvSataScsiNotifyUA sal.ext channelIndex pmPort).ataDriveData c p =
        sal.ext.ataDriveData c p := by
      refine if_neg ?_
      rintro ⟨rfl, rfl⟩
      exact hfor ⟨rfl, rfl⟩
    refine .frame rfl hcoherent ?_ ?_ (if_neg hfor) (fun scb result h => by cases h)
    · exact congrArg DriveData.uaEvents hdrive
    · exact congrArg DriveData.uaConditionPending hdrive

/-- `mvSataScsiSetDriveReady` changes only ready flags. -/
theorem mvSataScsiSetDriveReady_frame (ext : SalAdapterExtension) (channelIndex pmPort : UInt8)
    (isReady : Bool) :
    ((mvSataScsiSetDriveReady ext channelIndex pmPort isReady).ataDriveData c p).uaEvents =
        (ext.ataDriveData c p).uaEvents ∧
      DriveData.uaConditionPending
          ((mvSataScsiSetDriveReady ext channelIndex pmPort isReady).ataDriveData c p) =
        (ext.ataDriveData c p).uaConditionPending ∧
      (mvSataScsiSetDriveReady ext channelIndex pmPort isReady).uaMask = ext.uaMask := by
  unfold mvSataScsiSetDriveReady
  split
  · dsimp only
    split <;> exact ⟨rfl, rfl, rfl⟩
  · exact ⟨setDrive_frame DriveData.uaEvents rfl, setDrive_frame DriveData.uaConditionPending rfl,
      rfl⟩

/-- A completion leaves the drives and the mask alone. -/
theorem completed_frame (sal : Sal) (id : ℕ) (block : Block) (type : CompletionType) :
    (sal.completed id block type).ext.ataDriveData = sal.ext.ataDriveData ∧
      (sal.completed id block type).ext.uaMask = sal.ext.uaMask := by
  unfold Sal.completed
  split <;> exact ⟨rfl, rfl⟩

/-- Every call keeps the history of every drive. -/
theorem salStep_keeps {sal sal' : Sal} {event : SalEvent} {answer : SalAnswer}
    (hset : MaskSet mask) (hmask : sal.ext.uaMask = mask)
    (hcoherent : Coherent mask (sal.ext.ataDriveData c p))
    (hstep : salStep sal event = some (answer, sal')) : Keeps mask c p sal event answer sal' := by
  cases event with
  | execute scb result =>
    cases hstep
    exact executed_keeps hmask hcoherent
  | completion id type =>
    simp only [salStep] at hstep
    split at hstep
    · cases hstep
    · rename_i block _
      split at hstep
      · cases hstep
      · cases hstep
        obtain ⟨hdrives, hmask'⟩ := completed_frame sal id block type
        exact .frame (hmask'.trans hmask) hcoherent (by rw [hdrives]) (by rw [hdrives]) rfl
          fun scb result h => by cases h
  | postIntService results =>
    cases hstep
    exact .frame hmask hcoherent rfl rfl rfl fun scb result h => by cases h
  | setDriveReady channelIndex pmPort isReady =>
    cases hstep
    obtain ⟨hevents, hpending, hmask'⟩ :=
      mvSataScsiSetDriveReady_frame sal.ext channelIndex pmPort isReady
    exact .frame (hmask'.trans hmask) hcoherent hevents hpending rfl fun scb result h => by cases h
  | notifyUA channelIndex pmPort =>
    cases hstep
    exact notifyUA_keeps hset hmask hcoherent
  | identify channelIndex pmPort info =>
    cases hstep
    refine .frame hmask hcoherent ?_ ?_ rfl fun scb result h => by cases h
    · exact setDrive_frame DriveData.uaEvents rfl
    · exact setDrive_frame DriveData.uaConditionPending rfl

/-- No call changes the mask. -/
theorem salStep_uaMask {sal sal' : Sal} {event : SalEvent} {answer : SalAnswer}
    (hstep : salStep sal event = some (answer, sal')) : sal'.ext.uaMask = sal.ext.uaMask := by
  cases event with
  | execute scb result => cases hstep; rfl
  | completion id type =>
    simp only [salStep] at hstep
    split at hstep
    · cases hstep
    · split at hstep
      · cases hstep
      · cases hstep
        exact (completed_frame _ _ _ _).2
  | postIntService results => cases hstep; rfl
  | setDriveReady channelIndex pmPort isReady =>
    cases hstep
    exact (mvSataScsiSetDriveReady_frame (c := 0) (p := 0) _ _ _ _).2.2
  | notifyUA channelIndex pmPort => cases hstep; rfl
  | identify channelIndex pmPort info => cases hstep; rfl

/-- The mask of a started driver. -/
theorem salInit_mask (memory : SalAdapterExtension) (numberOfChannels : UInt8) (resetOnly : Bool) :
    MaskSet (salInit memory numberOfChannels resetOnly).ext.uaMask := by
  cases resetOnly
  · exact Or.inl rfl
  · exact Or.inr rfl

/-- A drive that is not ready stays so in every call that does not make it ready. -/
theorem salStep_notReady {sal sal' : Sal} {event : SalEvent} {answer : SalAnswer}
    (hready : (sal.ext.ataDriveData c p).driveReady = false)
    (hevent : event ≠ .setDriveReady c p true)
    (hstep : salStep sal event = some (answer, sal')) :
    (sal'.ext.ataDriveData c p).driveReady = false := by
  cases event with
  | execute scb result =>
    cases hstep
    show (((sal.ext.setDrive scb.bus scb.target _)).ataDriveData c p).driveReady = false
    rw [setDrive_ataDriveData]
    split
    · rename_i heq
      obtain ⟨rfl, rfl⟩ := heq
      have hnot : ¬ findsDrive sal.ext scb = true := by
        simp [findsDrive, hready]
      rw [mvSataExecuteScsiCommand, if_neg hnot]
      exact hready
    · exact hready
  | completion id type =>
    simp only [salStep] at hstep
    split at hstep
    · cases hstep
    · split at hstep
      · cases hstep
      · cases hstep
        rw [(completed_frame _ _ _ _).1]
        exact hready
  | postIntService results =>
    cases hstep
    exact hready
  | setDriveReady channelIndex pmPort isReady =>
    cases hstep
    show ((mvSataScsiSetDriveReady _ _ _ _).ataDriveData c p).driveReady = false
    unfold mvSataScsiSetDriveReady
    split
    · dsimp only
      split
      · rfl
      · exact hready
    · rw [setDrive_ataDriveData]
      split
      · rename_i heq
        obtain ⟨rfl, rfl⟩ := heq
        cases isReady
        · rfl
        · exact absurd rfl hevent
      · exact hready
  | notifyUA channelIndex pmPort =>
    cases hstep
    refine Eq.trans ?_ hready
    exact setDrive_frame DriveData.driveReady rfl
  | identify channelIndex pmPort info =>
    cases hstep
    refine Eq.trans ?_ hready
    exact setDrive_frame DriveData.driveReady rfl

/-- The calls of a host: those of the layer, and the SMART commands, which `queuecommand` of
`LSP/mvSata/mvLinuxIalHt.c` does not give to `mvSataExecuteScsiCommand` but to
`mvScsiAtaSendSmartCommand`. -/
inductive UnitCall
  | sal (event : SalEvent)
  | smart (scb : Scb) (ascq : UInt8) (result : QueueCommandResult)

/-- What a call of a host returns. -/
inductive UnitAnswer
  | sal (answer : SalAnswer)
  | smart (reply : SmartReply)

/-- The steps of the layer under a host. A SMART command is known by its operation code, and
changes no drive. -/
def unitStep (sal : Sal) : UnitCall → Option (UnitAnswer × Sal)
  | .sal event => (salStep sal event).map fun (answer, sal') => (.sal answer, sal')
  | .smart scb ascq result =>
    if scb.cmd 0 = SCSI_OPCODE_MVSATA_SMART then
      some (.smart (mvScsiAtaSendSmartCommand sal.ext scb ascq result), sal)
    else none

/-- What a call of a host is in the history of the events of a drive. A SMART command is work
if it is queued, and it is exempt. -/
def unitLabels (mask c p : UInt8) : UnitCall × UnitAnswer → List (Label UaEvent)
  | (.sal event, .sal answer) => uaLabels mask c p (event, answer)
  | (.smart scb _ _, .smart reply) =>
    if scb.isFor c p ∧ reply.queued.isSome then [.work true] else []
  | _ => []

/-- The history of the events of a drive in a run of a host. -/
def uaHistory (mask c p : UInt8) (trace : List (UnitCall × UnitAnswer)) : List (Label UaEvent) :=
  trace.flatMap (unitLabels mask c p)

/-- A step under a host is a call of the layer, or a SMART command that leaves it alone. -/
theorem unitStep_cases {sal sal' : Sal} {call : UnitCall} {answer : UnitAnswer}
    (hstep : unitStep sal call = some (answer, sal')) :
    (∃ event answer', call = .sal event ∧ answer = .sal answer' ∧
      salStep sal event = some (answer', sal')) ∨
    ∃ scb ascq result, call = .smart scb ascq result ∧ scb.cmd 0 = SCSI_OPCODE_MVSATA_SMART ∧
      answer = .smart (mvScsiAtaSendSmartCommand sal.ext scb ascq result) ∧ sal' = sal := by
  cases call with
  | sal event =>
    obtain ⟨⟨answer', after⟩, hcall, heq⟩ := Option.map_eq_some_iff.mp hstep
    obtain ⟨rfl, rfl⟩ := Prod.mk.inj heq
    exact Or.inl ⟨event, answer', rfl, rfl, hcall⟩
  | smart scb ascq result =>
    simp only [unitStep] at hstep
    split at hstep
    · rename_i hcode
      obtain ⟨rfl, rfl⟩ := Prod.mk.inj (Option.some.inj hstep)
      exact Or.inr ⟨scb, ascq, result, rfl, hcode, rfl, rfl⟩
    · cases hstep

section Smart

variable {ext : SalAdapterExtension} {scb : Scb} {ascq : UInt8} {result : QueueCommandResult}

/-- No answer to a SMART command reports an event. -/
theorem mvScsiAtaSendSmartCommand_plain :
    ∀ answer ∈ (mvScsiAtaSendSmartCommand ext scb ascq result).completions,
      answer.scsiCommandCompletion.plain = true := by
  intro answer hanswer
  unfold mvScsiAtaSendSmartCommand smartRejected smartCompleted at hanswer
  dsimp only at hanswer
  split at hanswer
  · rw [List.mem_singleton.mp hanswer]
    rfl
  · split at hanswer
    · rw [List.mem_singleton.mp hanswer]
      rfl
    · split at hanswer
      · rw [List.mem_singleton.mp hanswer]
        rfl
      · split at hanswer
        · split at hanswer
          · rw [List.mem_singleton.mp hanswer]
            rfl
          · by_cases hok : result = .ok
            · rw [if_pos hok] at hanswer
              exact absurd hanswer List.not_mem_nil
            · rw [if_neg hok] at hanswer
              rw [List.mem_singleton.mp hanswer]
              exact checkQueueCommandResult_plain hok
        · rw [List.mem_singleton.mp hanswer]
          rfl

/-- A SMART command for a drive that is not ready is not queued. -/
theorem mvScsiAtaSendSmartCommand_notReady
    (hready : (ext.ataDriveData scb.bus scb.target).driveReady = false) :
    (mvScsiAtaSendSmartCommand ext scb ascq result).queued = none := by
  unfold mvScsiAtaSendSmartCommand
  dsimp only
  split
  · rfl
  · rw [if_pos (Or.inr hready)]
    rfl

end Smart

/-- A SMART command keeps the history of every drive. -/
theorem smart_steps {sal : Sal} {scb : Scb} {ascq : UInt8} {result : QueueCommandResult}
    {reply : SmartReply} :
    Steps (eventsOf (sal.ext.ataDriveData c p).uaEvents)
      (unitLabels mask c p (.smart scb ascq result, .smart reply))
      (eventsOf (sal.ext.ataDriveData c p).uaEvents) := by
  unfold unitLabels
  dsimp only
  split
  · exact Step.steps (.work (Or.inr rfl))
  · exact .refl

/-- The mask along a run. -/
theorem unitRun_uaMask {sal₀ sal : Sal} {trace : List (UnitCall × UnitAnswer)}
    (hrun : Run unitStep (fun _ _ => True) sal₀ trace sal) : sal.ext.uaMask = sal₀.ext.uaMask := by
  induction hrun with
  | start => rfl
  | next _ _ hstep ih =>
    obtain ⟨event, answer, -, -, hcall⟩ | ⟨scb, ascq, result, -, -, -, rfl⟩ := unitStep_cases hstep
    · exact (salStep_uaMask hcall).trans ih
    · exact ih

/-- A call for a drive does nothing: the command is not executed, and a SMART command is not
queued. -/
def DoesNothing (c p : UInt8) : UnitCall × UnitAnswer → Prop
  | (.sal (.execute scb _), .sal (.executed reply)) =>
    scb.isFor c p → reply.executed = none ∧ reply.reported = none
  | (.smart scb _ _, .smart reply) => scb.isFor c p → reply.queued = none
  | _ => True

/-- Before a drive is made ready, no command for it does anything. -/
theorem unitRun_notReady {memory : SalAdapterExtension} {numberOfChannels : UInt8}
    {resetOnly : Bool} {trace : List (UnitCall × UnitAnswer)} {sal : Sal}
    (hrun : Run unitStep (fun _ _ => True) (salInit memory numberOfChannels resetOnly) trace sal)
    (hnever : ∀ step ∈ trace, step.1 ≠ .sal (.setDriveReady c p true)) :
    (sal.ext.ataDriveData c p).driveReady = false ∧ ∀ step ∈ trace, DoesNothing c p step := by
  induction hrun with
  | start =>
    refine ⟨?_, fun step h => absurd h List.not_mem_nil⟩
    cases resetOnly <;> rfl
  | @next trace sal call answer sal' _ _ hstep ih =>
    obtain ⟨hready, hold⟩ := ih fun step hmem => hnever step (List.mem_append_left _ hmem)
    have hcall := hnever (call, answer) (by simp)
    have hlast : (sal'.ext.ataDriveData c p).driveReady = false ∧
        DoesNothing c p (call, answer) := by
      obtain ⟨event, answer', rfl, rfl, hsal⟩ | ⟨scb, ascq, result, rfl, -, rfl, rfl⟩ :=
        unitStep_cases hstep
      · refine ⟨salStep_notReady hready (fun heq => hcall (congrArg _ heq)) hsal, ?_⟩
        cases event with
        | execute scb result =>
          cases hsal
          rintro ⟨rfl, rfl⟩
          have hnot : ¬ findsDrive sal.ext scb = true := by
            simp [findsDrive, hready]
          rw [mvSataExecuteScsiCommand, if_neg hnot]
          exact ⟨rfl, rfl⟩
        | _ => exact trivial
      · refine ⟨hready, ?_⟩
        rintro ⟨rfl, rfl⟩
        exact mvScsiAtaSendSmartCommand_notReady hready
    refine ⟨hlast.1, fun step hmem => ?_⟩
    rcases List.mem_append.mp hmem with hmem | hmem
    · exact hold step hmem
    · rw [List.mem_singleton.mp hmem]
      exact hlast.2

/-- What the answer to a call for a drive says of its events. -/
def Answers (c p : UInt8) : UnitCall × UnitAnswer → Prop
  | (.sal (.execute scb _), .sal (.executed reply)) => scb.isFor c p → Reports scb.clear reply
  | (.smart _ _ _, .smart reply) =>
    ∀ answer ∈ reply.completions, ∀ event : UaEvent,
      answer.scsiCommandCompletion ≠ event.completion
  | _ => True

/-- A run from the moment a drive is first notified: the history of its events is one of a
unit, and its answers are as they should be. -/
structure Attended (mask c p : UInt8) (trace : List (UnitCall × UnitAnswer))
    (sal : Sal) : Prop where
  mask_eq : sal.ext.uaMask = mask
  coherent : Coherent mask (sal.ext.ataDriveData c p)
  steps : Steps (eventsOf mask) (uaHistory mask c p trace)
    (eventsOf (sal.ext.ataDriveData c p).uaEvents)
  answers : ∀ step ∈ trace, Answers c p step

/-- One more call keeps a run attended to. -/
theorem Attended.next {trace : List (UnitCall × UnitAnswer)} {sal sal' : Sal} {call : UnitCall}
    {answer : UnitAnswer} (h : Attended mask c p trace sal) (hset : MaskSet mask)
    (hstep : unitStep sal call = some (answer, sal')) :
    Attended mask c p (trace ++ [(call, answer)]) sal' := by
  have hlast : sal'.ext.uaMask = mask ∧ Coherent mask (sal'.ext.ataDriveData c p) ∧
      Steps (eventsOf (sal.ext.ataDriveData c p).uaEvents) (unitLabels mask c p (call, answer))
        (eventsOf (sal'.ext.ataDriveData c p).uaEvents) ∧ Answers c p (call, answer) := by
    obtain ⟨event, answer', rfl, rfl, hsal⟩ | ⟨scb, ascq, result, rfl, -, rfl, rfl⟩ :=
      unitStep_cases hstep
    · have hkeeps := salStep_keeps hset h.mask_eq h.coherent hsal
      refine ⟨hkeeps.mask_eq, hkeeps.coherent, hkeeps.steps, ?_⟩
      cases event with
      | execute scb result =>
        cases hsal
        exact hkeeps.reports scb result _ rfl rfl
      | _ => exact trivial
    · exact ⟨h.mask_eq, h.coherent, smart_steps, fun answer hanswer =>
        plain_ne_completion (mvScsiAtaSendSmartCommand_plain answer hanswer)⟩
  refine ⟨hlast.1, hlast.2.1, ?_, fun step hmem => ?_⟩
  · rw [uaHistory, List.flatMap_append, List.flatMap_singleton]
    exact h.steps.append hlast.2.2.1
  · rcases List.mem_append.mp hmem with hmem | hmem
    · exact h.answers step hmem
    · rw [List.mem_singleton.mp hmem]
      exact hlast.2.2.2

/-- Every run from a notification is attended to. -/
theorem unitRun_attended {sal₀ sal : Sal} {trace : List (UnitCall × UnitAnswer)}
    (hset : MaskSet sal₀.ext.uaMask)
    (hrun : Run unitStep (fun _ _ => True)
      { sal₀ with ext := mvSataScsiNotifyUA sal₀.ext c p } trace sal) :
    Attended sal₀.ext.uaMask c p trace sal := by
  induction hrun with
  | start =>
    obtain ⟨hcoherent, hevents⟩ := mvSataScsiNotifyUA_coherent (c := c) (p := p) hset
    refine ⟨rfl, hcoherent, ?_, fun step h => absurd h List.not_mem_nil⟩
    show Steps _ _ (eventsOf ((mvSataScsiNotifyUA sal₀.ext _ _).ataDriveData _ _).uaEvents)
    rw [hevents]
    exact .refl
  | next _ _ hstep ih => exact ih.next hset hstep

/-- The unit attention of a drive. A drive is not ready and executes nothing before the
driver makes it ready, and the data of its events is first set when it is notified.
From then on, in every run: the flag is set just if a masked event bit is; the history
of the drive is one of a unit with pending events, so that the reset is reported
before the changed parameters and only INQUIRY, REQUEST SENSE and SMART commands that are
passed through are executed while an event is pending; every raise that does not coalesce is
reported once, but for one still pending; the reports are the answers they should be; and a
pending event is reported by the next command that finds the drive and is neither a valid
INQUIRY nor passed through. -/
theorem unitAttention_run {memory : SalAdapterExtension} {numberOfChannels : UInt8}
    {resetOnly : Bool} {before after : List (UnitCall × UnitAnswer)} {sal₀ sal : Sal} {c p : UInt8}
    (hbefore : Run unitStep (fun _ _ => True) (salInit memory numberOfChannels resetOnly) before
      sal₀)
    (hafter : Run unitStep (fun _ _ => True)
      { sal₀ with ext := mvSataScsiNotifyUA sal₀.ext c p } after sal) :
    let mask : UInt8 := if resetOnly then 0x01 else 0xFF
    let drive := sal.ext.ataDriveData c p
    ((∀ step ∈ before, step.1 ≠ .sal (.setDriveReady c p true)) →
      ∀ step ∈ before, DoesNothing c p step) ∧
    (drive.uaConditionPending = true ↔ drive.uaEvents &&& mask ≠ 0) ∧
    Steps (eventsOf mask) (uaHistory mask c p after) (eventsOf drive.uaEvents) ∧
    (∀ event, Attention.reports event (uaHistory mask c p after) +
        (if event ∈ eventsOf drive.uaEvents then 1 else 0) =
      freshRaises event (eventsOf mask) (uaHistory mask c p after) +
        if event ∈ eventsOf mask then 1 else 0) ∧
    (∀ step ∈ after, Answers c p step) ∧
    ∀ scb result, scb.isFor c p → findsDrive sal.ext scb = true →
      drive.uaConditionPending = true →
      (scb.opcode = some .inquiry → invalidCdb scb = true ∨ inquiryInvalid scb = true) →
      ∃ event, (mvSataExecuteScsiCommand sal.ext scb result).reported = some event ∧
        event ∈ eventsOf drive.uaEvents ∧ ∀ other ∈ eventsOf drive.uaEvents, event ≤ other := by
  have hmask : (if resetOnly then 0x01 else 0xFF : UInt8) = sal₀.ext.uaMask := by
    rw [unitRun_uaMask hbefore]
    cases resetOnly <;> rfl
  have hset : MaskSet sal₀.ext.uaMask := by
    rw [unitRun_uaMask hbefore]
    exact salInit_mask _ _ _
  have hattended := unitRun_attended hset hafter
  dsimp only
  rw [hmask]
  refine ⟨fun hnever => (unitRun_notReady hbefore hnever).2, ?_, hattended.steps,
    hattended.steps.reports_add, hattended.answers, ?_⟩
  · rw [hattended.coherent.masked]
    exact hattended.coherent.flag
  · intro scb result hfor hfinds hpending hinquiry
    obtain ⟨rfl, rfl⟩ := hfor
    obtain ⟨event, hfirst, hmem, hleast, -⟩ := hattended.coherent.firstEvent hpending
    refine ⟨event, ?_, hmem, hleast⟩
    rw [mvSataExecuteScsiCommand, if_pos hfinds, ← hfirst]
    exact executeOnDrive_reported hpending hinquiry

/-- A TEST UNIT READY for the first drive. -/
def testUnitReadyScb : Scb :=
  { hostBlock [0, 0, 0, 0, 0, 0] 0 with
    pSenseBuffer := List.replicate 18 0xFF
    senseBufferLength := 18 }

/-- A REQUEST SENSE for the first drive, with room for all of the sense data. -/
def requestSenseScb : Scb :=
  { hostBlock [3, 0, 0, 0, 18, 0] 18 with pDataBuffer := List.replicate 18 0xFF }

/-- A SMART STATUS for the first drive. -/
def smartStatusScb : Scb :=
  { hostBlock [0x0C, 0, 0, 0, 0, 0] 14 with
    pDataBuffer := [0xB0, 0, 0xDA, 0, 0, 0, 0, 0, 0, 0, 0, 0, 0, 0] }

/-- Memory whose drives have the flag set without an event. -/
def staleMemory : SalAdapterExtension :=
  { numberOfChannels := 0
    pHead := []
    uaMask := 0
    ataDriveData := fun _ _ => { smallDrive with uaConditionPending := true } }

/-- The first drive is made ready and notified, and four commands follow: the first one is passed
through, the second one and REQUEST SENSE report the events, the last one is executed. -/
theorem unitAttention_run_four_commands :
    ∃ before sal₀ after sal,
      Run unitStep (fun _ _ => True) (salInit staleMemory 1 false) before sal₀ ∧
      Run unitStep (fun _ _ => True) { sal₀ with ext := mvSataScsiNotifyUA sal₀.ext 0 0 } after
        sal ∧
      uaHistory 0xFF 0 0 after =
        [.work true, .report .reset, .work true, .report .paramsChanged, .work false] ∧
      Steps (eventsOf 0xFF) (uaHistory 0xFF 0 0 after)
        (eventsOf (sal.ext.ataDriveData 0 0).uaEvents) ∧
      ((sal.ext.ataDriveData 0 0).uaConditionPending = true ↔
        (sal.ext.ataDriveData 0 0).uaEvents &&& 0xFF ≠ 0) ∧
      (∃ reply answer, after[1]? = some (.sal (.execute testUnitReadyScb .ok),
          .sal (.executed reply)) ∧ reply.completions = [answer] ∧
        answer.scsiStatus = .checkCondition ∧ answer.scsiCommandCompletion = .uaReset ∧
        answer.pSenseBuffer = fixedSense 0x06 0x29 2) ∧
      ∃ reply answer, after[2]? = some (.sal (.execute requestSenseScb .ok),
          .sal (.executed reply)) ∧ reply.completions = [answer] ∧
        answer.scsiStatus = .good ∧ answer.pDataBuffer = fixedSense 0x06 0x2A 1 := by
  obtain ⟨before, sal₀, hbefore, after, sal, ready, sensed, hafter, hhistory, hready, hsensed⟩ :
      ∃ before sal₀, Run unitStep (fun _ _ => True) (salInit staleMemory 1 false) before sal₀ ∧
      ∃ after sal ready sensed, Run unitStep (fun _ _ => True)
        { sal₀ with ext := mvSataScsiNotifyUA sal₀.ext 0 0 } after sal ∧
      uaHistory 0xFF 0 0 after =
        [.work true, .report .reset, .work true, .report .paramsChanged, .work false] ∧
      (after[1]? = some (.sal (.execute testUnitReadyScb .ok), .sal (.executed ready)) ∧
        ready.executed = none ∧ ready.reported = some .reset) ∧
      after[2]? = some (.sal (.execute requestSenseScb .ok), .sal (.executed sensed)) ∧
        sensed.executed = some .requestSense6 ∧ sensed.reported = some .paramsChanged :=
    ⟨_, _, Run.of_exec [.sal (.setDriveReady 0 0 true)] rfl, _, _, _, _,
      Run.of_exec [.smart smartStatusScb 0 .ok, .sal (.execute testUnitReadyScb .ok),
        .sal (.execute requestSenseScb .ok), .sal (.execute testUnitReadyScb .ok)] rfl, rfl,
      ⟨rfl, rfl, rfl⟩, rfl, rfl, rfl⟩
  obtain ⟨-, hflag, hsteps, -, hanswers, -⟩ := unitAttention_run hbefore hafter
  obtain ⟨answer, hone, hcheck⟩ := (hanswers _ (List.mem_of_getElem? hready.1) ⟨rfl, rfl⟩).attention
    (by rw [hready.2.1]; decide) .reset hready.2.2
  obtain ⟨answer', hone', hreturned⟩ :=
    (hanswers _ (List.mem_of_getElem? hsensed.1) ⟨rfl, rfl⟩).sense hsensed.2.1
  refine ⟨before, sal₀, after, sal, hbefore, hafter, hhistory, hsteps, hflag,
    ⟨ready, answer, hready.1, hone, hcheck.status, hcheck.completion, hcheck.sense⟩,
    sensed, answer', hsensed.1, hone', hreturned.status, ?_⟩
  rw [hreturned.data, hsensed.2.2]
  rfl

/-- A SMART command is queued while the reset of the drive is still to be reported. -/
theorem smartStatus_queued_under_attention :
    ∃ before sal₀ reply,
      Run unitStep (fun _ _ => True) (salInit staleMemory 1 false) before sal₀ ∧
      ((mvSataScsiNotifyUA sal₀.ext 0 0).ataDriveData 0 0).uaConditionPending = true ∧
      smartStatusScb.isFor 0 0 ∧ smartStatusScb.opcode ≠ some .inquiry ∧
      smartStatusScb.opcode ≠ some .requestSense6 ∧
      unitStep { sal₀ with ext := mvSataScsiNotifyUA sal₀.ext 0 0 } (.smart smartStatusScb 0 .ok) =
        some (.smart reply, { sal₀ with ext := mvSataScsiNotifyUA sal₀.ext 0 0 }) ∧
      reply.queued.isSome = true ∧ reply.completions = [] :=
  ⟨_, _, _, Run.of_exec [.sal (.setDriveReady 0 0 true)] rfl, rfl, by decide, by decide, by decide,
    rfl, rfl, rfl⟩

end Run

end Mv88fxx81.Sata
