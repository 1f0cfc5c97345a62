import Mv88fxx81.Sata.AtaRange
import Mv88fxx81.Sata.Smart

/-!
# The data buffer of a SMART pass-through

A block is rejected, or its ATA command is queued with the command byte of the block, and for a
SMART command with its features and its sector count. A command that reads is queued with one
sector, for which the buffer has room. A normal completion reports one sector, whatever the command
was.
-/

namespace Mv88fxx81.Sata

variable {ext : SalAdapterExtension} {scb : Scb} {ascq : UInt8} {result : QueueCommandResult}
  {a b c : DataAccess} {i j : ℕ} {value : UInt8}

namespace DataAccess

@[simp]
theorem read_byte (indices : List ℕ) (j : ℕ) : (a.read indices).byte j = a.byte j := rfl

/-- A store leaves the other bytes. -/
theorem store_byte_ne (hne : i ≠ j) : (a.store i value).byte j = a.byte j := by
  unfold store byte Scb.dataByte
  dsimp only
  rw [List.getD_eq_getElem?_getD, List.getElem?_set_ne hne, ← List.getD_eq_getElem?_getD]

/-- A store of the value that is there leaves all bytes. -/
theorem store_byte_same (hvalue : a.byte i = value) (j : ℕ) :
    (a.store i value).byte j = a.byte j := by
  by_cases hne : i = j
  · subst hne
    rw [hvalue]
    unfold store byte Scb.dataByte at *
    dsimp only
    rw [List.getD_eq_getElem?_getD, List.getElem?_set_self']
    rw [List.getD_eq_getElem?_getD] at hvalue
    cases hget : a.scb.pDataBuffer[i]? with
    | none =>
      rw [hget] at hvalue
      exact hvalue
    | some old => rfl
  · exact store_byte_ne hne

/-- The lengths of the block stay, and only the first six bytes of the buffer are touched. -/
structure TouchesHeader (a b : DataAccess) : Prop where
  length : b.scb.dataBufferLength = a.scb.dataBufferLength
  transfered : b.scb.dataTransfered = a.scb.dataTransfered
  touched : ∀ i ∈ b.touched, i ∈ a.touched ∨ i < 6

theorem TouchesHeader.refl (a : DataAccess) : TouchesHeader a a := ⟨rfl, rfl, fun _ hi => Or.inl hi⟩

theorem TouchesHeader.read (hkeeps : TouchesHeader a b) (indices : List ℕ)
    (hindices : ∀ i ∈ indices, i < 6) :
    TouchesHeader a (b.read indices) := by
  refine ⟨hkeeps.length, hkeeps.transfered, fun i hi => ?_⟩
  rcases List.mem_append.mp hi with hi | hi
  · exact hkeeps.touched i hi
  · exact Or.inr (hindices i hi)

theorem TouchesHeader.store (hkeeps : TouchesHeader a b) (hi : i < 6) (value : UInt8) :
    TouchesHeader a (b.store i value) := by
  refine ⟨hkeeps.length, hkeeps.transfered, fun j hj => ?_⟩
  rcases List.mem_append.mp hj with hj | hj
  · exact hkeeps.touched j hj
  · rw [List.mem_singleton] at hj
    exact Or.inr (hj ▸ hi)

end DataAccess

open DataAccess

/-- A command that reads a sector. -/
def readsSector (scb : Scb) : Prop :=
  scb.dataByte 0 = WIN_IDENTIFY ∨ scb.dataByte 0 = WIN_SMART ∧ smartReads (scb.dataByte 2) = true

/-- The command byte of the buffer, and for a SMART command its features and its sector count, stay
as the caller has given them. -/
def SameCommand (scb scb' : Scb) : Prop :=
  scb'.dataByte 0 = scb.dataByte 0 ∧
    (scb.dataByte 0 = WIN_SMART →
      scb'.dataByte 2 = scb.dataByte 2 ∧ scb'.dataByte 3 = scb.dataByte 3)

/-- A command that is passed through has a protocol exactly when its buffer is long enough and its
features are known: that of a read for one that reads a sector, and else the one without data. -/
def ProtocolRight (scb : Scb) : Option NonUdmaProtocol → Prop
  | none => readsSector scb ∧ scb.dataBufferLength < 518 ∨
      scb.dataByte 0 = WIN_SMART ∧ smartReads (scb.dataByte 2) = false ∧
        smartNonData (scb.dataByte 2) = false
  | some .pioDataIn => readsSector scb ∧ ¬ scb.dataBufferLength < 518
  | some .nonData => ¬ readsSector scb ∧ (scb.dataByte 0 = MV_ATA_COMMAND_IDLE ∨
      scb.dataByte 0 = MV_ATA_COMMAND_IDLE_IMMEDIATE ∨
      scb.dataByte 0 = WIN_SMART ∧ smartNonData (scb.dataByte 2) = true)

/-- The commands are different ones. -/
theorem smart_commands_ne :
    WIN_IDENTIFY ≠ WIN_SMART ∧ MV_ATA_COMMAND_IDLE ≠ WIN_SMART ∧
      MV_ATA_COMMAND_IDLE_IMMEDIATE ≠ WIN_SMART ∧ MV_ATA_COMMAND_IDLE ≠ WIN_IDENTIFY ∧
      MV_ATA_COMMAND_IDLE_IMMEDIATE ≠ WIN_IDENTIFY := by decide

/-- What `smartProtocol` finds and leaves. -/
theorem smartProtocol_spec (hcommand : smartCommand (a.byte 0) = true) :
    TouchesHeader a (smartProtocol a).2 ∧ SameCommand a.scb (smartProtocol a).2.scb ∧
      ProtocolRight a.scb (smartProtocol a).1 := by
  obtain ⟨hidentify, hidle, himmediate, hidle', himmediate'⟩ := smart_commands_ne
  have hread := (TouchesHeader.refl a).read [SMART_BUF_COMMAND_OFFSET] (by decide)
  unfold smartProtocol
  dsimp only
  generalize hb : a.read [SMART_BUF_COMMAND_OFFSET] = b at hread
  have hbyte : ∀ j, b.byte j = a.byte j := fun j => by rw [← hb]; rfl
  have hlength : b.scb.dataBufferLength = a.scb.dataBufferLength := hread.length
  have hcmd : b.byte SMART_BUF_COMMAND_OFFSET = a.scb.dataByte 0 := hbyte 0
  have hfeatures : b.byte SMART_BUF_FEATURES_OFFSET = a.scb.dataByte 2 := hbyte 2
  -- a command other than SMART whose byte stays
  have hother : ∀ d : DataAccess, a.scb.dataByte 0 ≠ WIN_SMART → d.byte 0 = b.byte 0 →
      SameCommand a.scb d.scb := fun d hne hd =>
    ⟨hd.trans (hbyte 0), fun hsmart => absurd hsmart hne⟩
  by_cases h₁ : b.byte SMART_BUF_COMMAND_OFFSET = WIN_IDENTIFY
  · have hne : a.scb.dataByte 0 ≠ WIN_SMART := by rw [← hcmd, h₁]; exact hidentify
    have hreads : readsSector a.scb := Or.inl (hcmd ▸ h₁)
    rw [if_pos h₁, hlength]
    by_cases hlt : a.scb.dataBufferLength < 256 * 2 + 6
    · rw [if_pos hlt]
      exact ⟨hread, hother b hne rfl, Or.inl ⟨hreads, hlt⟩⟩
    · rw [if_neg hlt]
      refine ⟨?_, hother _ hne ?_, hreads, hlt⟩
      · exact (((((hread.store (by decide) _).store (by decide) _).store (by decide) _).store
          (by decide) _).store (by decide) _).store (by decide) _
      · dsimp only
        rw [store_byte_ne (by decide), store_byte_ne (by decide), store_byte_ne (by decide),
          store_byte_ne (by decide), store_byte_ne (by decide), store_byte_same h₁]
  · rw [if_neg h₁]
    by_cases h₂ : b.byte SMART_BUF_COMMAND_OFFSET = MV_ATA_COMMAND_IDLE
    · have hne : a.scb.dataByte 0 ≠ WIN_SMART := by rw [← hcmd, h₂]; exact hidle
      rw [if_pos h₂]
      refine ⟨?_, hother _ hne ?_, ?_, Or.inl (hcmd ▸ h₂)⟩
      · exact ((((hread.store (by decide) _).store (by decide) _).store (by decide) _).store
          (by decide) _).store (by decide) _
      · dsimp only
        rw [store_byte_ne (by decide), store_byte_ne (by decide), store_byte_ne (by decide),
          store_byte_ne (by decide), store_byte_same h₂]
      · rintro (hread | ⟨hsmart, -⟩)
        · exact hidle' (h₂.symm.trans (hcmd.trans hread))
        · exact hne hsmart
    · rw [if_neg h₂]
      by_cases h₃ : b.byte SMART_BUF_COMMAND_OFFSET = MV_ATA_COMMAND_IDLE_IMMEDIATE
      · have hne : a.scb.dataByte 0 ≠ WIN_SMART := by rw [← hcmd, h₃]; exact himmediate
        rw [if_pos h₃]
        refine ⟨?_, hother _ hne ?_, ?_, Or.inr (Or.inl (hcmd ▸ h₃))⟩
        · exact (((((hread.store (by decide) _).store (by decide) _).store (by decide) _).store
            (by decide) _).store (by decide) _).store (by decide) _
        · dsimp only
          rw [store_byte_ne (by decide), store_byte_ne (by decide), store_byte_ne (by decide),
            store_byte_ne (by decide), store_byte_ne (by decide), store_byte_same h₃]
        · rintro (hread | ⟨hsmart, -⟩)
          · exact himmediate' (h₃.symm.trans (hcmd.trans hread))
          · exact hne hsmart
      · rw [if_neg h₃]
        have hsmart : a.scb.dataByte 0 = WIN_SMART := by
          unfold smartCommand at hcommand
          rw [decide_eq_true_iff] at hcommand
          rw [hcmd] at h₁ h₂ h₃
          rcases hcommand with h | h | h | h
          · exact absurd h h₁
          · exact absurd h h₂
          · exact absurd h h₃
          · exact h
        have hkeeps := ((hread.store (by decide : SMART_BUF_LBAMID_OFFSET < 6) 0x4F).store
          (by decide : SMART_BUF_LBAHIGH_OFFSET < 6) 0xC2).read
          [SMART_BUF_FEATURES_OFFSET] (by decide)
        generalize hd : ((b.store SMART_BUF_LBAMID_OFFSET 0x4F).store SMART_BUF_LBAHIGH_OFFSET
          0xC2).read [SMART_BUF_FEATURES_OFFSET] = d at hkeeps
        have hdbyte : ∀ j, j < 4 → d.byte j = a.byte j := by
          intro j hj
          rw [← hd, read_byte, store_byte_ne (by unfold SMART_BUF_LBAHIGH_OFFSET; omega),
            store_byte_ne (by unfold SMART_BUF_LBAMID_OFFSET; omega), hbyte]
        have hsame : SameCommand a.scb d.scb :=
          ⟨hdbyte 0 (by decide), fun _ => ⟨hdbyte 2 (by decide), hdbyte 3 (by decide)⟩⟩
        have hdfeatures : d.byte SMART_BUF_FEATURES_OFFSET = a.scb.dataByte 2 :=
          hdbyte 2 (by decide)
        rw [hdfeatures, hkeeps.length]
        by_cases hreads : smartReads (a.scb.dataByte 2) = true
        · rw [if_pos hreads]
          by_cases hlt : a.scb.dataBufferLength < 512 + 6
          · rw [if_pos hlt]
            exact ⟨hkeeps, hsame, Or.inl ⟨Or.inr ⟨hsmart, hreads⟩, hlt⟩⟩
          · rw [if_neg hlt]
            exact ⟨hkeeps, hsame, Or.inr ⟨hsmart, hreads⟩, hlt⟩
        · rw [if_neg hreads]
          have hnot : ¬ readsSector a.scb := by
            rintro (h | ⟨-, h⟩)
            · exact hidentify (h.symm.trans hsmart)
            · exact hreads h
          by_cases hsets : smartNonData (a.scb.dataByte 2) = true
          · rw [if_pos hsets]
            exact ⟨hkeeps, hsame, hnot, Or.inr (Or.inr ⟨hsmart, hsets⟩)⟩
          · rw [if_neg hsets]
            exact ⟨hkeeps, hsame, Or.inr ⟨hsmart, Bool.eq_false_iff.mpr hreads,
              Bool.eq_false_iff.mpr hsets⟩⟩

/-- A SMART command that reads a sector is not one without data. -/
theorem smartNonData_of_reads {features : UInt8} (hreads : smartReads features = true) :
    smartNonData features = false := by
  unfold smartReads at hreads
  rw [decide_eq_true_iff] at hreads
  rcases hreads with rfl | rfl | rfl
  · decide
  · decide
  · decide

/-- A block without a protocol is not passed through. -/
theorem not_smartAccepted_of_none (hprotocol : ProtocolRight scb none) :
    ¬ SmartAccepted ext scb := by
  obtain ⟨hidentify, hidle, himmediate, hidle', himmediate'⟩ := smart_commands_ne
  rintro ⟨-, -, -, -, hcommand⟩
  rcases hprotocol with ⟨hreads, hlt⟩ | ⟨hsmart, hno, hno'⟩
  · rw [UInt32.lt_iff_toNat_lt] at hlt
    rcases hcommand with ⟨-, hle⟩ | hcmd | hcmd | ⟨hsmart, ⟨-, hle⟩ | hsets⟩
    · rw [UInt32.le_iff_toNat_le] at hle
      omega
    · rcases hreads with hread | ⟨hread, -⟩
      · exact hidle' (hcmd.symm.trans hread)
      · exact hidle (hcmd.symm.trans hread)
    · rcases hreads with hread | ⟨hread, -⟩
      · exact himmediate' (hcmd.symm.trans hread)
      · exact himmediate (hcmd.symm.trans hread)
    · rw [UInt32.le_iff_toNat_le] at hle
      omega
    · rcases hreads with hread | ⟨-, hread⟩
      · exact hidentify (hread.symm.trans hsmart)
      · rw [smartNonData_of_reads hread] at hsets
        exact nomatch hsets
  · rcases hcommand with ⟨hcmd, -⟩ | hcmd | hcmd | ⟨-, ⟨hreads, -⟩ | hsets⟩
    · exact hidentify (hcmd.symm.trans hsmart)
    · exact hidle (hcmd.symm.trans hsmart)
    · exact himmediate (hcmd.symm.trans hsmart)
    · rw [hno] at hreads
      exact nomatch hreads
    · rw [hno'] at hsets
      exact nomatch hsets

/-- A block of a ready drive with a protocol is passed through. -/
theorem smartAccepted_of_protocol {protocol : NonUdmaProtocol}
    (hbus : scb.bus < ext.numberOfChannels)
    (htarget : scb.target.toNat < pmMaxPorts)
    (hready : (ext.ataDriveData scb.bus scb.target).driveReady = true)
    (hlength : 6 < scb.dataBufferLength) (hprotocol : ProtocolRight scb (some protocol)) :
    SmartAccepted ext scb := by
  refine ⟨hbus, htarget, hready, hlength, ?_⟩
  cases protocol with
  | pioDataIn =>
    obtain ⟨hreads, hlt⟩ := hprotocol
    have hle : 518 ≤ scb.dataBufferLength := UInt32.not_lt.mp hlt
    rcases hreads with hcmd | ⟨hsmart, hreads⟩
    · exact Or.inl ⟨hcmd, hle⟩
    · exact Or.inr (Or.inr (Or.inr ⟨hsmart, Or.inl ⟨hreads, hle⟩⟩))
  | nonData =>
    rcases hprotocol.2 with hcmd | hcmd | ⟨hsmart, hsets⟩
    · exact Or.inr (Or.inl hcmd)
    · exact Or.inr (Or.inr (Or.inl hcmd))
    · exact Or.inr (Or.inr (Or.inr ⟨hsmart, Or.inr hsets⟩))

/-- A block whose command byte is none of those that are passed through is not passed through. -/
theorem not_smartAccepted_of_command (hcommand : smartCommand (scb.dataByte 0) = false) :
    ¬ SmartAccepted ext scb := by
  unfold smartCommand at hcommand
  rw [decide_eq_false_iff_not] at hcommand
  rintro ⟨-, -, -, -, ⟨hcmd, -⟩ | hcmd | hcmd | ⟨hcmd, -⟩⟩
  · exact hcommand (Or.inl hcmd)
  · exact hcommand (Or.inr (Or.inl hcmd))
  · exact hcommand (Or.inr (Or.inr (Or.inl hcmd)))
  · exact hcommand (Or.inr (Or.inr (Or.inr hcmd)))

/-- What a call of `mvScsiAtaSendSmartCommand` answers: the first six bytes of a longer buffer are
touched at most, nothing is reported as transferred, and an ATA command is queued for exactly the
blocks that are passed through and taken by the core driver. -/
structure SmartSent (ext : SalAdapterExtension) (scb : Scb) (result : QueueCommandResult)
    (reply : SmartReply) : Prop where
  touched : ∀ i ∈ reply.touched, i < 6 ∧ 6 < scb.dataBufferLength
  transfered : ∀ answer ∈ reply.completions, answer.dataTransfered = 0
  queued : ∀ queued, reply.queued = some queued →
    SmartAccepted ext scb ∧ result = .ok ∧ SameCommand scb reply.scb ∧
      ∃ protocol, ProtocolRight scb (some protocol) ∧
        queued = smartInfo protocol reply.toDataAccess
  accepts : SmartAccepted ext scb → result = .ok → ∃ queued, reply.queued = some queued

/-- A block that is completed at once is not queued. -/
theorem smartCompleted_sent (htouched : ∀ i ∈ a.touched, i < 6 ∧ 6 < scb.dataBufferLength)
    (htransfered : a.scb.dataTransfered = 0)
    (hnot : SmartAccepted ext scb → result ≠ .ok) :
    SmartSent ext scb result (smartCompleted a) := by
  refine ⟨htouched, fun answer hanswer => ?_, nofun, fun hacc hok => absurd hok (hnot hacc)⟩
  rw [List.mem_singleton.mp hanswer]
  exact htransfered

/-- A block that is rejected is not queued. -/
theorem smartRejected_sent (htouched : ∀ i ∈ a.touched, i < 6 ∧ 6 < scb.dataBufferLength)
    (htransfered : a.scb.dataTransfered = 0) (hnot : ¬ SmartAccepted ext scb) :
    SmartSent ext scb result (smartRejected a ascq) := by
  refine smartCompleted_sent htouched ?_ fun hacc => absurd hacc hnot
  dsimp only
  unfold setSenseData
  by_cases hlength : a.scb.senseBufferLength = 0
  · rw [if_pos hlength]
    exact htransfered
  · rw [if_neg hlength]
    exact htransfered

/-- A command that the core driver does not take has transferred nothing. -/
theorem checkQueueCommandResult_transfered (scb : Scb) (result : QueueCommandResult) :
    (checkQueueCommandResult scb result).dataTransfered = 0 := rfl

/-- What `mvScsiAtaSendSmartCommand` answers. -/
theorem mvScsiAtaSendSmartCommand_sent (ext : SalAdapterExtension) (scb : Scb) (ascq : UInt8)
    (result : QueueCommandResult) :
    SmartSent ext scb result (mvScsiAtaSendSmartCommand ext scb ascq result) := by
  unfold mvScsiAtaSendSmartCommand
  dsimp only
  by_cases hbus : scb.bus ≥ ext.numberOfChannels
  · rw [if_pos hbus]
    exact smartCompleted_sent nofun rfl fun hacc => absurd hbus (UInt8.not_le.mpr hacc.1)
  rw [if_neg hbus]
  by_cases hdevice : scb.target.toNat ≥ pmMaxPorts ∨
      (ext.ataDriveData scb.bus scb.target).driveReady = false
  · rw [if_pos hdevice]
    refine smartCompleted_sent nofun rfl fun hacc => ?_
    rcases hdevice with htarget | hready
    · exact absurd hacc.2.1 (Nat.not_lt.mpr htarget)
    · exact absurd (hready.symm.trans hacc.2.2.1) Bool.false_ne_true
  rw [if_neg hdevice]
  obtain ⟨htarget, hready⟩ := not_or.mp hdevice
  rw [Bool.not_eq_false] at hready
  by_cases hlength : scb.dataBufferLength ≤ 6
  · rw [if_pos hlength]
    exact smartRejected_sent nofun rfl fun hacc => UInt32.not_lt.mpr hlength hacc.2.2.2.1
  rw [if_neg hlength]
  have hlong : 6 < scb.dataBufferLength := UInt32.not_le.mp hlength
  generalize hb : DataAccess.read ⟨{ scb with dataTransfered := 0, senseDataLength := 0 }, []⟩
    [SMART_BUF_COMMAND_OFFSET] = b
  have hcmd : b.byte SMART_BUF_COMMAND_OFFSET = scb.dataByte 0 := by rw [← hb]; rfl
  have htransfered : b.scb.dataTransfered = 0 := by rw [← hb]; rfl
  have htouched : ∀ i ∈ b.touched, i < 6 ∧ 6 < scb.dataBufferLength := by
    rw [← hb]
    intro i hi
    rw [List.mem_singleton.mp hi]
    exact ⟨by decide, hlong⟩
  by_cases hcommand : smartCommand (b.byte SMART_BUF_COMMAND_OFFSET) = true
  · rw [if_pos hcommand]
    obtain ⟨hkeeps, hsame, hprotocol⟩ := smartProtocol_spec hcommand
    have hlengthEq : b.scb.dataBufferLength = scb.dataBufferLength := by rw [← hb]; rfl
    have hbytes : b.scb.pDataBuffer = scb.pDataBuffer := by rw [← hb]; rfl
    replace hsame : SameCommand scb (smartProtocol b).2.scb := by
      unfold SameCommand Scb.dataByte at hsame ⊢
      rw [hbytes] at hsame
      exact hsame
    replace hprotocol : ProtocolRight scb (smartProtocol b).1 := by
      revert hprotocol
      unfold ProtocolRight readsSector Scb.dataByte
      rw [hbytes, hlengthEq]
      exact id
    rcases hp : smartProtocol b with ⟨found, c⟩
    rw [hp] at hkeeps hsame hprotocol
    have hctouched : ∀ i ∈ c.touched, i < 6 ∧ 6 < scb.dataBufferLength := by
      intro i hi
      rcases hkeeps.touched i hi with hi | hi
      · exact htouched i hi
      · exact ⟨hi, hlong⟩
    have hctransfered : c.scb.dataTransfered = 0 := hkeeps.transfered.trans htransfered
    cases found with
    | none =>
      exact smartRejected_sent hctouched hctransfered (not_smartAccepted_of_none hprotocol)
    | some protocol =>
      dsimp only
      have hacc : SmartAccepted ext scb :=
        smartAccepted_of_protocol (UInt8.not_le.mp hbus) (Nat.not_le.mp htarget) hready hlong
          hprotocol
      generalize hd : c.read [SMART_BUF_FEATURES_OFFSET, SMART_BUF_SECTORCOUNT_OFFSET,
        SMART_BUF_LBALOW_OFFSET, SMART_BUF_LBAMID_OFFSET, SMART_BUF_LBAHIGH_OFFSET,
        SMART_BUF_COMMAND_OFFSET] = d
      have hscb : d.scb = c.scb := by rw [← hd]; rfl
      have hdtouched : ∀ i ∈ d.touched, i < 6 ∧ 6 < scb.dataBufferLength := by
        have hread := (TouchesHeader.refl c).read [SMART_BUF_FEATURES_OFFSET,
          SMART_BUF_SECTORCOUNT_OFFSET, SMART_BUF_LBALOW_OFFSET, SMART_BUF_LBAMID_OFFSET,
          SMART_BUF_LBAHIGH_OFFSET, SMART_BUF_COMMAND_OFFSET] (by decide)
        rw [hd] at hread
        intro i hi
        rcases hread.touched i hi with hi | hi
        · exact hctouched i hi
        · exact ⟨hi, hlong⟩
      by_cases hok : result = .ok
      · rw [if_pos hok]
        refine ⟨hdtouched, fun _ hanswer => absurd hanswer List.not_mem_nil,
          fun queued hqueued => ?_, fun _ _ => ⟨_, rfl⟩⟩
        refine ⟨hacc, hok, ?_, protocol, hprotocol, (Option.some.inj hqueued).symm⟩
        rw [hscb]
        exact hsame
      · rw [if_neg hok]
        exact smartCompleted_sent hdtouched
          (checkQueueCommandResult_transfered d.scb result) fun _ => hok
  · rw [if_neg hcommand]
    rw [Bool.not_eq_true, hcmd] at hcommand
    exact smartRejected_sent htouched htransfered (not_smartAccepted_of_command hcommand)

/-- The words that are queued are those of the drive, unless a log is read with a sector count other
than one. -/
theorem smartInfo_count_iff {protocol : NonUdmaProtocol} (hsame : SameCommand scb a.scb)
    (hprotocol : ProtocolRight scb (some protocol)) :
    (smartInfo protocol a).params.count.toNat = driveWords (smartInfo protocol a).params ↔
      (scb.dataByte 0 = WIN_SMART → scb.dataByte 2 = SMART_READ_LOG_SECTOR →
        scb.dataByte 3 = 1) := by
  obtain ⟨hidentify, hidle, himmediate, hidle', himmediate'⟩ := smart_commands_ne
  have hcommand : (smartInfo protocol a).params.command = scb.dataByte 0 := hsame.1
  unfold driveWords
  rw [hcommand]
  by_cases hsmart : scb.dataByte 0 = WIN_SMART
  · obtain ⟨htwo, hthree⟩ := hsame.2 hsmart
    have hfeatures : (smartInfo protocol a).params.features = (scb.dataByte 2).toUInt16 :=
      congrArg UInt8.toUInt16 htwo
    have hcount : (smartInfo protocol a).params.sectorCount.toNat = (scb.dataByte 3).toNat :=
      congrArg UInt8.toNat hthree
    rw [if_neg (hsmart ▸ hidentify.symm), if_pos hsmart, hfeatures, hcount]
    simp only [UInt8.toUInt16_inj]
    cases protocol with
    | pioDataIn =>
      have hreads : smartReads (scb.dataByte 2) = true := by
        rcases hprotocol.1 with hcmd | ⟨-, hreads⟩
        · exact absurd (hcmd.symm.trans hsmart) hidentify
        · exact hreads
      have hwords : (smartInfo .pioDataIn a).params.count.toNat = 256 := rfl
      rw [hwords]
      by_cases hlog : scb.dataByte 2 = SMART_READ_LOG_SECTOR
      · rw [if_pos hlog]
        constructor
        · intro heq _ _
          apply UInt8.toNat_inj.mp
          change (scb.dataByte 3).toNat = 1
          omega
        · intro hone
          rw [hone hsmart hlog]
          rfl
      · unfold smartReads at hreads
        rw [decide_eq_true_iff] at hreads
        rw [if_neg hlog, if_pos (by tauto)]
        exact ⟨fun _ _ h => absurd h hlog, fun _ => rfl⟩
    | nonData =>
      have hreads : smartReads (scb.dataByte 2) = false := by
        rw [← Bool.not_eq_true]
        exact fun hreads => hprotocol.1 (Or.inr ⟨hsmart, hreads⟩)
      unfold smartReads at hreads
      rw [decide_eq_false_iff_not] at hreads
      have hlog : scb.dataByte 2 ≠ SMART_READ_LOG_SECTOR :=
        fun h => hreads (Or.inr (Or.inr h))
      rw [if_neg hlog, if_neg (by tauto)]
      exact ⟨fun _ _ h => absurd h hlog, fun _ => rfl⟩
  · refine ⟨fun _ h => absurd h hsmart, fun _ => ?_⟩
    cases protocol with
    | pioDataIn =>
      rcases hprotocol.1 with hcmd | ⟨hcmd, -⟩
      · rw [if_pos hcmd]
        rfl
      · exact absurd hcmd hsmart
    | nonData =>
      rw [if_neg (fun h => hprotocol.1 (Or.inl h)), if_neg hsmart]
      rfl

/-- The transfer of a queued command stays within a buffer that is as long as its protocol asks. -/
theorem smartInfo_transfer_lt {protocol : NonUdmaProtocol}
    (hprotocol : ProtocolRight scb (some protocol)) :
    ∀ i ∈ (smartInfo protocol a).transfer, i < scb.dataBufferLength.toNat := by
  intro i hi
  cases protocol with
  | pioDataIn =>
    have hle : 518 ≤ scb.dataBufferLength := UInt32.not_lt.mp hprotocol.2
    rw [UInt32.le_iff_toNat_le] at hle
    have hlt := (List.mem_range'_1.mp hi).2
    change i < 6 + 512 at hlt
    change 518 ≤ scb.dataBufferLength.toNat at hle
    omega
  | nonData => exact nomatch hi

/-- `SmartFillReturnBuffer` touches the first fourteen bytes at most. -/
theorem smartFillReturnBuffer_touched (registers : SmartRegisters) :
    ∀ i ∈ (smartFillReturnBuffer a registers).touched, i ∈ a.touched ∨ i < 14 := by
  intro i
  unfold smartFillReturnBuffer
  dsimp only
  by_cases hsmart : (a.read [SMART_BUF_COMMAND_OFFSET]).byte SMART_BUF_COMMAND_OFFSET = WIN_SMART
  · rw [if_pos hsmart]
    by_cases hreads : smartReads (((a.read [SMART_BUF_COMMAND_OFFSET]).read
        [SMART_BUF_FEATURES_OFFSET]).byte SMART_BUF_FEATURES_OFFSET) = true
    · rw [if_pos hreads]
      simp only [DataAccess.read, List.append_assoc, List.mem_append, List.mem_singleton]
      rintro (hi | rfl | rfl)
      · exact Or.inl hi
      · exact Or.inr (by decide)
      · exact Or.inr (by decide)
    · rw [if_neg hreads]
      simp only [DataAccess.read, DataAccess.store, List.append_assoc, List.mem_append,
        List.mem_singleton]
      rintro (hi | hi)
      · exact Or.inl hi
      · right
        rcases hi with rfl | rfl | rfl | rfl | rfl | rfl | rfl | rfl | rfl | rfl <;> decide
  · rw [if_neg hsmart]
    simp only [DataAccess.read, List.mem_append, List.mem_singleton]
    rintro (hi | rfl)
    · exact Or.inl hi
    · exact Or.inr (by decide)

/-- A normal completion reports one sector, and touches the first fourteen bytes at most. -/
theorem smartCommandCompletionCB_normal (scb : Scb) (registers : SmartRegisters) :
    ∃ answer, smartCommandCompletionCB scb (.normal registers) = some answer ∧
      answer.scb.dataTransfered = 512 ∧ ∀ i ∈ answer.touched, i < 14 := by
  refine ⟨_, rfl, rfl, fun i hi => ?_⟩
  dsimp only at hi
  by_cases hopcode : scb.cmd 0 = SCSI_OPCODE_MVSATA_SMART
  · rw [if_pos hopcode] at hi
    rcases smartFillReturnBuffer_touched registers i hi with hi | hi
    · exact nomatch hi
    · exact hi
  · rw [if_neg hopcode] at hi
    exact nomatch hi

/-- Any other completion reports nothing and does not touch the buffer. -/
theorem smartCommandCompletionCB_other {completion : SmartCompletion} {answer : DataAccess}
    (hother : ∀ registers, completion ≠ .normal registers)
    (hanswer : smartCommandCompletionCB scb completion = some answer) :
    answer.scb.dataTransfered = 0 ∧ answer.touched = [] := by
  cases completion with
  | normal registers => exact absurd rfl (hother registers)
  | abort =>
    cases hanswer
    exact ⟨rfl, rfl⟩
  | error registers =>
    cases hanswer
    exact ⟨rfl, rfl⟩
  | unknown => exact nomatch hanswer

/-- An answer stays within a buffer exactly when a normal completion is for one of a sector at
least. -/
theorem smartCommandCompletionCB_right_iff (scb : Scb) (length : UInt32)
    (completion : SmartCompletion) :
    (∀ answer, smartCommandCompletionCB scb completion = some answer →
      (∀ i ∈ answer.touched, i < length.toNat) ∧ answer.scb.dataTransfered ≤ length) ↔
      ∀ registers, completion = .normal registers → 512 ≤ length := by
  constructor
  · intro hright registers hnormal
    obtain ⟨answer, hanswer, htransfered, -⟩ := smartCommandCompletionCB_normal scb registers
    rw [← hnormal] at hanswer
    rw [← htransfered]
    exact (hright answer hanswer).2
  · intro hlength answer hanswer
    by_cases hnormal : ∃ registers, completion = .normal registers
    · obtain ⟨registers, hnormal⟩ := hnormal
      obtain ⟨answer', hanswer', htransfered, htouched⟩ :=
        smartCommandCompletionCB_normal scb registers
      rw [hnormal, hanswer'] at hanswer
      cases hanswer
      have hle : 512 ≤ length := hlength registers hnormal
      refine ⟨fun i hi => ?_, htransfered ▸ hle⟩
      have hlt := htouched i hi
      rw [UInt32.le_iff_toNat_le] at hle
      change 512 ≤ length.toNat at hle
      omega
    · obtain ⟨htransfered, htouched⟩ :=
        smartCommandCompletionCB_other (fun registers h => hnormal ⟨registers, h⟩) hanswer
      rw [htouched, htransfered]
      exact ⟨nofun, UInt32.zero_le⟩

/-- A block is passed through within its data buffer exactly when a log is read with a sector count
of one and a normal completion is for a buffer of a sector at least. -/
theorem mvScsiAtaSendSmartCommand_right_iff (ext : SalAdapterExtension) (scb : Scb) (ascq : UInt8)
    (result : QueueCommandResult) (bytes : List UInt8) (completion : SmartCompletion) :
    SmartRight ext scb ascq result bytes completion ↔ SmartSound ext scb result completion := by
  have hsent := mvScsiAtaSendSmartCommand_sent ext scb ascq result
  constructor
  · intro hright hacc hok
    obtain ⟨queued, hqueued⟩ := hsent.accepts hacc hok
    obtain ⟨-, -, hsame, protocol, hprotocol, hinfo⟩ := hsent.queued queued hqueued
    have hcount := hright.count_eq queued hqueued
    rw [hinfo] at hcount
    exact ⟨(smartInfo_count_iff hsame hprotocol).mp hcount,
      (smartCommandCompletionCB_right_iff _ _ _).mp (hright.answer_right queued hqueued)⟩
  · intro hsound
    refine ⟨fun i hi => ?_, fun answer hanswer => ?_, fun queued hqueued => ?_,
      fun queued hqueued => ?_, fun queued hqueued => ?_⟩
    · obtain ⟨hlt, hlength⟩ := hsent.touched i hi
      rw [UInt32.lt_iff_toNat_lt] at hlength
      exact Nat.lt_trans hlt hlength
    · rw [hsent.transfered answer hanswer]
      exact UInt32.zero_le
    · obtain ⟨-, -, -, protocol, hprotocol, hinfo⟩ := hsent.queued queued hqueued
      rw [hinfo]
      exact smartInfo_transfer_lt hprotocol
    · obtain ⟨hacc, hok, hsame, protocol, hprotocol, hinfo⟩ := hsent.queued queued hqueued
      rw [hinfo]
      exact (smartInfo_count_iff hsame hprotocol).mpr (hsound hacc hok).1
    · obtain ⟨hacc, hok, -⟩ := hsent.queued queued hqueued
      exact (smartCommandCompletionCB_right_iff _ _ _).mpr (hsound hacc hok).2

/-- A layer with one ready drive. -/
def smartExtension : SalAdapterExtension :=
  { numberOfChannels := 1
    pHead := []
    uaMask := 0xFF
    ataDriveData := fun _ _ => smallDrive }

/-- A block that passes an ATA command through. -/
def smartBlock (pDataBuffer : List UInt8) (dataBufferLength : UInt32) : Scb :=
  { hostBlock [SCSI_OPCODE_MVSATA_SMART, 0, 0, 0, 0, 0] dataBufferLength with pDataBuffer }

/-- Registers as a drive leaves them. -/
def idleRegisters : SmartRegisters :=
  { errorRegister := 0
    lbaLowRegister := 0
    lbaMidRegister := 0x4F
    lbaHighRegister := 0xC2
    deviceRegister := 0x40
    sectorCountRegister := 0 }

/-- The answer to SMART STATUS is written behind a buffer of seven bytes, and of a log of two
sectors one is queued. -/
theorem statusBlock_logBlock_not_right :
    ¬ SmartRight smartExtension (smartBlock [WIN_SMART, 0, SMART_STATUS, 0, 0, 0, 0] 7) 0 .ok []
        (.normal idleRegisters) ∧
      ¬ SmartRight smartExtension
        (smartBlock ([WIN_SMART, 0, SMART_READ_LOG_SECTOR, 2, 0, 0] ++ List.replicate 1024 0) 1030)
        0 .ok [] (.normal idleRegisters) := by
  constructor
  · intro hright
    have hinside := (hright.answer_right _ rfl _ rfl).1 13 (by decide)
    exact absurd hinside (by decide)
  · intro hright
    exact absurd (hright.count_eq _ rfl) (by decide)

end Mv88fxx81.Sata
