import Mathlib.Data.List.Nodup
import Mv88fxx81.Sata.IalPorts

/-!
# Drives that come and go

Two snapshots of the drives of a channel are kept: the one of the last time the
channel was ready, and the current one. When the channel is ready again, the
operating system is told the difference of the two. This file shows that it knows
the drives that are ready, as long as the initialisation of no drive that it knows
fails, and the part of the serial number that is kept tells the drives apart.
-/

namespace Mv88fxx81.Sata.Ial

open TransitionSystem

variable {n : ℕ} {hw : ChannelHardware} {ch ch' : IalChannel} {p i : ℕ} {s s' : AdapterState}
  {info : DrivesInfo}

/-! ### The difference of two snapshots -/

/-- A drive has been removed, or replaced by another one. -/
def DrivesInfo.removes (info : DrivesInfo) (p : ℕ) : Bool :=
  info.drivesSnapshotSaved.getLsbD p &&
    (!info.drivesSnapshotCurrent.getLsbD p ||
      decide (info.driveSerialCurrent p ≠ info.driveSerialSaved p))

/-- A drive has been added, or has replaced another one. -/
def DrivesInfo.adds (info : DrivesInfo) (p : ℕ) : Bool :=
  info.drivesSnapshotCurrent.getLsbD p &&
    (!info.drivesSnapshotSaved.getLsbD p ||
      decide (info.driveSerialCurrent p ≠ info.driveSerialSaved p))

/-- Set the bit of a port on a condition. -/
def setPort (devs : BitVec 16) (p : ℕ) (b : Bool) : BitVec 16 :=
  if b then devs ||| portBit p else devs

theorem getLsbD_setPort (devs : BitVec 16) (p i : ℕ) (b : Bool) :
    (setPort devs p b).getLsbD i = (devs.getLsbD i || (b && decide (i = p ∧ i < 16))) := by
  unfold setPort
  cases b with
  | false => simp
  | true => simp [getLsbD_portBit]

/-- The loop of `mvDrivesInfoGetChannelRescanParams`. -/
theorem mvDrivesInfoGetChannelRescanParams_eq (info : DrivesInfo) :
    mvDrivesInfoGetChannelRescanParams info =
      (List.range pmMaxPorts).foldl (fun (remove, add) p =>
        (setPort remove p (info.removes p), setPort add p (info.adds p))) (0, 0) := by
  unfold mvDrivesInfoGetChannelRescanParams
  congr 1
  funext ⟨remove, add⟩ p
  unfold DrivesInfo.removes DrivesInfo.adds setPort
  by_cases hcurrent : info.drivesSnapshotCurrent.getLsbD p = true
  · by_cases hsaved : info.drivesSnapshotSaved.getLsbD p = true
    · by_cases hserial : info.driveSerialCurrent p = info.driveSerialSaved p
      · simp [hcurrent, hsaved, hserial]
      · simp [hcurrent, hsaved, hserial]
    · simp [hcurrent, hsaved]
  · by_cases hsaved : info.drivesSnapshotSaved.getLsbD p = true
    · simp [hcurrent, hsaved]
    · simp [hcurrent, hsaved]

/-- The bits after the loop over some ports. -/
theorem foldl_setPort (f g : ℕ → Bool) (ports : List ℕ) (remove add : BitVec 16) (i : ℕ) :
    let result := ports.foldl (fun (remove, add) p => (setPort remove p (f p), setPort add p (g p)))
      (remove, add)
    result.1.getLsbD i = (remove.getLsbD i || (f i && decide (i ∈ ports ∧ i < 16))) ∧
      result.2.getLsbD i = (add.getLsbD i || (g i && decide (i ∈ ports ∧ i < 16))) := by
  induction ports generalizing remove add with
  | nil => simp
  | cons p ports ih =>
    obtain ⟨hremove, hadd⟩ := ih (setPort remove p (f p)) (setPort add p (g p))
    dsimp only [List.foldl_cons]
    dsimp only at hremove hadd
    rw [hremove, hadd, getLsbD_setPort, getLsbD_setPort]
    by_cases hp : i = p
    · subst hp
      by_cases hi : i < 16
      · simp [hi]
        constructor
        · cases remove.getLsbD i <;> cases f i <;> simp
        · cases add.getLsbD i <;> cases g i <;> simp
      · simp [hi]
    · simp [hp]

/-- The drives to remove and to add. -/
theorem rescanParams_bits (info : DrivesInfo) (hp : p < 15) :
    (mvDrivesInfoGetChannelRescanParams info).1.getLsbD p = info.removes p ∧
      (mvDrivesInfoGetChannelRescanParams info).2.getLsbD p = info.adds p := by
  obtain ⟨hremove, hadd⟩ := foldl_setPort info.removes info.adds (List.range pmMaxPorts) 0 0 p
  have hmem : p ∈ List.range pmMaxPorts ∧ p < 16 := ⟨List.mem_range.mpr hp, by omega⟩
  rw [mvDrivesInfoGetChannelRescanParams_eq]
  dsimp only at hremove hadd
  constructor
  · rw [hremove]
    simp [hmem]
  · rw [hadd]
    simp [hmem]

/-- Ports beyond the last one are neither removed nor added. -/
theorem rescanParams_beyond (info : DrivesInfo) (hp : 15 ≤ p) :
    (mvDrivesInfoGetChannelRescanParams info).1.getLsbD p = false ∧
      (mvDrivesInfoGetChannelRescanParams info).2.getLsbD p = false := by
  obtain ⟨hremove, hadd⟩ := foldl_setPort info.removes info.adds (List.range pmMaxPorts) 0 0 p
  have hmem : p ∉ List.range pmMaxPorts := by
    intro hmem
    have hlt : p < 15 := List.mem_range.mp hmem
    omega
  rw [mvDrivesInfoGetChannelRescanParams_eq]
  dsimp only at hremove hadd
  constructor
  · rw [hremove]
    simp [hmem]
  · rw [hadd]
    simp [hmem]

/-! ### What the operating system knows -/

/-- The drive that the operating system knows behind a port. -/
def IalChannel.known (ch : IalChannel) (p : ℕ) : Option Serial := ch.osView.bind fun view => view p

/-- The saved snapshot is what the operating system knows. -/
structure SavedKnown (ch : IalChannel) : Prop where
  saved : ∀ p, ch.drivesInfo.drivesSnapshotSaved.getLsbD p = (ch.known p).isSome
  serials : ∀ p serial, ch.known p = some serial →
    ch.drivesInfo.driveSerialSaved p = savedPart serial
  below : ∀ p, (ch.known p).isSome = true → p < 15

/-- The current snapshot is the set of the drives that are ready. -/
structure CurrentReady (ch : IalChannel) : Prop where
  current : ∀ p, ch.drivesInfo.drivesSnapshotCurrent.getLsbD p = ch.driveReady p
  serials : ∀ p, ch.driveReady p = true →
    ch.drivesInfo.driveSerialCurrent p = savedPart (ch.identifySerial p)
  below : ∀ p, ch.driveReady p = true → p < 15
  /-- The part of the serial number that is kept tells a new drive from the one before. -/
  apart : ∀ p serial, ch.driveReady p = true → ch.known p = some serial →
    savedPart serial = savedPart (ch.identifySerial p) → serial = ch.identifySerial p

/-- The view after the operating system has been told the difference of the snapshots. -/
theorem notify_rescan {view : OsView} (hview : ch.osView = some view) (hsaved : SavedKnown ch)
    (hcurrent : CurrentReady ch) :
    view.notify (mvDrivesInfoGetChannelRescanParams ch.drivesInfo).1
      (mvDrivesInfoGetChannelRescanParams ch.drivesInfo).2 ch.identifySerial = ch.readyDrives := by
  have hknown : ∀ p, ch.known p = view p := by
    intro p
    unfold IalChannel.known
    rw [hview]
    rfl
  funext p
  unfold OsView.notify IalChannel.readyDrives
  dsimp only
  by_cases hp : p < 15
  · obtain ⟨hremove, hadd⟩ := rescanParams_bits ch.drivesInfo hp
    rw [hremove, hadd]
    unfold DrivesInfo.removes DrivesInfo.adds
    rw [hsaved.saved p, hcurrent.current p, hknown p]
    cases hready : ch.driveReady p with
    | false =>
      cases view p with
      | none => simp
      | some serial => simp
    | true =>
      cases hserial : view p with
      | none => simp
      | some serial =>
        have hold : ch.known p = some serial := (hknown p).trans hserial
        rw [hcurrent.serials p hready, hsaved.serials p serial hold]
        by_cases hsame : savedPart (ch.identifySerial p) = savedPart serial
        · have heq := hcurrent.apart p serial hready hold hsame.symm
          simp [hsame, heq]
        · simp [hsame]
  · obtain ⟨hremove, hadd⟩ := rescanParams_beyond ch.drivesInfo (Nat.le_of_not_lt hp)
    rw [hremove, hadd]
    have hready : ch.driveReady p = false := by
      rw [Bool.eq_false_iff]
      exact fun hready => hp (hcurrent.below p hready)
    have hnone : view p = none := by
      rw [← hknown p, ← Option.not_isSome_iff_eq_none]
      exact fun hsome => hp (hsaved.below p hsome)
    simp [hready, hnone]

/-- A notification without a drive changes nothing. -/
theorem notify_zero (view : OsView) (serial : ℕ → Serial) : view.notify 0 0 serial = view := by
  funext p
  simp [OsView.notify]

/-- When a channel gets ready, the operating system knows the drives that are ready. -/
theorem readyView_eq (hsaved : SavedKnown ch) (hcurrent : CurrentReady ch)
    (hplug : ch.osView.isSome = true → ch.bHotPlug = true) : readyView ch = ch.readyDrives := by
  unfold readyView
  cases hview : ch.osView with
  | none => simp
  | some view =>
    have hnotify := notify_rescan hview hsaved hcurrent
    have hplug : ch.bHotPlug = true := hplug (by rw [hview]; rfl)
    dsimp only
    split_ifs with hchange
    · exact hnotify
    · have hzero : (mvDrivesInfoGetChannelRescanParams ch.drivesInfo).1 = 0 ∧
          (mvDrivesInfoGetChannelRescanParams ch.drivesInfo).2 = 0 := by
        by_contra hsome
        exact hchange ⟨hplug, by tauto⟩
      rw [hzero.1, hzero.2, notify_zero] at hnotify
      exact hnotify

/-- When a channel is stopped, the operating system knows no drive. -/
theorem stoppedView_none (hsaved : SavedKnown ch) (p : ℕ) :
    ((stoppedView ch).bind fun view => view p) = none := by
  unfold stoppedView
  have hbit := hsaved.saved p
  unfold IalChannel.known at hbit
  cases hview : ch.osView with
  | none => simp
  | some view =>
    rw [hview] at hbit
    dsimp only [Option.bind_some] at hbit
    split_ifs with hdrives
    · simp only [Option.map_some, Option.bind_some, OsView.notify]
      rw [hbit]
      cases view p with
      | none => simp
      | some serial => simp
    · rw [not_not.mp hdrives] at hbit
      simp only [Option.bind_some]
      rw [← Option.not_isSome_iff_eq_none, ← hbit]
      simp

/-- No drive is known and none is in the saved snapshot. -/
theorem SavedKnown.none (hsaved : ch.drivesInfo.drivesSnapshotSaved = 0)
    (hnone : ∀ p, ch.known p = none) : SavedKnown ch := by
  refine ⟨fun p => ?_, fun p serial hsome => ?_, fun p hsome => ?_⟩
  · simp [hsaved, hnone p]
  · cases (hnone p).symm.trans hsome
  · cases (congrArg Option.isSome (hnone p)).symm.trans hsome

/-- No drive is ready and none is in the current snapshot. -/
theorem CurrentReady.none (hcurrent : ch.drivesInfo.drivesSnapshotCurrent = 0)
    (hgone : ∀ p, ch.driveReady p = false) : CurrentReady ch := by
  refine ⟨fun p => ?_, fun p hready => ?_, fun p hready => ?_, fun p serial hready => ?_⟩
  · simp [hcurrent, hgone p]
  · cases (hgone p).symm.trans hready
  · cases (hgone p).symm.trans hready
  · cases (hgone p).symm.trans hready

/-! ### The drives during a bring-up -/

/-- What is known about the drives while a channel is brought up. -/
structure BringingUp (ch : IalChannel) : Prop where
  saved : SavedKnown ch
  current : CurrentReady ch
  number : ch.pmNumberOfPorts ≤ 15
  port : ch.devInSRST = 16 ∨ ch.devInSRST < 15
  allocated : ch.sataChannel = true
  plug : ch.osView.isSome = true → ch.bHotPlug = true
  idle : ch.pmRegAccessInProgress = false

/-- What is known about the drives of a channel in each state. -/
structure Tracked (ch : IalChannel) : Prop where
  saved : SavedKnown ch
  current : ch.channelState ≠ .ready → ch.channelState ≠ .pmHotPlug → CurrentReady ch
  number : ch.pmNumberOfPorts ≤ 15
  port : ch.devInSRST = 16 ∨ ch.devInSRST < 15
  allocated : ch.channelState ≠ .notConnected → ch.channelState ≠ .connected →
    ch.sataChannel = true
  released : ch.channelState = .notConnected → ch.sataChannel = false
  forgotten : ch.sataChannel = false → ∀ p, ch.known p = none
  plug : ch.channelState ≠ .notConnected → ch.channelState ≠ .ready →
    ch.channelState ≠ .pmHotPlug → ch.osView.isSome = true → ch.bHotPlug = true
  gone : ch.channelState = .notConnected ∨ ch.channelState = .connected →
    ∀ p, ch.driveReady p = false
  told : ch.channelState = .ready ∨ ch.channelState = .pmHotPlug →
    ch.osView = some ch.readyDrives
  reading : ch.pmRegAccessInProgress = true → ch.channelState = .ready

/-- The states in which the drives are found. -/
def ChannelState.Finding (state : ChannelState) : Prop :=
  state = .inSrst ∨ state = .pmStaggeredSpinUp ∨ state = .pmSrstDevice

theorem ChannelState.Finding.ne {state : ChannelState} (hstate : state.Finding) :
    state ≠ .ready ∧ state ≠ .pmHotPlug ∧ state ≠ .notConnected ∧ state ≠ .connected := by
  rcases hstate with rfl | rfl | rfl
  · simp
  · simp
  · simp

theorem Tracked.bringingUp (h : Tracked ch) (hstate : ch.channelState.Finding) : BringingUp ch := by
  have hne := hstate.ne
  refine ⟨h.saved, h.current hne.1 hne.2.1, h.number, h.port, h.allocated hne.2.2.1 hne.2.2.2,
    h.plug hne.2.2.1 hne.1 hne.2.1, ?_⟩
  rw [Bool.eq_false_iff]
  exact fun hreading => hne.1 (h.reading hreading)

theorem BringingUp.tracked (h : BringingUp ch) (hstate : ch.channelState.Finding) : Tracked ch := by
  have hne := hstate.ne
  refine ⟨h.saved, fun _ _ => h.current, h.number, h.port, fun _ _ => h.allocated,
    fun hnot => absurd hnot hne.2.2.1, ?_, fun _ _ _ => h.plug, ?_, ?_, ?_⟩
  · intro hnone
    rw [h.allocated] at hnone
    cases hnone
  · rintro (hnot | hnot)
    · exact absurd hnot hne.2.2.1
    · exact absurd hnot hne.2.2.2
  · rintro (hnot | hnot)
    · exact absurd hnot hne.1
    · exact absurd hnot hne.2.1
  · intro hreading
    rw [h.idle] at hreading
    cases hreading

theorem Keeps.known (hkeeps : Keeps ch ch') : ch'.known = ch.known := by
  have hview : ch'.osView = ch.osView := congrArg Outer.osView hkeeps.outer
  funext p
  unfold IalChannel.known
  rw [hview]

/-- A change of the timers and of the ports. -/
theorem BringingUp.of_keeps (h : BringingUp ch) (hkeeps : Keeps ch ch')
    (hnumber : ch'.pmNumberOfPorts ≤ 15) (hport : ch'.devInSRST = 16 ∨ ch'.devInSRST < 15) :
    BringingUp ch' := by
  have hinfo : ch'.drivesInfo = ch.drivesInfo := congrArg Drives.drivesInfo hkeeps.drives
  have hready : ch'.driveReady = ch.driveReady := congrArg Drives.driveReady hkeeps.drives
  have hidentify : ch'.identifySerial = ch.identifySerial :=
    congrArg Drives.identifySerial hkeeps.drives
  have hview : ch'.osView = ch.osView := congrArg Outer.osView hkeeps.outer
  have hknown := hkeeps.known
  refine ⟨⟨?_, ?_, ?_⟩, ⟨?_, ?_, ?_, ?_⟩, hnumber, hport,
    (congrArg Outer.sataChannel hkeeps.outer).trans h.allocated, ?_,
    (congrArg Outer.pmRegAccessInProgress hkeeps.outer).trans h.idle⟩
  · rw [hinfo, hknown]
    exact h.saved.saved
  · rw [hinfo, hknown]
    exact h.saved.serials
  · rw [hknown]
    exact h.saved.below
  · rw [hinfo, hready]
    exact h.current.current
  · rw [hinfo, hready, hidentify]
    exact h.current.serials
  · rw [hready]
    exact h.current.below
  · rw [hknown, hready, hidentify]
    exact h.current.apart
  · have hplug : ch'.bHotPlug = ch.bHotPlug := congrArg Outer.bHotPlug hkeeps.outer
    rw [hview, hplug]
    exact h.plug

/-- A channel that is stopped. -/
theorem mvStopChannel_tracked (hsaved : SavedKnown ch) (hnumber : ch.pmNumberOfPorts ≤ 15)
    (hport : ch.devInSRST = 16 ∨ ch.devInSRST < 15)
    (hreading : ch.pmRegAccessInProgress = true → ch.sataChannel = true) :
    Tracked (mvStopChannel ch) := by
  have hidle := mvStopChannel_reading hreading
  have hnone := stoppedView_none hsaved
  obtain ⟨threshold, value, reading, hstop⟩ := mvStopChannel_eq ch
  rw [hstop] at hidle ⊢
  refine ⟨.none rfl hnone, fun _ _ => .none rfl fun _ => rfl, hnumber, hport,
    fun hnot => absurd rfl hnot, fun _ => rfl, fun _ => hnone, fun hnot => absurd rfl hnot,
    fun _ _ => rfl, ?_, ?_⟩
  · rintro (hnot | hnot)
    · cases hnot
    · cases hnot
  · intro hread
    dsimp only at hidle hread
    rw [hidle] at hread
    cases hread

/-- A channel that is started again. -/
theorem mvRestartChannel_tracked (hsaved : SavedKnown ch) (hnumber : ch.pmNumberOfPorts ≤ 15)
    (hport : ch.devInSRST = 16 ∨ ch.devInSRST < 15)
    (hreading : ch.pmRegAccessInProgress = true → ch.sataChannel = true)
    (hforgotten : ch.sataChannel = false → ∀ p, ch.known p = none) :
    Tracked (mvRestartChannel ch) := by
  have hidle := mvRestartChannel_reading hreading
  obtain ⟨reading, hrestart⟩ := mvRestartChannel_eq ch
  rw [hrestart] at hidle ⊢
  refine ⟨⟨hsaved.saved, hsaved.serials, hsaved.below⟩, fun _ _ => .none rfl fun _ => rfl, hnumber,
    hport, fun _ hnot => absurd rfl hnot, ?_, hforgotten, fun _ _ _ _ => rfl, fun _ _ => rfl, ?_,
    ?_⟩
  · intro hnot
    cases hnot
  · rintro (hnot | hnot)
    · cases hnot
    · cases hnot
  · intro hread
    dsimp only at hidle hread
    rw [hidle] at hread
    cases hread

theorem BringingUp.stop (h : BringingUp ch) : Tracked (mvStopChannel ch) :=
  mvStopChannel_tracked h.saved h.number h.port fun _ => h.allocated

theorem BringingUp.restart (h : BringingUp ch) : Tracked (mvRestartChannel ch) := by
  refine mvRestartChannel_tracked h.saved h.number h.port (fun _ => h.allocated) fun hnone => ?_
  rw [h.allocated] at hnone
  cases hnone

/-- The operating system is told the drives when the channel gets ready. -/
theorem BringingUp.finish (h : BringingUp ch) (hstate : ch.channelState ≠ .ready) :
    Tracked (finishChannel hw ch) := by
  unfold finishChannel
  split_ifs
  · have hview := readyView_eq h.saved h.current h.plug
    have hknown : ∀ p, (ch.readyDrives p).isSome = ch.driveReady p := by
      intro p
      unfold IalChannel.readyDrives
      cases ch.driveReady p with
      | false => rfl
      | true => rfl
    rw [mvSetChannelState_ready hstate, hview]
    refine ⟨⟨?_, ?_, ?_⟩, fun hnot => absurd rfl hnot, h.number, h.port, fun _ _ => h.allocated, ?_,
      ?_, fun _ hnot => absurd rfl hnot, ?_, fun _ => rfl, fun _ => rfl⟩
    · intro p
      exact (h.current.current p).trans (hknown p).symm
    · intro p serial hsome
      have hserial : (if ch.driveReady p = true then some (ch.identifySerial p) else none) =
        some serial := hsome
      split_ifs at hserial with hready
      rw [← Option.some.inj hserial]
      exact h.current.serials p hready
    · intro p hsome
      exact h.current.below p ((hknown p).symm.trans hsome)
    · intro hnot
      cases hnot
    · intro hnone
      have hallocated := h.allocated
      rw [show ch.sataChannel = false from hnone] at hallocated
      cases hallocated
    · rintro (hnot | hnot)
      · cases hnot
      · cases hnot
  · exact h.stop

/-! ### The disks that are initialised -/

/-- The part of the serial number that is kept tells a drive from the one before. -/
def TellsApart (before : Option Serial) (serial : Serial) : Prop :=
  ∀ old, before = some old → savedPart old = savedPart serial → old = serial

instance : (before : Option Serial) → (serial : Serial) → Decidable (TellsApart before serial)
  | none, _ => isTrue fun _ hnone => by cases hnone
  | some old, serial =>
    decidable_of_iff (savedPart old = savedPart serial → old = serial)
      ⟨fun h _ hold => Option.some.inj hold ▸ h, fun h => h old rfl⟩

/-- The initialisation of a disk fails only when it is not in a snapshot, and a disk that is
initialised can be told from the one that the operating system knows. -/
def DiskTracked (hw : ChannelHardware) (ch : IalChannel) (p : ℕ) : Prop :=
  if hw.initDisk p then TellsApart (ch.known p) (hw.identify p)
  else ch.drivesInfo.drivesSnapshotSaved.getLsbD p = false ∧ ch.driveReady p = false

instance (hw : ChannelHardware) (ch : IalChannel) (p : ℕ) : Decidable (DiskTracked hw ch p) :=
  inferInstanceAs (Decidable (if hw.initDisk p = true then _ else _ ∧ _))

/-- The port whose disk is initialised in a tick. -/
def portToInit (hw : ChannelHardware) (ch : IalChannel) : Option ℕ :=
  match ch.channelState with
  | .inSrst =>
    if hw.bsyBitOff = true ∧ hw.deviceType = .ataDisk ∧ hw.setDeviceType = true then some 0
    else none
  | .pmSrstDevice =>
    if ch.devInSRST ≠ pmControlPort + 1 ∧ hw.bsyBitOff = true ∧ hw.linkStatus = some 0 then
      some ch.devInSRST
    else none
  | _ => none

/-- The condition on a tick. -/
def DisksTracked (s : AdapterState) (ch : IalChannel) (hw : ChannelHardware) : Prop :=
  s = .ready → ∀ p, portToInit hw ch = some p → DiskTracked hw ch p

instance (s : AdapterState) (ch : IalChannel) (hw : ChannelHardware) :
    Decidable (DisksTracked s ch hw) :=
  decidable_of_iff
    (s = .ready → (portToInit hw ch).all (fun p => decide (DiskTracked hw ch p)) = true)
    (by simp only [DisksTracked, Option.all_eq_true, decide_eq_true_iff])

/-- A disk that is initialised becomes part of the current snapshot; one that is not was in none. -/
theorem initDisk_bringingUp (h : BringingUp ch) (hp : p < 15) (hok : DiskTracked hw ch p) :
    BringingUp (initDisk hw ch p).2 := by
  unfold DiskTracked at hok
  unfold initDisk
  dsimp only
  split_ifs at hok ⊢ with hinit
  · refine ⟨⟨h.saved.saved, h.saved.serials, h.saved.below⟩, ⟨?_, ?_, ?_, ?_⟩, h.number, h.port,
      h.allocated, h.plug, h.idle⟩
    · intro q
      dsimp only [setDriveReady]
      rw [getLsbD_set, h.current.current q]
      by_cases hq : q = p
      · subst hq
        have hlt : q < 16 := by omega
        simp [hlt]
      · rw [Function.update_of_ne hq]
        simp [hq]
    · intro q hready
      dsimp only [setDriveReady] at hready ⊢
      by_cases hq : q = p
      · subst hq
        rw [Function.update_self, Function.update_self]
      · rw [Function.update_of_ne hq] at hready ⊢
        rw [Function.update_of_ne hq]
        exact h.current.serials q hready
    · intro q hready
      dsimp only [setDriveReady] at hready
      by_cases hq : q = p
      · subst hq
        exact hp
      · rw [Function.update_of_ne hq] at hready
        exact h.current.below q hready
    · intro q serial hready hknown
      dsimp only [setDriveReady] at hready ⊢
      by_cases hq : q = p
      · subst hq
        rw [Function.update_self]
        exact hok serial hknown
      · rw [Function.update_of_ne hq] at hready ⊢
        exact h.current.apart q serial hready hknown
  · obtain ⟨hnotSaved, hnotReady⟩ := hok
    have hunknown : ch.known p = none := by
      rw [← Option.not_isSome_iff_eq_none, ← h.saved.saved p, hnotSaved]
      simp
    have hother : ∀ q serial, ch.known q = some serial → q ≠ p := by
      intro q serial hknown hq
      rw [hq, hunknown] at hknown
      cases hknown
    have hotherReady : ∀ q, ch.driveReady q = true → q ≠ p := by
      intro q hready hq
      rw [hq, hnotReady] at hready
      cases hready
    refine ⟨⟨?_, ?_, h.saved.below⟩, ⟨?_, ?_, h.current.below, ?_⟩, h.number, h.port,
      h.allocated, h.plug, h.idle⟩
    · intro q
      dsimp only [mvDrivesInfoFlushSingleDrive]
      rw [getLsbD_clear]
      by_cases hq : q = p
      · rw [hq, hnotSaved]
        exact (congrArg Option.isSome hunknown).symm
      · rw [h.saved.saved q]
        simp only [hq, ne_eq, not_false_eq_true, decide_true, Bool.and_true]
        rfl
    · intro q serial hknown
      dsimp only [mvDrivesInfoFlushSingleDrive]
      rw [Function.update_of_ne (hother q serial hknown)]
      exact h.saved.serials q serial hknown
    · intro q
      dsimp only [mvDrivesInfoFlushSingleDrive]
      rw [getLsbD_clear, h.current.current q]
      by_cases hq : q = p
      · rw [hq, hnotReady]
        simp
      · simp [hq]
    · intro q hready
      dsimp only [mvDrivesInfoFlushSingleDrive]
      rw [Function.update_of_ne (hotherReady q hready),
        Function.update_of_ne (hotherReady q hready)]
      exact h.current.serials q hready
    · intro q serial hready hknown
      dsimp only [mvDrivesInfoFlushSingleDrive]
      rw [Function.update_of_ne (hotherReady q hready)]
      exact h.current.apart q serial hready hknown

theorem DiskTracked.of_keeps (h : DiskTracked hw ch p) (hkeeps : Keeps ch ch') :
    DiskTracked hw ch' p := by
  have hinfo : ch'.drivesInfo = ch.drivesInfo := congrArg Drives.drivesInfo hkeeps.drives
  have hready : ch'.driveReady = ch.driveReady := congrArg Drives.driveReady hkeeps.drives
  unfold DiskTracked at h ⊢
  rw [hkeeps.known, hinfo, hready]
  exact h

theorem mvDecrementChannelTimer_bringingUp (h : BringingUp ch) :
    BringingUp (mvDecrementChannelTimer ch) := by
  obtain ⟨hnumber, -, hdev⟩ := mvDecrementChannelTimer_ports ch
  refine h.of_keeps (mvDecrementChannelTimer_keeps ch) ?_ ?_
  · rw [hnumber]
    exact h.number
  · rw [hdev]
    exact h.port

/-- The drives after the reset of the channel. -/
theorem mvChannelSRSTFinished_bringingUp (h : BringingUp ch) (hstate : ch.channelState = .inSrst)
    (hok : DisksTracked .ready ch hw) :
    BringingUp (mvChannelSRSTFinished hw (mvDecrementChannelTimer ch)).2 := by
  have htimer := mvDecrementChannelTimer_bringingUp h
  rcases mvChannelSRSTFinished_cases hw (mvDecrementChannelTimer ch) with
    hcase | hcase | hcase | ⟨hdisk, hcase⟩
  · rw [hcase]
    exact htimer
  · rw [hcase]
    exact htimer
  · rw [hcase]
    exact htimer.of_keeps ⟨rfl, rfl⟩ htimer.number htimer.port
  · rw [hcase]
    have hfound : BringingUp { mvDecrementChannelTimer ch with deviceType := .ataDisk } :=
      htimer.of_keeps ⟨rfl, rfl⟩ htimer.number htimer.port
    have hport : portToInit hw ch = some 0 := by
      unfold portToInit
      rw [hstate]
      exact if_pos hdisk
    have hkeeps : Keeps ch { mvDecrementChannelTimer ch with deviceType := .ataDisk } :=
      (mvDecrementChannelTimer_keeps ch).trans ⟨rfl, rfl⟩
    exact initDisk_bringingUp hfound (by omega) ((hok rfl 0 hport).of_keeps hkeeps)

theorem nextPort_bringingUp {giveUp : ℕ → Bool} (h : BringingUp ch) :
    BringingUp (nextPort hw giveUp ch).2 := by
  obtain ⟨hnext, hnumber⟩ := nextPort_port hw giveUp ch
  have hbefore := h.port
  have hle := h.number
  refine h.of_keeps (nextPort_keeps hw giveUp ch) ?_ ?_
  · omega
  · omega

/-- The drives after the port that has been reset is initialised. -/
theorem mvInitPMDevice_bringingUp (h : BringingUp ch) (hstate : ch.channelState = .pmSrstDevice)
    (hok : DisksTracked .ready ch hw) :
    BringingUp (mvInitPMDevice hw (mvDecrementChannelTimer ch)).2 := by
  have htimer := mvDecrementChannelTimer_bringingUp h
  have hkeeps := mvDecrementChannelTimer_keeps ch
  have hdev := (mvDecrementChannelTimer_ports ch).2.2
  generalize mvDecrementChannelTimer ch = ch₁ at htimer hkeeps hdev ⊢
  have hcleared : BringingUp { ch₁ with
      pmDevsToInit := ch₁.pmDevsToInit &&& ~~~portBit ch₁.devInSRST } :=
    htimer.of_keeps ⟨rfl, rfl⟩ htimer.number htimer.port
  unfold mvInitPMDevice
  dsimp only
  split_ifs with hbuggy hbusy hexpired
  · exact htimer
  · have hinit : BringingUp (initPort hw ch₁ ch₁.devInSRST).2 := by
      unfold initPort
      dsimp only
      cases hlink : hw.linkStatus with
      | none => exact hcleared
      | some status =>
        match status, hlink with
        | 0, hlink =>
          have hlt : ch₁.devInSRST < 15 := by
            have hbefore := htimer.port
            unfold pmControlPort at hbuggy
            omega
          have hinits : portToInit hw ch = some ch₁.devInSRST := by
            unfold portToInit
            rw [hstate]
            rw [hdev] at hbuggy ⊢
            exact if_pos ⟨hbuggy, by simpa using hbusy, hlink⟩
          exact initDisk_bringingUp hcleared hlt
            ((hok rfl _ hinits).of_keeps (hkeeps.trans ⟨rfl, rfl⟩))
        | 1, _ => exact hcleared
        | 2, _ => exact hcleared
    generalize initPort hw ch₁ ch₁.devInSRST = result at hinit ⊢
    obtain ⟨outcome, ch₂⟩ := result
    cases outcome with
    | some outcome => exact hinit
    | none => exact nextPort_bringingUp hinit
  · exact nextPort_bringingUp hcleared
  · exact htimer

/-! ### The states of a channel -/

/-- A state in which the drives are found. -/
theorem BringingUp.setState {state : ChannelState} (h : BringingUp ch) (hstate : state.Finding) :
    Tracked (mvSetChannelState ch state) := by
  obtain ⟨threshold, value, hset⟩ := @mvSetChannelState_of_ne ch _ hstate.ne.1
  rw [hset]
  exact BringingUp.tracked ⟨⟨h.saved.saved, h.saved.serials, h.saved.below⟩,
    ⟨h.current.current, h.current.serials, h.current.below, h.current.apart⟩, h.number, h.port,
    h.allocated, h.plug, h.idle⟩ hstate

/-- A channel whose structure cannot be allocated had no drives. -/
theorem mvChannelConnectedStateHandler_tracked (h : Tracked ch)
    (hstate : ch.channelState = .connected) :
    Tracked (mvChannelConnectedStateHandler hw ch) := by
  have hcurrent := h.current (by rw [hstate]; simp) (by rw [hstate]; simp)
  have hplug := h.plug (by rw [hstate]; simp) (by rw [hstate]; simp) (by rw [hstate]; simp)
  have hidle : ch.pmRegAccessInProgress = false := by
    rw [Bool.eq_false_iff]
    intro hreading
    have hready := h.reading hreading
    rw [hstate] at hready
    cases hready
  unfold mvChannelConnectedStateHandler
  by_cases hinit : ¬ ch.sataChannel = true ∧ ¬ hw.initChannel = true
  · rw [if_pos hinit]
    have hnone := h.forgotten (Bool.eq_false_iff.mpr hinit.1)
    have hgone := h.gone (Or.inr hstate)
    obtain ⟨threshold, value, hset⟩ :=
      @mvSetChannelState_of_ne (mvDrivesInfoFlushAll { ch with sataChannel := false }) .notConnected
      (by simp)
    rw [hset]
    refine ⟨.none rfl hnone, fun _ _ => .none rfl hgone, h.number, h.port,
      fun hnot => absurd rfl hnot, fun _ => rfl, fun _ => hnone, fun hnot => absurd rfl hnot,
      fun _ => hgone, ?_, ?_⟩
    · rintro (hnot | hnot)
      · cases hnot
      · cases hnot
    · intro hreading
      cases hidle.symm.trans hreading
  · rw [if_neg hinit]
    have hstarted : BringingUp { ch with sataChannel := true, portResets := [] } :=
      ⟨⟨h.saved.saved, h.saved.serials, h.saved.below⟩,
        ⟨hcurrent.current, hcurrent.serials, hcurrent.below, hcurrent.apart⟩, h.number, h.port, rfl,
        hplug, hidle⟩
    obtain ⟨res, hstart⟩ := mvStartChannelInit_eq hw { ch with sataChannel := true }
    rw [hstart]
    dsimp only
    split_ifs with hres hready
    · exact hready.elim
    · have htimer : BringingUp
          (mvSetChannelTimer { ch with sataChannel := true, portResets := [] } srstTimeout) :=
        hstarted.of_keeps ⟨rfl, rfl⟩ h.number h.port
      exact htimer.setState (Or.inl rfl)
    · exact hstarted.stop

theorem mvPMEstablishSataComm_bringingUp (h : BringingUp ch) :
    BringingUp (mvPMEstablishSataComm hw ch).2 := by
  have hports : (mvPMEstablishSataComm hw ch).2.pmNumberOfPorts ≤ 15 ∧
      (mvPMEstablishSataComm hw ch).2.devInSRST = ch.devInSRST := by
    unfold mvPMEstablishSataComm mvConfigurePMDevice
    cases hw.pmPorts with
    | none => exact ⟨h.number, rfl⟩
    | some number =>
      have hle : (number : ℕ) ≤ 15 := by omega
      dsimp only
      by_cases hcomm : hw.commStatusChange false = true
      · rw [if_neg (not_not.mpr hcomm)]
        cases hw.asyncNotify with
        | none => exact ⟨hle, rfl⟩
        | some enabled =>
          dsimp only
          rw [if_neg (by simp)]
          cases hw.spinUp with
          | none => exact ⟨hle, rfl⟩
          | some ports => exact ⟨hle, rfl⟩
      · rw [if_pos hcomm]
        exact ⟨hle, rfl⟩
  exact h.of_keeps (mvPMEstablishSataComm_keeps hw ch) hports.1 (hports.2 ▸ h.port)

theorem mvChannelInSrstStateHandler_tracked (h : Tracked ch) (hstate : ch.channelState = .inSrst)
    (hok : DisksTracked .ready ch hw) : Tracked (mvChannelInSrstStateHandler hw ch).2 := by
  have hafter := mvChannelSRSTFinished_bringingUp (h.bringingUp (Or.inl hstate)) hstate hok
  have houter := (mvChannelSRSTFinished_outer hw (mvDecrementChannelTimer ch)).trans
    (mvDecrementChannelTimer_keeps ch).outer
  unfold mvChannelInSrstStateHandler
  generalize mvChannelSRSTFinished hw (mvDecrementChannelTimer ch) = result at hafter houter ⊢
  obtain ⟨outcome, ch₁⟩ := result
  dsimp only at hafter houter ⊢
  have hstate₁ : ch₁.channelState = .inSrst := (congrArg Outer.channelState houter).trans hstate
  cases outcome with
  | busy =>
    dsimp only
    split_ifs
    · exact hafter.stop
    · exact hafter.tracked (Or.inl hstate₁)
  | fatalError => exact hafter.stop
  | diskReady => exact hafter.finish (by rw [hstate₁]; simp)
  | pmFound =>
    have hestablished := @mvPMEstablishSataComm_bringingUp hw _ hafter
    dsimp only
    split_ifs
    · exact hestablished.setState (Or.inr (Or.inl rfl))
    · exact hestablished.stop

theorem mvChannelPMStaggeredSpinUpStateHandler_tracked (h : Tracked ch)
    (hstate : ch.channelState = .pmStaggeredSpinUp) :
    Tracked (mvChannelPMStaggeredSpinUpStateHandler hw ch) := by
  have hbefore := h.bringingUp (Or.inr (Or.inl hstate))
  have hkeeps := mvPMCheckForConnectedDevices_keeps hw ch
  obtain ⟨hport, hnumber⟩ := mvPMCheckForConnectedDevices_port hw hbefore.number
  have hle := hbefore.number
  have hafter := hbefore.of_keeps hkeeps (by omega) (by omega)
  unfold mvChannelPMStaggeredSpinUpStateHandler
  generalize mvPMCheckForConnectedDevices hw ch = result at hkeeps hafter ⊢
  obtain ⟨outcome, ch₁⟩ := result
  dsimp only at hkeeps hafter ⊢
  have hstate₁ : ch₁.channelState = .pmStaggeredSpinUp :=
    (congrArg Outer.channelState hkeeps.outer).trans hstate
  cases outcome with
  | failed pmErrorDetected => exact hafter.stop
  | reconnected => exact hafter.tracked (Or.inr (Or.inl hstate₁))
  | channelReady => exact hafter.finish (by rw [hstate₁]; simp)
  | inProgress =>
    have htimer : BringingUp (mvSetChannelTimer ch₁ srstTimeout) :=
      hafter.of_keeps ⟨rfl, rfl⟩ hafter.number hafter.port
    exact htimer.setState (Or.inr (Or.inr rfl))

theorem mvChannelPMSrstDeviceStateHandler_tracked (h : Tracked ch)
    (hstate : ch.channelState = .pmSrstDevice) (hok : DisksTracked .ready ch hw) :
    Tracked (mvChannelPMSrstDeviceStateHandler hw ch) := by
  have hafter := mvInitPMDevice_bringingUp (h.bringingUp (Or.inr (Or.inr hstate))) hstate hok
  have houter := (mvInitPMDevice_outer hw (mvDecrementChannelTimer ch)).trans
    (mvDecrementChannelTimer_keeps ch).outer
  unfold mvChannelPMSrstDeviceStateHandler
  generalize mvInitPMDevice hw (mvDecrementChannelTimer ch) = result at hafter houter ⊢
  obtain ⟨outcome, ch₁⟩ := result
  dsimp only at hafter houter ⊢
  have hstate₁ : ch₁.channelState = .pmSrstDevice :=
    (congrArg Outer.channelState houter).trans hstate
  have hfinish : Tracked (finishChannel hw ch₁) := hafter.finish (by rw [hstate₁]; simp)
  cases outcome with
  | failed pmErrorDetected =>
    dsimp only
    split_ifs
    · exact hfinish
    · exact hafter.stop
    · exact hafter.tracked (Or.inr (Or.inr hstate₁))
  | reconnected => exact hafter.restart
  | channelReady => exact hfinish
  | inProgress =>
    have htimer : BringingUp (mvSetChannelTimer ch₁ srstTimeout) :=
      hafter.of_keeps ⟨rfl, rfl⟩ hafter.number hafter.port
    exact htimer.tracked (Or.inr (Or.inr hstate₁))

theorem Tracked.reading_sataChannel (h : Tracked ch) (hreading : ch.pmRegAccessInProgress = true) :
    ch.sataChannel = true := by
  have hready := h.reading hreading
  exact h.allocated (by rw [hready]; simp) (by rw [hready]; simp)

theorem Tracked.stop (h : Tracked ch) : Tracked (mvStopChannel ch) :=
  mvStopChannel_tracked h.saved h.number h.port h.reading_sataChannel

theorem Tracked.restart (h : Tracked ch) : Tracked (mvRestartChannel ch) :=
  mvRestartChannel_tracked h.saved h.number h.port h.reading_sataChannel h.forgotten

/-- The commands in the EDMA are flushed before the channel is started again. -/
theorem Tracked.flushRestart (h : Tracked ch) : Tracked (mvRestartChannel (flushDma ch)) :=
  mvRestartChannel_tracked ⟨h.saved.saved, h.saved.serials, h.saved.below⟩ h.number h.port
    (fun hfalse => by cases hfalse) h.forgotten

/-- One turn of the loop keeps track of the drives. -/
theorem channelHandler_tracked (h : Tracked ch) (hok : DisksTracked .ready ch hw) :
    Tracked (channelHandler hw ch).2 := by
  unfold channelHandler
  cases hstate : ch.channelState with
  | notConnected =>
    dsimp only
    unfold mvChannelNotConnectedStateHandler
    rw [if_neg (by rw [h.released hstate]; simp)]
    exact h
  | connected => exact mvChannelConnectedStateHandler_tracked h hstate
  | inSrst => exact mvChannelInSrstStateHandler_tracked h hstate hok
  | pmStaggeredSpinUp => exact mvChannelPMStaggeredSpinUpStateHandler_tracked h hstate
  | pmSrstDevice => exact mvChannelPMSrstDeviceStateHandler_tracked h hstate hok
  | ready =>
    have hready : ∀ counter reading, Tracked { ch with
        pmRegPollCounter := counter, pmRegAccessInProgress := reading } := fun _ _ =>
      ⟨⟨h.saved.saved, h.saved.serials, h.saved.below⟩, fun hnot => absurd hstate hnot, h.number,
        h.port, h.allocated, h.released, h.forgotten, h.plug, h.gone, h.told, fun _ => hstate⟩
    dsimp only
    unfold mvChannelReadyStateHandler
    dsimp only
    split_ifs
    · exact hready _ _
    · exact hready _ _
    · exact h
  | pmHotPlug => exact h.flushRestart

/-- A tick keeps track of the drives. -/
theorem mvChannelStateMachine_tracked {fuel : ℕ} (h : Tracked ch) (hok : DisksTracked .ready ch hw)
    (hmachine : mvChannelStateMachine hw fuel ch = some ch') : Tracked ch' := by
  refine mvChannelStateMachine_turns (P := fun ch => Tracked ch ∧ DisksTracked .ready ch hw)
    (Q := Tracked) ?_ ⟨h, hok⟩ hmachine
  rintro ch ⟨h, hok⟩
  have hturn := channelHandler_tracked h hok
  refine ⟨hturn, fun hgoes => ⟨hturn, ?_⟩⟩
  -- the ports are spun up next, and no disk is initialised
  intro _ p hport
  unfold portToInit at hport
  rw [channelHandler_goesOn hgoes] at hport
  cases hport

/-- What is known about the drives in any state of the adapter. -/
structure TrackedBy (s : AdapterState) (ch : IalChannel) : Prop extends Tracked ch where
  unseen : s = .initializing → ch.osView = none ∧ ch.sataChannel = false

/-- A channel that is started for the first time has no drives. -/
theorem Tracked.start {state : ChannelState} (h : Tracked ch) (hview : ch.osView = none)
    (hsata : ch.sataChannel = false) (hstate : state = .notConnected ∨ state = .connected) :
    Tracked (mvSetChannelState (mvFlushSCSICommandQueue ch) state) := by
  have hbefore : ch.channelState = .notConnected ∨ ch.channelState = .connected := by
    by_contra hnot
    rw [not_or] at hnot
    have hallocated := h.allocated hnot.1 hnot.2
    rw [hsata] at hallocated
    cases hallocated
  have hne : ch.channelState ≠ .ready ∧ ch.channelState ≠ .pmHotPlug := by
    rcases hbefore with hbefore | hbefore
    · simp [hbefore]
    · simp [hbefore]
  have hne' : state ≠ .ready ∧ state ≠ .pmHotPlug := by
    rcases hstate with hstate | hstate
    · simp [hstate]
    · simp [hstate]
  have hcurrent := h.current hne.1 hne.2
  obtain ⟨threshold, value, hset⟩ := @mvSetChannelState_of_ne (mvFlushSCSICommandQueue ch) _
    hne'.1
  rw [hset]
  refine ⟨⟨h.saved.saved, h.saved.serials, h.saved.below⟩,
    fun _ _ => ⟨hcurrent.current, hcurrent.serials, hcurrent.below, hcurrent.apart⟩,
      h.number, h.port,
    ?_, fun _ => hsata, h.forgotten, ?_, fun _ => h.gone hbefore, ?_, ?_⟩
  · intro hnot hnot'
    exact absurd hstate (not_or.mpr ⟨hnot, hnot'⟩)
  · intro _ _ _ hsome
    have hsome' : ch.osView.isSome = true := hsome
    rw [hview] at hsome'
    cases hsome'
  · rintro (hnot | hnot)
    · exact absurd hnot hne'.1
    · exact absurd hnot hne'.2
  · intro hreading
    exact absurd (h.reading hreading) hne.1

theorem startChannel_tracked {connected : Bool} (h : Tracked ch) (hview : ch.osView = none)
    (hsata : ch.sataChannel = false) (hstart : startChannel hw connected ch = some ch') :
    Tracked ch' := by
  unfold startChannel at hstart
  dsimp only at hstart
  split_ifs at hstart
  · refine mvChannelStateMachine_tracked (h.start hview hsata (Or.inr rfl)) ?_ hstart
    obtain ⟨threshold, value, hset⟩ :=
      @mvSetChannelState_of_ne (mvFlushSCSICommandQueue ch) .connected (by simp)
    rw [hset]
    intro _ p hport
    cases hport
  · obtain rfl := Option.some.inj hstart
    exact h.start hview hsata (Or.inl rfl)

theorem mvPMCommandCompletionCB_tracked (h : Tracked ch) (value : BitVec 32)
    (hread : ch.pmRegAccessInProgress = true) : Tracked (mvPMCommandCompletionCB ch value) := by
  have hready := h.reading hread
  have htold := h.told (Or.inl hready)
  have hsata := h.reading_sataChannel hread
  obtain ⟨devs, threshold, time, heq⟩ | heq := mvPMCommandCompletionCB_cases ch value
  · rw [heq]
    refine ⟨⟨h.saved.saved, h.saved.serials, h.saved.below⟩, fun _ hnot =>
      absurd rfl hnot, h.number,
      h.port, fun _ _ => hsata, ?_, h.forgotten, fun _ _ hnot => absurd rfl hnot, ?_,
      fun _ => htold, ?_⟩
    · intro hnot
      cases hnot
    · rintro (hnot | hnot)
      · cases hnot
      · cases hnot
    · intro hfalse
      cases hfalse
  · rw [heq]
    refine ⟨⟨h.saved.saved, h.saved.serials, h.saved.below⟩, fun hnot =>
      absurd hready hnot, h.number,
      h.port, h.allocated, h.released, h.forgotten, h.plug, h.gone, h.told, ?_⟩
    intro hfalse
    cases hfalse

/-- A channel that is started again stays as it is known to the operating system. -/
theorem mvRestartChannel_unseen (hunseen : s = .initializing → ch.osView = none ∧
    ch.sataChannel = false) : s = .initializing → (mvRestartChannel ch).osView = none ∧
      (mvRestartChannel ch).sataChannel = false := by
  obtain ⟨reading, hrestart⟩ := mvRestartChannel_eq ch
  rw [hrestart]
  exact hunseen

/-- Every step keeps track of the drives. -/
theorem channelStep_trackedBy (h : TrackedBy s ch) (hstep : ChannelStep DisksTracked s ch s' ch') :
    TrackedBy s' ch' := by
  cases hstep with
  | idle hsame =>
    refine ⟨h.toTracked, fun hinit => h.unseen ?_⟩
    rcases hsame with hsame | hsame
    · exact hsame.symm.trans hinit
    · rw [hsame] at hinit
      cases hinit
  | queue pScb hwait =>
    exact ⟨⟨⟨h.saved.saved, h.saved.serials, h.saved.below⟩, fun hnot hnot' =>
        ⟨(h.current hnot hnot').current, (h.current hnot hnot').serials,
          (h.current hnot hnot').below, (h.current hnot hnot').apart⟩, h.number, h.port,
        h.allocated, h.released, h.forgotten, h.plug, h.gone, h.told, h.reading⟩, h.unseen⟩
  | restart => exact ⟨h.restart, mvRestartChannel_unseen h.unseen⟩
  | stop =>
    refine ⟨h.stop, fun hinit => ?_⟩
    obtain ⟨threshold, value, reading, hstop⟩ := mvStopChannel_eq ch
    rw [hstop]
    refine ⟨?_, rfl⟩
    unfold stoppedView
    rw [(h.unseen hinit).1]
    simp
  | hotPlug =>
    unfold mvPMHotPlugDetected
    split_ifs
    · exact h
    · exact ⟨h.flushRestart, @mvRestartChannel_unseen (flushDma ch) _ h.unseen⟩
  | pmRegister value hread =>
    refine ⟨mvPMCommandCompletionCB_tracked h.toTracked value hread, fun hinit => ?_⟩
    have hsata := h.reading_sataChannel hread
    rw [(h.unseen hinit).2] at hsata
    cases hsata
  | start hw connected hok hstart =>
    obtain ⟨hview, hsata⟩ := h.unseen rfl
    exact ⟨startChannel_tracked h.toTracked hview hsata hstart, fun hnot => by cases hnot⟩
  | tick hw hok htick =>
    exact ⟨mvChannelStateMachine_tracked h.toTracked hok htick, fun hnot => by cases hnot⟩

theorem initialChannel_trackedBy : TrackedBy .initializing initialChannel := by
  refine ⟨⟨.none rfl fun _ => rfl, fun _ _ => .none rfl fun _ => rfl, Nat.zero_le 15, Or.inl rfl,
    fun hnot => absurd rfl hnot, fun _ => rfl, fun _ _ => rfl, fun hnot => absurd rfl hnot,
    fun _ _ => rfl, ?_, ?_⟩, fun _ => ⟨rfl, rfl⟩⟩
  · rintro (hnot | hnot)
    · cases hnot
    · cases hnot
  · intro hreading
    cases hreading

/-- The operating system knows the drives that are ready, and which drive is behind each port. -/
def IalChannel.ViewTracks (ch : IalChannel) (view : OsView) : Prop :=
  (∀ p, (view p).isSome = ch.driveReady p) ∧
    ∀ p serial, view p = some serial → serial = ch.identifySerial p

/-- What the operating system knows about every channel that has settled, along every run in which
no disk in a snapshot fails to be initialised and the disks can be told apart. -/
theorem run_viewTracks {trace : List (IalEvent n × Option ExecuteStatus)} {a : IalAdapter n}
    (hrun : Run ialStep (TickOk DisksTracked) (initialAdapter n) trace a) (c : Fin n)
    (hsettled : (a.channels c).Settled) (view : OsView)
    (hview : (a.channels c).osView = some view) : (a.channels c).ViewTracks view := by
  have h := run_channel (P := TrackedBy) initialChannel_trackedBy
    (fun _ _ _ _ => channelStep_trackedBy) hrun c
  generalize a.channels c = ch at h hsettled hview ⊢
  rcases hsettled with hready | hnot
  · have htold := h.told (Or.inl hready)
    rw [hview] at htold
    obtain rfl := Option.some.inj htold
    constructor
    · intro p
      unfold IalChannel.readyDrives
      cases ch.driveReady p with
      | false => rfl
      | true => rfl
    · intro p serial hserial
      unfold IalChannel.readyDrives at hserial
      split_ifs at hserial
      exact (Option.some.inj hserial).symm
  · have hnone : ∀ p, view p = none := by
      intro p
      have hforgotten := h.forgotten (h.released hnot) p
      unfold IalChannel.known at hforgotten
      rw [hview] at hforgotten
      exact hforgotten
    constructor
    · intro p
      rw [hnone p, h.gone (Or.inl hnot) p]
      rfl
    · intro p serial hserial
      rw [hnone p] at hserial
      cases hserial

/-- A disk is replaced by another one. -/
def replaceEvents : List (IalEvent 1) :=
  [.tick (oneChannel true (diskHardware 1)), .tick (oneChannel true (diskHardware 1)), .restart 0,
    .tick (oneChannel true (diskHardware 2)), .tick (oneChannel true (diskHardware 2))]

theorem replaceEvents_viewTracks :
    ∃ trace a view, exec ialStep (TickOk DisksTracked) (initialAdapter 1) replaceEvents =
        some (trace, a) ∧ (a.channels 0).osView = some view ∧ view 0 = some 2 ∧
      (a.channels 0).ViewTracks view := by
  have hend : (exec ialStep (TickOk DisksTracked) (initialAdapter 1) replaceEvents).map
      (fun r => ((r.2.channels 0).channelState, (r.2.channels 0).osView.map fun view => view 0)) =
        some (.ready, some (some 2)) := by
    decide
  rw [Option.map_eq_some_iff] at hend
  obtain ⟨⟨trace, a⟩, hexec, hend⟩ := hend
  simp only [Prod.mk.injEq, Option.map_eq_some_iff] at hend
  obtain ⟨hready, view, hview, hserial⟩ := hend
  exact ⟨trace, a, view, hexec, hview, hserial,
    run_viewTracks (Run.of_exec _ hexec) 0 (Or.inl hready) view hview⟩

/-- A disk that the operating system knows fails to be initialised after a reset of the bus. -/
def failingEvents : List (IalEvent 1) :=
  [.tick (oneChannel true (diskHardware 1)), .tick (oneChannel true (diskHardware 1)), .restart 0,
    .tick (oneChannel true (diskHardware 1)),
    .tick (oneChannel true { diskHardware 1 with initDisk := fun _ => false })]

/-- The channel is stopped, and the operating system still knows the disk. -/
theorem failingEvents_view :
    ¬ ∀ (n : ℕ) (trace : List (IalEvent n × Option ExecuteStatus)) (a : IalAdapter n) (c : Fin n)
      (view : OsView), Run ialStep (fun _ _ => True) (initialAdapter n) trace a →
        (a.channels c).Settled → (a.channels c).osView = some view →
          (a.channels c).ViewTracks view := by
  intro hall
  have hend : (exec ialStep (fun _ _ => True) (initialAdapter 1) failingEvents).map
      (fun r => ((r.2.channels 0).channelState, (r.2.channels 0).driveReady 0,
        (r.2.channels 0).osView.map fun view => view 0)) =
        some (.notConnected, false, some (some 1)) := by
    decide
  rw [Option.map_eq_some_iff] at hend
  obtain ⟨⟨trace, a⟩, hexec, hend⟩ := hend
  simp only [Prod.mk.injEq, Option.map_eq_some_iff] at hend
  obtain ⟨hnot, hdrive, view, hview, hserial⟩ := hend
  have htracks := hall 1 trace a 0 view (Run.of_exec _ hexec) (Or.inr hnot) hview
  have hsome := htracks.1 0
  rw [hserial, hdrive] at hsome
  cases hsome

end Mv88fxx81.Sata.Ial
