import Mv88fxx81.Lib.Run
import Mv88fxx81.Sata.IalChannel

/-!
# Invariants of the bring-up of a channel

Every call of the layer changes a channel in one of a few ways. The commands that
wait are completed when the channel stops or is ready, with one exception: a
channel whose structure cannot be allocated is given up with its commands. The
ports behind a port multiplier are reset in turn.
-/

namespace Mv88fxx81.Sata.Ial

open TransitionSystem

variable {n : ℕ} {hw : ChannelHardware} {ch ch' : IalChannel} {p : ℕ} {s s' : AdapterState}

/-! ### What the functions of a bring-up leave alone -/

/-- The state of a channel, its commands and what is known about it. -/
structure Outer where
  channelState : ChannelState
  sataChannel : Bool
  bHotPlug : Bool
  pendingCmdQueue : List ℕ
  queued : List ℕ
  flushed : List ℕ
  pmRegAccessInProgress : Bool
  osView : Option OsView

def IalChannel.outer (ch : IalChannel) : Outer :=
  ⟨ch.channelState, ch.sataChannel, ch.bHotPlug, ch.pendingCmdQueue, ch.queued, ch.flushed,
    ch.pmRegAccessInProgress, ch.osView⟩

/-- The drives of a channel. -/
structure Drives where
  drivesInfo : DrivesInfo
  driveReady : ℕ → Bool
  identifySerial : ℕ → Serial

def IalChannel.drives (ch : IalChannel) : Drives :=
  ⟨ch.drivesInfo, ch.driveReady, ch.identifySerial⟩

/-- Only the timers and the ports of a port multiplier change. -/
structure Keeps (ch ch' : IalChannel) : Prop where
  outer : ch'.outer = ch.outer
  drives : ch'.drives = ch.drives

theorem Keeps.refl (ch : IalChannel) : Keeps ch ch := ⟨rfl, rfl⟩

theorem Keeps.trans {ch'' : IalChannel} (h : Keeps ch ch') (h' : Keeps ch' ch'') :
    Keeps ch ch'' :=
  ⟨h'.outer.trans h.outer, h'.drives.trans h.drives⟩

theorem mvDecrementChannelTimer_keeps (ch : IalChannel) :
    Keeps ch (mvDecrementChannelTimer ch) := by
  unfold mvDecrementChannelTimer
  split_ifs
  · exact ⟨rfl, rfl⟩
  · exact Keeps.refl ch

theorem mvConfigurePMDevice_keeps (hw : ChannelHardware) (ch : IalChannel) :
    Keeps ch (mvConfigurePMDevice hw ch).2 := by
  unfold mvConfigurePMDevice
  cases hw.pmPorts with
  | none => exact ⟨rfl, rfl⟩
  | some ports =>
    dsimp only
    split_ifs
    · cases hw.asyncNotify with
      | none => exact ⟨rfl, rfl⟩
      | some enabled => exact ⟨rfl, rfl⟩
    · exact ⟨rfl, rfl⟩

theorem mvPMEstablishSataComm_keeps (hw : ChannelHardware) (ch : IalChannel) :
    Keeps ch (mvPMEstablishSataComm hw ch).2 := by
  have hconfigure := mvConfigurePMDevice_keeps hw ch
  unfold mvPMEstablishSataComm
  dsimp only
  split_ifs
  · cases hw.spinUp with
    | none => exact hconfigure.trans ⟨rfl, rfl⟩
    | some ports => exact hconfigure.trans ⟨rfl, rfl⟩
  · exact hconfigure

theorem checkPort_keeps (hw : ChannelHardware) (ch : IalChannel) (p : ℕ) :
    Keeps ch (checkPort hw ch p).2 := by
  unfold checkPort
  split_ifs
  · dsimp only
    cases hw.sStatus p with
    | none => exact ⟨rfl, rfl⟩
    | some sStatus =>
      dsimp only
      split_ifs
      · exact ⟨rfl, rfl⟩
      · exact ⟨rfl, rfl⟩
      · exact ⟨rfl, rfl⟩
  · exact Keeps.refl ch

theorem checkPorts_keeps (hw : ChannelHardware) (ports : List ℕ) (ch : IalChannel) :
    Keeps ch (checkPorts hw ports ch).2 := by
  induction ports generalizing ch with
  | nil => exact Keeps.refl ch
  | cons p ports ih =>
    unfold checkPorts
    dsimp only
    split_ifs
    · exact (checkPort_keeps hw ch p).trans (ih _)
    · exact checkPort_keeps hw ch p

theorem resetNextPort_keeps (hw : ChannelHardware) (giveUp : ℕ → Bool) (ports : List ℕ)
    (ch : IalChannel) : Keeps ch (resetNextPort hw giveUp ports ch).2 := by
  induction ports generalizing ch with
  | nil => exact Keeps.refl ch
  | cons p ports ih =>
    have hrest : ∀ ch₁, Keeps ch ch₁ → Keeps ch (resetNextPort hw giveUp ports ch₁).2 :=
      fun ch₁ hch₁ => hch₁.trans (ih ch₁)
    unfold resetNextPort startPortReset
    dsimp only
    split_ifs
    · exact ⟨rfl, rfl⟩
    · exact ⟨rfl, rfl⟩
    · exact hrest _ ⟨rfl, rfl⟩
    · exact ih ch

theorem nextPort_keeps (hw : ChannelHardware) (giveUp : ℕ → Bool) (ch : IalChannel) :
    Keeps ch (nextPort hw giveUp ch).2 := by
  have hreset := resetNextPort_keeps hw giveUp (portsFrom ch) ch
  unfold nextPort
  by_cases hnone : ch.pmDevsToInit = 0
  · rw [if_pos hnone]
    exact Keeps.refl ch
  · rw [if_neg hnone]
    dsimp only
    cases (resetNextPort hw giveUp (portsFrom ch) ch).1 with
    | failed => exact hreset
    | started => exact hreset
    | exhausted => exact hreset

theorem mvPMCheckForConnectedDevices_keeps (hw : ChannelHardware) (ch : IalChannel) :
    Keeps ch (mvPMCheckForConnectedDevices hw ch).2 := by
  have hstart : Keeps ch { ch with devInSRST := pmControlPort + 1 } := ⟨rfl, rfl⟩
  have hcheck := hstart.trans (checkPorts_keeps hw (List.range ch.pmNumberOfPorts) _)
  unfold mvPMCheckForConnectedDevices
  dsimp only
  split_ifs
  · exact hcheck.trans (nextPort_keeps hw _ _)
  · exact hcheck

theorem initDisk_outer (hw : ChannelHardware) (ch : IalChannel) (p : ℕ) :
    (initDisk hw ch p).2.outer = ch.outer := by
  unfold initDisk
  dsimp only
  split_ifs
  · rfl
  · rfl

/-- The reset goes on or failed, a disk has been initialised, or a port multiplier was found. -/
theorem mvChannelSRSTFinished_cases (hw : ChannelHardware) (ch : IalChannel) :
    mvChannelSRSTFinished hw ch = (.busy, ch) ∨ mvChannelSRSTFinished hw ch = (.fatalError, ch) ∨
      mvChannelSRSTFinished hw ch = (.pmFound, { ch with deviceType := .pm }) ∨
      (hw.bsyBitOff = true ∧ hw.deviceType = .ataDisk ∧ hw.setDeviceType = true) ∧
        mvChannelSRSTFinished hw ch =
          (if (initDisk hw { ch with deviceType := .ataDisk } 0).1 then .diskReady else .fatalError,
            (initDisk hw { ch with deviceType := .ataDisk } 0).2) := by
  unfold mvChannelSRSTFinished
  by_cases hbusy : hw.bsyBitOff = true
  · rw [if_neg (not_not.mpr hbusy)]
    dsimp only
    have hfound : (if hw.genI = true ∧ hw.deviceType ≠ DeviceType.ataDisk then DeviceType.unknown
        else hw.deviceType) = .ataDisk → hw.deviceType = .ataDisk := by
      split_ifs with hgen
      · intro hfalse
        cases hfalse
      · exact id
    generalize (if hw.genI = true ∧ hw.deviceType ≠ DeviceType.ataDisk then DeviceType.unknown
      else hw.deviceType) = deviceType at hfound ⊢
    by_cases hset : hw.setDeviceType = true
    · simp only [hset, not_true_eq_false, if_false]
      cases deviceType with
      | unknown => exact Or.inr (Or.inl rfl)
      | ataDisk => exact Or.inr (Or.inr (Or.inr ⟨⟨hbusy, hfound rfl, trivial⟩, rfl⟩))
      | atapiDisk => exact Or.inr (Or.inl rfl)
      | pm => exact Or.inr (Or.inr (Or.inl rfl))
    · simp only [hset]
      cases deviceType with
      | unknown => exact Or.inr (Or.inl rfl)
      | ataDisk => exact Or.inr (Or.inl rfl)
      | atapiDisk => exact Or.inr (Or.inl rfl)
      | pm => exact Or.inr (Or.inl rfl)
  · rw [if_pos hbusy]
    exact Or.inl rfl

theorem mvChannelSRSTFinished_outer (hw : ChannelHardware) (ch : IalChannel) :
    (mvChannelSRSTFinished hw ch).2.outer = ch.outer := by
  rcases mvChannelSRSTFinished_cases hw ch with h | h | h | ⟨-, h⟩
  · rw [h]
  · rw [h]
  · rw [h]
    rfl
  · rw [h]
    exact initDisk_outer hw _ 0

theorem initPort_outer (hw : ChannelHardware) (ch : IalChannel) (p : ℕ) :
    (initPort hw ch p).2.outer = ch.outer := by
  unfold initPort
  cases hw.linkStatus with
  | none => rfl
  | some status =>
    match status with
    | 0 => exact initDisk_outer hw _ p
    | 1 => rfl
    | 2 => rfl

theorem mvInitPMDevice_outer (hw : ChannelHardware) (ch : IalChannel) :
    (mvInitPMDevice hw ch).2.outer = ch.outer := by
  have hport := initPort_outer hw ch ch.devInSRST
  unfold mvInitPMDevice
  dsimp only
  split_ifs
  · rfl
  · cases hinit : initPort hw ch ch.devInSRST with
    | mk outcome ch₁ =>
      rw [hinit] at hport
      cases outcome with
      | none => exact (nextPort_keeps hw _ ch₁).outer.trans hport
      | some outcome => exact hport
  · exact (nextPort_keeps hw _ _).outer
  · rfl

/-! ### Steps of one channel -/

variable {ok : AdapterState → IalChannel → ChannelHardware → Prop}

/-- What a call can do to a channel. The condition is on the ticks. -/
inductive ChannelStep (ok : AdapterState → IalChannel → ChannelHardware → Prop) :
    AdapterState → IalChannel → AdapterState → IalChannel → Prop
  | idle {s s' : AdapterState} {ch : IalChannel} (hsame : s' = s ∨ s' = .fatalError) :
      ChannelStep ok s ch s' ch
  | queue {s : AdapterState} {ch : IalChannel} (pScb : ℕ) (hwait : ¬ (s = .ready ∧ ch.Settled)) :
      ChannelStep ok s ch s (mvAddToSCSICommandQueue ch pScb)
  | restart {s : AdapterState} {ch : IalChannel} : ChannelStep ok s ch s (mvRestartChannel ch)
  | stop {s : AdapterState} {ch : IalChannel} : ChannelStep ok s ch s (mvStopChannel ch)
  | hotPlug {s : AdapterState} {ch : IalChannel} : ChannelStep ok s ch s (mvPMHotPlugDetected ch)
  | pmRegister {s : AdapterState} {ch : IalChannel} (value : BitVec 32)
      (hread : ch.pmRegAccessInProgress = true) :
      ChannelStep ok s ch s (mvPMCommandCompletionCB ch value)
  | start {ch ch' : IalChannel} (hw : ChannelHardware) (connected : Bool)
      (hok : ok .initializing ch hw) (hstart : startChannel hw connected ch = some ch') :
      ChannelStep ok .initializing ch .ready ch'
  | tick {ch ch' : IalChannel} (hw : ChannelHardware) (hok : ok .ready ch hw)
      (htick : mvChannelStateMachine hw stateMachineTurns ch = some ch') :
      ChannelStep ok .ready ch .ready ch'

/-- A condition on what the hardware answers in a tick. -/
def TickOk (ok : AdapterState → IalChannel → ChannelHardware → Prop) (a : IalAdapter n) :
    IalEvent n → Prop
  | .tick hw => ∀ c, ok a.adapterState (a.channels c) (hw.channel c)
  | .execute _ _ _ => True
  | .restart _ => True
  | .stop _ => True
  | .hotPlug _ => True
  | .pmRegister _ _ => True

instance [∀ s ch hw, Decidable (ok s ch hw)] (a : IalAdapter n) :
    ∀ e, Decidable (TickOk ok a e)
  | .tick hw => inferInstanceAs (Decidable (∀ c, ok a.adapterState (a.channels c) (hw.channel c)))
  | .execute _ _ _ => inferInstanceAs (Decidable True)
  | .restart _ => inferInstanceAs (Decidable True)
  | .stop _ => inferInstanceAs (Decidable True)
  | .hotPlug _ => inferInstanceAs (Decidable True)
  | .pmRegister _ _ => inferInstanceAs (Decidable True)

theorem forChannels_some {f : Fin n → Option IalChannel} {channels : Fin n → IalChannel}
    (hf : forChannels f = some channels) (c : Fin n) : f c = some (channels c) := by
  unfold forChannels at hf
  split_ifs at hf with hall
  obtain rfl := Option.some.inj hf
  exact (Option.some_get (hall c)).symm

/-- A channel that is replaced, and the others, which stay. -/
theorem setChannel_step {a : IalAdapter n} {c : Fin n} {ch : IalChannel}
    (hch : ChannelStep ok a.adapterState (a.channels c) a.adapterState ch) (c' : Fin n) :
    ChannelStep ok a.adapterState (a.channels c') (a.setChannel c ch).adapterState
      ((a.setChannel c ch).channels c') := by
  unfold IalAdapter.setChannel
  dsimp only
  by_cases hc : c' = c
  · rw [hc, Function.update_self]
    exact hch
  · rw [Function.update_of_ne hc]
    exact .idle (Or.inl rfl)

/-- A tick starts the channels or moves them on. -/
theorem mvAdapterStateMachine_step {a a' : IalAdapter n} {hw : AdapterHardware n}
    (hstep : mvAdapterStateMachine a hw = some a') (hok : TickOk ok a (.tick hw)) (c : Fin n) :
    ChannelStep ok a.adapterState (a.channels c) a'.adapterState (a'.channels c) := by
  unfold TickOk at hok
  unfold mvAdapterStateMachine at hstep
  cases hstate : a.adapterState with
  | initializing =>
    rw [hstate] at hstep hok
    dsimp only at hstep
    split_ifs at hstep with hspin hunmask
    · rw [Option.map_eq_some_iff] at hstep
      obtain ⟨channels, hchannels, rfl⟩ := hstep
      exact .start _ _ (hok c) (forChannels_some hchannels c)
    · obtain rfl := Option.some.inj hstep
      exact .idle (Or.inr rfl)
    · obtain rfl := Option.some.inj hstep
      rw [hstate]
      exact .idle (Or.inl rfl)
  | ready =>
    rw [hstate] at hstep hok
    dsimp only at hstep
    rw [Option.map_eq_some_iff] at hstep
    obtain ⟨channels, hchannels, rfl⟩ := hstep
    exact .tick _ (hok c) (forChannels_some hchannels c)
  | fatalError =>
    rw [hstate] at hstep
    obtain rfl := Option.some.inj hstep
    rw [hstate]
    exact .idle (Or.inl rfl)

/-- Every call is a step of each channel. -/
theorem ialStep_channel {a a' : IalAdapter n} {e : IalEvent n} {answer : Option ExecuteStatus}
    (hstep : ialStep a e = some (answer, a')) (hok : TickOk ok a e) (c : Fin n) :
    ChannelStep ok a.adapterState (a.channels c) a'.adapterState (a'.channels c) := by
  cases e with
  | execute c' pScb canQueue =>
    simp only [ialStep, mvExecuteScsiCommand] at hstep
    split_ifs at hstep with hready hcan
    · obtain rfl := (Prod.mk.inj (Option.some.inj hstep)).2
      exact .idle (Or.inl rfl)
    · obtain rfl := (Prod.mk.inj (Option.some.inj hstep)).2
      exact setChannel_step (.queue pScb hready) c
    · obtain rfl := (Prod.mk.inj (Option.some.inj hstep)).2
      exact .idle (Or.inl rfl)
  | tick hw =>
    simp only [ialStep, Option.map_eq_some_iff, Prod.mk.injEq] at hstep
    obtain ⟨a₁, hmachine, -, rfl⟩ := hstep
    exact mvAdapterStateMachine_step hmachine hok c
  | restart c' =>
    obtain rfl := (Prod.mk.inj (Option.some.inj hstep)).2
    exact setChannel_step .restart c
  | stop c' =>
    obtain rfl := (Prod.mk.inj (Option.some.inj hstep)).2
    exact setChannel_step .stop c
  | hotPlug c' =>
    obtain rfl := (Prod.mk.inj (Option.some.inj hstep)).2
    exact setChannel_step .hotPlug c
  | pmRegister c' value =>
    simp only [ialStep] at hstep
    split_ifs at hstep with hread
    obtain rfl := (Prod.mk.inj (Option.some.inj hstep)).2
    exact setChannel_step (.pmRegister value hread) c

/-- What every step of a channel keeps holds of each channel along every run. -/
theorem run_channel {P : AdapterState → IalChannel → Prop} (hinit : P .initializing initialChannel)
    (hstep : ∀ s ch s' ch', P s ch → ChannelStep ok s ch s' ch' → P s' ch') {a : IalAdapter n}
    {trace : List (IalEvent n × Option ExecuteStatus)}
    (hrun : Run ialStep (TickOk ok) (initialAdapter n) trace a) (c : Fin n) :
    P a.adapterState (a.channels c) := by
  refine Run.invariant (I := fun _ a => ∀ c, P a.adapterState (a.channels c)) (fun _ => hinit) ?_
    hrun c
  intro trace a e answer a' h hok hcall c
  exact hstep _ _ _ _ (h c) (ialStep_channel hcall hok c)

/-- What a turn of the loop makes of a channel that meets `P`. -/
theorem mvChannelStateMachine_turns {P Q : IalChannel → Prop}
    (hturn : ∀ ch, P ch → Q (channelHandler hw ch).2 ∧
      ((channelHandler hw ch).1 = false → P (channelHandler hw ch).2)) {fuel : ℕ} (h : P ch)
    (hmachine : mvChannelStateMachine hw fuel ch = some ch') : Q ch' := by
  induction fuel generalizing ch with
  | zero => cases hmachine
  | succ fuel ih =>
    simp only [mvChannelStateMachine] at hmachine
    split_ifs at hmachine with hdone
    · obtain rfl := Option.some.inj hmachine
      exact (hturn ch h).1
    · exact ih ((hturn ch h).2 (Bool.eq_false_iff.mpr hdone)) hmachine

/-! ### The commands that wait -/

/-- The commands that have been queued are the ones that have been completed and the ones that
wait. -/
def IalChannel.Conserved (ch : IalChannel) : Prop := ch.queued = ch.flushed ++ ch.pendingCmdQueue

/-- No command waits in a channel that has settled. -/
structure NoneParked (ch : IalChannel) : Prop where
  conserved : ch.Conserved
  empty : ch.Settled → ch.pendingCmdQueue = []

theorem conserved_of_outer (hsame : ch'.outer = ch.outer) (h : ch.Conserved) : ch'.Conserved := by
  have hqueued : ch'.queued = ch.queued := congrArg Outer.queued hsame
  have hflushed : ch'.flushed = ch.flushed := congrArg Outer.flushed hsame
  have hpending : ch'.pendingCmdQueue = ch.pendingCmdQueue := congrArg Outer.pendingCmdQueue hsame
  unfold IalChannel.Conserved
  rw [hqueued, hflushed, hpending]
  exact h

/-- A state other than `CHANNEL_READY` changes nothing but the timer. -/
theorem mvSetChannelState_of_ne {state : ChannelState} (hstate : state ≠ .ready) :
    ∃ threshold value, mvSetChannelState ch state = { ch with
      channelState := state, srstTimerThreshold := threshold, srstTimerValue := value } := by
  unfold mvSetChannelState
  split_ifs with hsame htimer
  · refine ⟨ch.srstTimerThreshold, ch.srstTimerValue, ?_⟩
    rw [← hsame]
  · exact ⟨0, 0, rfl⟩
  · exact ⟨ch.srstTimerThreshold, ch.srstTimerValue, rfl⟩

/-- A channel that is initialized is not ready yet. -/
theorem mvStartChannelInit_eq (hw : ChannelHardware) (ch : IalChannel) :
    ∃ res, mvStartChannelInit hw ch = (res, false, { ch with portResets := [] }) := by
  unfold mvStartChannelInit
  split_ifs
  · exact ⟨_, rfl⟩
  · exact ⟨_, rfl⟩

/-- A register that was read ends the access, and may start a hot plug. -/
theorem mvPMCommandCompletionCB_cases (ch : IalChannel) (value : BitVec 32) :
    (∃ devs threshold time, mvPMCommandCompletionCB ch value = { ch with
      pmRegAccessInProgress := false
      pmDevsToInit := devs
      channelState := .pmHotPlug
      srstTimerThreshold := threshold
      srstTimerValue := time }) ∨
    mvPMCommandCompletionCB ch value = { ch with pmRegAccessInProgress := false } := by
  unfold mvPMCommandCompletionCB
  dsimp only
  split_ifs
  · obtain ⟨threshold, time, hset⟩ := @mvSetChannelState_of_ne { ch with
        pmRegAccessInProgress := false
        pmDevsToInit := (value &&& 0x7fff).setWidth 16 } .pmHotPlug (by simp)
    exact Or.inl ⟨_, threshold, time, hset⟩
  · exact Or.inr rfl

/-- What is left of the view when a channel is stopped. -/
def stoppedView (ch : IalChannel) : Option OsView :=
  if ch.drivesInfo.drivesSnapshotSaved ≠ 0 then
    ch.osView.map fun view => view.notify ch.drivesInfo.drivesSnapshotSaved 0 ch.identifySerial
  else ch.osView

/-- What `mvStopChannel` does. -/
theorem mvStopChannel_eq (ch : IalChannel) :
    ∃ threshold value reading, mvStopChannel ch = { ch with
      channelState := .notConnected
      sataChannel := false
      srstTimerThreshold := threshold
      srstTimerValue := value
      pmRegAccessInProgress := reading
      pendingCmdQueue := []
      flushed := ch.flushed ++ ch.pendingCmdQueue
      drivesInfo := ⟨0, fun _ => 0, 0, fun _ => 0⟩
      driveReady := fun _ => false
      osView := stoppedView ch } := by
  obtain ⟨threshold, value, hstate⟩ :=
    @mvSetChannelState_of_ne (setDrivesNotReady (mvDrivesInfoFlushAll ch)) .notConnected (by simp)
  unfold mvStopChannel stoppedView
  dsimp only
  rw [hstate]
  split_ifs
  · exact ⟨threshold, value, false, rfl⟩
  · exact ⟨threshold, value, ch.pmRegAccessInProgress, rfl⟩
  · exact ⟨threshold, value, false, rfl⟩
  · exact ⟨threshold, value, ch.pmRegAccessInProgress, rfl⟩

/-- What `mvRestartChannel` does. -/
theorem mvRestartChannel_eq (ch : IalChannel) :
    ∃ reading, mvRestartChannel ch = { ch with
      channelState := .connected
      srstTimerThreshold := 0
      srstTimerValue := 0
      pmRegAccessInProgress := reading
      pendingCmdQueue := []
      flushed := ch.flushed ++ ch.pendingCmdQueue
      bHotPlug := true
      drivesInfo := { ch.drivesInfo with
        drivesSnapshotCurrent := 0
        driveSerialCurrent := fun _ => 0 }
      driveReady := fun _ => false } := by
  unfold mvRestartChannel
  dsimp only
  split_ifs
  · exact ⟨false, rfl⟩
  · exact ⟨ch.pmRegAccessInProgress, rfl⟩

/-- The view when a channel gets ready. -/
def readyView (ch : IalChannel) : OsView :=
  let (remove, add) := mvDrivesInfoGetChannelRescanParams ch.drivesInfo
  let view :=
    if ch.bHotPlug ∧ (remove ≠ 0 ∨ add ≠ 0) then
      ch.osView.map fun view => view.notify remove add ch.identifySerial
    else ch.osView
  view.getD ch.readyDrives

/-- What `mvSetChannelState` does when a channel gets ready. -/
theorem mvSetChannelState_ready (hstate : ch.channelState ≠ .ready) :
    mvSetChannelState ch .ready = { ch with
      channelState := .ready
      srstTimerThreshold := 0
      srstTimerValue := 0
      pmRegAccessInProgress := false
      pendingCmdQueue := []
      flushed := ch.flushed ++ ch.pendingCmdQueue
      bHotPlug := false
      drivesInfo :=
        { drivesSnapshotSaved := ch.drivesInfo.drivesSnapshotCurrent
          driveSerialSaved := ch.drivesInfo.driveSerialCurrent
          drivesSnapshotCurrent := 0
          driveSerialCurrent := fun _ => 0 }
      osView := some (readyView ch) } := by
  unfold mvSetChannelState
  rw [if_neg hstate, if_pos rfl, if_pos (Or.inl rfl)]
  unfold readyView channelReady
  by_cases hplug : ch.bHotPlug = true
  · by_cases hnotify : (mvDrivesInfoGetChannelRescanParams ch.drivesInfo).1 ≠ 0 ∨
        (mvDrivesInfoGetChannelRescanParams ch.drivesInfo).2 ≠ 0
    · simp only [mvFlushSCSICommandQueue, if_true, hplug, hnotify, and_self]
      rfl
    · simp only [mvFlushSCSICommandQueue, if_true, hplug, hnotify, and_false, if_false]
      rfl
  · simp only [mvFlushSCSICommandQueue, hplug]
    rfl

theorem noneParked_of_outer (hsame : ch'.outer = ch.outer) (h : NoneParked ch) :
    NoneParked ch' := by
  have hstate : ch'.channelState = ch.channelState := congrArg Outer.channelState hsame
  have hpending : ch'.pendingCmdQueue = ch.pendingCmdQueue := congrArg Outer.pendingCmdQueue hsame
  refine ⟨conserved_of_outer hsame h.conserved, ?_⟩
  unfold IalChannel.Settled
  rw [hstate, hpending]
  exact h.empty

/-- A channel whose commands have been flushed. -/
theorem noneParked_of_flushed (h : ch.Conserved) (hqueued : ch'.queued = ch.queued)
    (hflushed : ch'.flushed = ch.flushed ++ ch.pendingCmdQueue)
    (hpending : ch'.pendingCmdQueue = []) : NoneParked ch' := by
  refine ⟨?_, fun _ => hpending⟩
  unfold IalChannel.Conserved
  rw [hqueued, hflushed, hpending, List.append_nil]
  exact h

theorem mvStopChannel_noneParked (h : ch.Conserved) : NoneParked (mvStopChannel ch) := by
  obtain ⟨threshold, value, reading, hstop⟩ := mvStopChannel_eq ch
  rw [hstop]
  exact noneParked_of_flushed h rfl rfl rfl

theorem mvRestartChannel_noneParked (h : ch.Conserved) : NoneParked (mvRestartChannel ch) := by
  obtain ⟨reading, hrestart⟩ := mvRestartChannel_eq ch
  rw [hrestart]
  exact noneParked_of_flushed h rfl rfl rfl

theorem finishChannel_noneParked (h : ch.Conserved) (hstate : ch.channelState ≠ .ready) :
    NoneParked (finishChannel hw ch) := by
  unfold finishChannel
  split_ifs
  · rw [mvSetChannelState_ready hstate]
    exact noneParked_of_flushed h rfl rfl rfl
  · exact mvStopChannel_noneParked h

/-- A channel that does not settle keeps its commands. -/
theorem mvSetChannelState_noneParked {state : ChannelState} (h : ch.Conserved)
    (hready : state ≠ .ready) (hempty : state = .notConnected → ch.pendingCmdQueue = []) :
    NoneParked (mvSetChannelState ch state) := by
  obtain ⟨threshold, value, hset⟩ := @mvSetChannelState_of_ne ch _ hready
  rw [hset]
  refine ⟨h, ?_⟩
  rintro (hsettled | hsettled)
  · exact absurd hsettled hready
  · exact hempty hsettled

/-- The structure of a channel with waiting commands can be allocated. -/
def InitsParked (s : AdapterState) (ch : IalChannel) (hw : ChannelHardware) : Prop :=
  s = .ready → ch.channelState = .connected → ch.sataChannel = false →
    ch.pendingCmdQueue ≠ [] → hw.initChannel = true

instance (s : AdapterState) (ch : IalChannel) (hw : ChannelHardware) :
    Decidable (InitsParked s ch hw) :=
  inferInstanceAs (Decidable (_ → _ → _ → _ → _))

theorem mvChannelConnectedStateHandler_noneParked (h : NoneParked ch)
    (hstate : ch.channelState = .connected) (hok : InitsParked .ready ch hw) :
    NoneParked (mvChannelConnectedStateHandler hw ch) := by
  unfold mvChannelConnectedStateHandler
  by_cases hinit : ¬ ch.sataChannel = true ∧ ¬ hw.initChannel = true
  · rw [if_pos hinit]
    have hconserved : (mvDrivesInfoFlushAll { ch with sataChannel := false }).Conserved :=
      h.conserved
    refine mvSetChannelState_noneParked hconserved (by simp) fun _ => ?_
    by_contra hparked
    exact hinit.2 (hok rfl hstate (Bool.eq_false_iff.mpr hinit.1) hparked)
  · rw [if_neg hinit]
    obtain ⟨res, hstart⟩ := mvStartChannelInit_eq hw { ch with sataChannel := true }
    have hconserved :
        ({ ch with sataChannel := true, portResets := [] } : IalChannel).Conserved := h.conserved
    rw [hstart]
    dsimp only
    split_ifs with hres hready
    · exact hready.elim
    · exact mvSetChannelState_noneParked hconserved (by simp) (fun hfalse => by cases hfalse)
    · exact mvStopChannel_noneParked hconserved

theorem mvChannelInSrstStateHandler_noneParked (h : NoneParked ch)
    (hstate : ch.channelState = .inSrst) :
    NoneParked (mvChannelInSrstStateHandler hw ch).2 := by
  have houter := (mvChannelSRSTFinished_outer hw (mvDecrementChannelTimer ch)).trans
    (mvDecrementChannelTimer_keeps ch).outer
  unfold mvChannelInSrstStateHandler
  dsimp only
  generalize mvChannelSRSTFinished hw (mvDecrementChannelTimer ch) = result at houter ⊢
  obtain ⟨outcome, ch₁⟩ := result
  have hconserved := conserved_of_outer houter h.conserved
  have hstate₁ : ch₁.channelState = .inSrst := (congrArg Outer.channelState houter).trans hstate
  cases outcome with
  | busy =>
    dsimp only
    split_ifs
    · exact mvStopChannel_noneParked hconserved
    · exact noneParked_of_outer houter h
  | fatalError => exact mvStopChannel_noneParked hconserved
  | diskReady => exact finishChannel_noneParked hconserved (by rw [hstate₁]; simp)
  | pmFound =>
    have hestablished := conserved_of_outer (mvPMEstablishSataComm_keeps hw ch₁).outer hconserved
    dsimp only
    split_ifs
    · exact mvSetChannelState_noneParked hestablished (by simp) (fun hfalse => by cases hfalse)
    · exact mvStopChannel_noneParked hestablished

theorem mvChannelPMStaggeredSpinUpStateHandler_noneParked (h : NoneParked ch)
    (hstate : ch.channelState = .pmStaggeredSpinUp) :
    NoneParked (mvChannelPMStaggeredSpinUpStateHandler hw ch) := by
  have houter := (mvPMCheckForConnectedDevices_keeps hw ch).outer
  unfold mvChannelPMStaggeredSpinUpStateHandler
  dsimp only
  generalize mvPMCheckForConnectedDevices hw ch = result at houter ⊢
  obtain ⟨outcome, ch₁⟩ := result
  have hconserved := conserved_of_outer houter h.conserved
  have hstate₁ : ch₁.channelState = .pmStaggeredSpinUp :=
    (congrArg Outer.channelState houter).trans hstate
  cases outcome with
  | failed pmErrorDetected => exact mvStopChannel_noneParked hconserved
  | reconnected => exact noneParked_of_outer houter h
  | channelReady => exact finishChannel_noneParked hconserved (by rw [hstate₁]; simp)
  | inProgress =>
    exact mvSetChannelState_noneParked hconserved (by simp) (fun hfalse => by cases hfalse)

theorem mvChannelPMSrstDeviceStateHandler_noneParked (h : NoneParked ch)
    (hstate : ch.channelState = .pmSrstDevice) :
    NoneParked (mvChannelPMSrstDeviceStateHandler hw ch) := by
  have houter := (mvInitPMDevice_outer hw (mvDecrementChannelTimer ch)).trans
    (mvDecrementChannelTimer_keeps ch).outer
  unfold mvChannelPMSrstDeviceStateHandler
  dsimp only
  generalize mvInitPMDevice hw (mvDecrementChannelTimer ch) = result at houter ⊢
  obtain ⟨outcome, ch₁⟩ := result
  have hconserved := conserved_of_outer houter h.conserved
  have hstate₁ : ch₁.channelState = .pmSrstDevice :=
    (congrArg Outer.channelState houter).trans hstate
  have hfinish : NoneParked (finishChannel hw ch₁) :=
    finishChannel_noneParked hconserved (by rw [hstate₁]; simp)
  cases outcome with
  | failed pmErrorDetected =>
    dsimp only
    split_ifs
    · exact hfinish
    · exact mvStopChannel_noneParked hconserved
    · exact noneParked_of_outer houter h
  | reconnected => exact mvRestartChannel_noneParked hconserved
  | channelReady => exact hfinish
  | inProgress => exact noneParked_of_outer houter h

/-- One turn of the loop parks no command. -/
theorem channelHandler_noneParked (h : NoneParked ch) (hok : InitsParked .ready ch hw) :
    NoneParked (channelHandler hw ch).2 := by
  unfold channelHandler
  cases hstate : ch.channelState with
  | notConnected =>
    dsimp only
    unfold mvChannelNotConnectedStateHandler
    split_ifs
    · exact noneParked_of_flushed h.conserved rfl rfl rfl
    · exact h
  | connected => exact mvChannelConnectedStateHandler_noneParked h hstate hok
  | inSrst => exact mvChannelInSrstStateHandler_noneParked h hstate
  | pmStaggeredSpinUp => exact mvChannelPMStaggeredSpinUpStateHandler_noneParked h hstate
  | pmSrstDevice => exact mvChannelPMSrstDeviceStateHandler_noneParked h hstate
  | ready =>
    dsimp only
    unfold mvChannelReadyStateHandler
    dsimp only
    split_ifs
    · exact ⟨h.conserved, h.empty⟩
    · exact ⟨h.conserved, h.empty⟩
    · exact h
  | pmHotPlug => exact @mvRestartChannel_noneParked (flushDma ch) h.conserved

/-- A turn that does not end the loop leads to the spin-up of the ports. -/
theorem channelHandler_goesOn (hgoes : (channelHandler hw ch).1 = false) :
    (channelHandler hw ch).2.channelState = .pmStaggeredSpinUp := by
  unfold channelHandler at hgoes ⊢
  cases hstate : ch.channelState with
  | notConnected => simp [hstate] at hgoes
  | connected => simp [hstate] at hgoes
  | inSrst =>
    simp only [hstate] at hgoes ⊢
    unfold mvChannelInSrstStateHandler at hgoes ⊢
    dsimp only at hgoes ⊢
    cases houtcome : (mvChannelSRSTFinished hw (mvDecrementChannelTimer ch)).1 with
    | busy => simp [houtcome] at hgoes
    | fatalError => simp [houtcome] at hgoes
    | diskReady => simp [houtcome] at hgoes
    | pmFound =>
      simp only [houtcome] at hgoes ⊢
      split_ifs at hgoes ⊢ with hestablished
      obtain ⟨threshold, value, hset⟩ :=
        @mvSetChannelState_of_ne ((mvPMEstablishSataComm hw (mvChannelSRSTFinished hw
          (mvDecrementChannelTimer ch)).2).2) .pmStaggeredSpinUp (by simp)
      dsimp only
      rw [hset]
  | pmStaggeredSpinUp => simp [hstate] at hgoes
  | pmSrstDevice => simp [hstate] at hgoes
  | ready => simp [hstate] at hgoes
  | pmHotPlug => simp [hstate] at hgoes

/-- A tick parks no command. -/
theorem mvChannelStateMachine_noneParked {fuel : ℕ} (h : NoneParked ch)
    (hok : InitsParked .ready ch hw) (hmachine : mvChannelStateMachine hw fuel ch = some ch') :
    NoneParked ch' := by
  refine mvChannelStateMachine_turns (P := fun ch => NoneParked ch ∧ InitsParked .ready ch hw)
    (Q := NoneParked) ?_ ⟨h, hok⟩ hmachine
  rintro ch ⟨h, hok⟩
  have hturn := channelHandler_noneParked h hok
  refine ⟨hturn, fun hgoes => ⟨hturn, ?_⟩⟩
  intro _ hconnected
  rw [channelHandler_goesOn hgoes] at hconnected
  cases hconnected

/-- What is known about the waiting commands in any state of the adapter. -/
structure Parking (s : AdapterState) (ch : IalChannel) : Prop where
  conserved : ch.Conserved
  empty : s = .ready → ch.Settled → ch.pendingCmdQueue = []

theorem Parking.of_noneParked (h : NoneParked ch) : Parking s ch :=
  ⟨h.conserved, fun _ => h.empty⟩

/-- Every step parks no command. -/
theorem channelStep_parking (h : Parking s ch) (hstep : ChannelStep InitsParked s ch s' ch') :
    Parking s' ch' := by
  cases hstep with
  | idle hsame =>
    refine ⟨h.conserved, fun hready => h.empty ?_⟩
    rcases hsame with hsame | hsame
    · exact hsame.symm.trans hready
    · rw [hsame] at hready
      cases hready
  | queue pScb hwait =>
    refine ⟨?_, fun hs hsettled => absurd ⟨hs, hsettled⟩ hwait⟩
    have hconserved : ch.queued = ch.flushed ++ ch.pendingCmdQueue := h.conserved
    change ch.queued ++ [pScb] = ch.flushed ++ (ch.pendingCmdQueue ++ [pScb])
    rw [hconserved, List.append_assoc]
  | restart => exact .of_noneParked (mvRestartChannel_noneParked h.conserved)
  | stop => exact .of_noneParked (mvStopChannel_noneParked h.conserved)
  | hotPlug =>
    unfold mvPMHotPlugDetected
    split_ifs
    · exact h
    · exact .of_noneParked (@mvRestartChannel_noneParked (flushDma ch) h.conserved)
  | pmRegister value hread =>
    obtain ⟨devs, threshold, time, heq⟩ | heq := mvPMCommandCompletionCB_cases ch value
    · rw [heq]
      exact ⟨h.conserved, fun _ hfalse => by cases hfalse <;> contradiction⟩
    · rw [heq]
      exact ⟨h.conserved, h.empty⟩
  | start hw connected hok hstart =>
    have hflush : NoneParked (mvFlushSCSICommandQueue ch) :=
      noneParked_of_flushed h.conserved rfl rfl rfl
    unfold startChannel at hstart
    dsimp only at hstart
    split_ifs at hstart
    · have hset : NoneParked (mvSetChannelState (mvFlushSCSICommandQueue ch) .connected) :=
        mvSetChannelState_noneParked hflush.conserved (by simp) (fun hfalse => by cases hfalse)
      refine .of_noneParked (mvChannelStateMachine_noneParked hset ?_ hstart)
      obtain ⟨threshold, value, hconnected⟩ :=
        @mvSetChannelState_of_ne (mvFlushSCSICommandQueue ch) .connected (by simp)
      intro _ _ _ hparked
      rw [hconnected] at hparked
      exact absurd rfl hparked
    · obtain rfl := Option.some.inj hstart
      exact .of_noneParked (mvSetChannelState_noneParked hflush.conserved (by simp) (fun _ => rfl))
  | tick hw hok htick =>
    exact .of_noneParked (mvChannelStateMachine_noneParked ⟨h.conserved, h.empty rfl⟩ hok htick)

/-- The commands of every channel that has settled have been completed, along every run in which
the structure of a channel with waiting commands can be allocated. -/
theorem run_noneParked {trace : List (IalEvent n × Option ExecuteStatus)} {a : IalAdapter n}
    (hrun : Run ialStep (TickOk InitsParked) (initialAdapter n) trace a) (c : Fin n)
    (hready : a.adapterState = .ready) (hsettled : (a.channels c).Settled) :
    (a.channels c).pendingCmdQueue = [] ∧ (a.channels c).flushed = (a.channels c).queued := by
  have hparking := run_channel (P := Parking) ⟨rfl, fun hfalse => by cases hfalse⟩
    (fun _ _ _ _ => channelStep_parking) hrun c
  have hempty := hparking.empty hready hsettled
  have hconserved : (a.channels c).queued = (a.channels c).flushed ++
    (a.channels c).pendingCmdQueue :=
    hparking.conserved
  rw [hempty, List.append_nil] at hconserved
  exact ⟨hempty, hconserved.symm⟩

/-- A disk with a serial number behind a channel. -/
def diskHardware (serial : Serial) : ChannelHardware where
  initChannel := true
  configureChannel := true
  startSoftReset := fun _ => true
  bsyBitOff := true
  deviceType := .ataDisk
  genI := false
  setDeviceType := true
  initDisk := fun _ => true
  identify := fun _ => serial
  configDma := true
  pmPorts := none
  commStatusChange := fun _ => true
  asyncNotify := some false
  spinUp := none
  sStatus := fun _ => some 3
  clearSError := fun _ => true
  resetAfterRead := fun _ => true
  resetAfterWrite := fun _ => true
  linkStatus := some 0
  queuePmCommand := true

/-- An adapter with one channel. -/
def oneChannel (connected : Bool) (hw : ChannelHardware) : AdapterHardware 1 :=
  ⟨true, true, fun _ => connected, fun _ => hw⟩

/-- A command comes while the disk is brought up. -/
def bringUpEvents : List (IalEvent 1) :=
  [.tick (oneChannel false (diskHardware 1)), .restart 0, .execute 0 7 true,
    .tick (oneChannel true (diskHardware 1)), .tick (oneChannel true (diskHardware 1))]

theorem bringUpEvents_noneParked :
    ∃ trace a, exec ialStep (TickOk InitsParked) (initialAdapter 1) bringUpEvents =
        some (trace, a) ∧ (a.channels 0).queued = [7] ∧
      (a.channels 0).pendingCmdQueue = [] ∧ (a.channels 0).flushed = (a.channels 0).queued := by
  have hend : (exec ialStep (TickOk InitsParked) (initialAdapter 1) bringUpEvents).map
      (fun r => (r.2.adapterState, (r.2.channels 0).channelState, (r.2.channels 0).queued)) =
        some (.ready, .ready, [7]) := by
    decide
  rw [Option.map_eq_some_iff] at hend
  obtain ⟨⟨trace, a⟩, hexec, hend⟩ := hend
  simp only [Prod.mk.injEq] at hend
  exact ⟨trace, a, hexec, hend.2.2,
    run_noneParked (Run.of_exec _ hexec) 0 hend.1 (Or.inl hend.2.1)⟩

/-- The structure of the channel cannot be allocated. -/
def parkingEvents : List (IalEvent 1) :=
  [.tick (oneChannel false (diskHardware 1)), .restart 0, .execute 0 7 true,
    .tick (oneChannel true { diskHardware 1 with initChannel := false })]

/-- The channel is not connected, and the command still waits. -/
theorem parkingEvents_parked :
    ¬ ∀ (n : ℕ) (trace : List (IalEvent n × Option ExecuteStatus)) (a : IalAdapter n) (c : Fin n),
      Run ialStep (fun _ _ => True) (initialAdapter n) trace a → a.adapterState = .ready →
        (a.channels c).Settled →
          (a.channels c).pendingCmdQueue = [] ∧ (a.channels c).flushed = (a.channels c).queued := by
  intro hall
  have hend : (exec ialStep (fun _ _ => True) (initialAdapter 1) parkingEvents).map
      (fun r => (r.2.adapterState, (r.2.channels 0).channelState,
        (r.2.channels 0).pendingCmdQueue)) = some (.ready, .notConnected, [7]) := by
    decide
  rw [Option.map_eq_some_iff] at hend
  obtain ⟨⟨trace, a⟩, hexec, hend⟩ := hend
  simp only [Prod.mk.injEq] at hend
  have hempty := (hall 1 trace a 0 (Run.of_exec _ hexec) hend.1 (Or.inr hend.2.1)).1
  rw [hend.2.2] at hempty
  cases hempty

end Mv88fxx81.Sata.Ial
