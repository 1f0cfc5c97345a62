import Mathlib.Data.List.Basic
import Mv88fxx81.Sata.HostCommand
import Mv88fxx81.Sata.IalBringUp
import Mv88fxx81.Sata.ScsiCompletion

/-!
# Where the commands of a channel go

A function of the intermediate layer may take commands from its queue and from the core driver and
put them on the done list. It frees the block and the table of each command that it puts there, and
touches no other.
-/

namespace Mv88fxx81.Sata.Ht

variable {ch ch' ch'' : HostChannel} {c : ℕ} {ial : Ial.IalChannel} {hw : Ial.ChannelHardware}

/-- How often a command waits to be completed. -/
def HostChannel.waits (ch : HostChannel) (c : ℕ) : ℕ :=
  ch.commands.count c + ch.ial.pendingCmdQueue.count c + ch.deferred.count c

/-- The commands that no longer wait are on the done list, without their blocks and tables. Some
commands may be new. -/
structure Handed (new : List ℕ) (ch ch' : HostChannel) : Prop where
  kept : ∀ c, ch'.waits c + ch'.listed.count c ≤ ch.waits c + ch.listed.count c + new.count c
  listed : ∀ c, ch.listed.count c ≤ ch'.listed.count c
  done : ∀ c, ch'.done.count c + ch.listed.count c = ch.done.count c + ch'.listed.count c
  blocks : ∀ c,
    ch'.blocks.count c = ch.blocks.count c - (ch'.listed.count c - ch.listed.count c)
  tables : ∀ c,
    ch'.tables.count c = ch.tables.count c - (ch'.listed.count c - ch.listed.count c)

/-- Nothing is handed on. -/
theorem Handed.refl (ch : HostChannel) : Handed [] ch ch where
  kept c := by simp
  listed c := Nat.le_refl _
  done c := rfl
  blocks c := by omega
  tables c := by omega

/-- What two parts hand on, one after the other. -/
theorem Handed.trans {new new' : List ℕ} (h : Handed new ch ch') (h' : Handed new' ch' ch'') :
    Handed (new ++ new') ch ch'' where
  kept c := by
    have hkept := h.kept c
    have hkept' := h'.kept c
    rw [List.count_append]
    omega
  listed c := Nat.le_trans (h.listed c) (h'.listed c)
  done c := by
    have hdone := h.done c
    have hdone' := h'.done c
    omega
  blocks c := by
    have hlisted := h.listed c
    have hlisted' := h'.listed c
    rw [h'.blocks, h.blocks]
    omega
  tables c := by
    have hlisted := h.listed c
    have hlisted' := h'.listed c
    rw [h'.tables, h.tables]
    omega

/-- Running a function over a list. -/
theorem Handed.foldl {α : Type*} {f : HostChannel → α → HostChannel} {new : α → List ℕ}
    (hf : ∀ ch a, Handed (new a) ch (f ch a)) (l : List α) (ch : HostChannel) :
    Handed (l.flatMap new) ch (l.foldl f ch) := by
  induction l generalizing ch with
  | nil => exact Handed.refl ch
  | cons a l ih =>
    rw [List.flatMap_cons, List.foldl_cons]
    exact (hf ch a).trans (ih (f ch a))

/-- Removing one occurrence, counted. -/
theorem count_erase_eq (l : List ℕ) (c x : ℕ) : (l.erase c).count x = l.count x - [c].count x := by
  rw [List.count_erase, List.count_singleton]

/-- Adding one element in front, counted. -/
theorem count_cons_eq (l : List ℕ) (c x : ℕ) : (c :: l).count x = [c].count x + l.count x := by
  rw [← List.count_append, List.singleton_append]

/-- `IALCompletion` of a command that has been taken from where it waited. -/
theorem ialCompletion_handed (ch : HostChannel) (c : ℕ) : Handed [c] ch (ialCompletion ch c) where
  kept x := by
    show ch.waits x + (ch.listed ++ [c]).count x ≤ ch.waits x + ch.listed.count x + [c].count x
    rw [List.count_append]
    omega
  listed x := by
    show ch.listed.count x ≤ (ch.listed ++ [c]).count x
    rw [List.count_append]
    omega
  done x := by
    show (ch.done ++ [c]).count x + _ = _ + (ch.listed ++ [c]).count x
    rw [List.count_append, List.count_append]
    omega
  blocks x := by
    show (ch.blocks.erase c).count x = _ - ((ch.listed ++ [c]).count x - _)
    rw [count_erase_eq, List.count_append]
    omega
  tables x := by
    show (ch.tables.erase c).count x = _ - ((ch.listed ++ [c]).count x - _)
    rw [count_erase_eq, List.count_append]
    omega

/-- A completed command waits no longer, or waits on the post-interrupt list. -/
theorem complete_handed (ch : HostChannel) (c : ℕ) (type : CompletionType) :
    Handed [] ch (complete ch c type) := by
  unfold complete
  by_cases hmem : c ∈ ch.commands
  · rw [if_pos hmem]
    dsimp only
    have hcount : ∀ x, [c].count x ≤ ch.commands.count x := by
      intro x
      by_cases hx : x = c
      · rw [hx, List.count_singleton_self]
        exact List.count_pos_iff.2 hmem
      · rw [List.count_eq_zero_of_not_mem (by simpa using hx)]
        exact Nat.zero_le _
    cases commandCompletionCB (ch.scb c) type with
    | none =>
      refine ⟨fun x => ?_, fun x => Nat.le_refl _, fun x => rfl, fun x => ?_, fun x => ?_⟩
      · have hx := hcount x
        show (ch.commands.erase c).count x + ch.ial.pendingCmdQueue.count x +
            (c :: ch.deferred).count x + ch.listed.count x ≤ ch.commands.count x +
              ch.ial.pendingCmdQueue.count x + ch.deferred.count x + ch.listed.count x + _
        rw [count_erase_eq, count_cons_eq ch.deferred]
        omega
      · show ch.blocks.count x = _ - (ch.listed.count x - _)
        omega
      · show ch.tables.count x = _ - (ch.listed.count x - _)
        omega
    | some scb =>
      obtain ⟨hkept, hlisted, hdone, hblocks, htables⟩ :=
        ialCompletion_handed { ch with commands := ch.commands.erase c } c
      refine ⟨fun x => ?_, hlisted, hdone, hblocks, htables⟩
      have hx := hcount x
      have hkept : (ch.commands.erase c).count x + ch.ial.pendingCmdQueue.count x +
          ch.deferred.count x + (ch.listed ++ [c]).count x ≤ (ch.commands.erase c).count x +
            ch.ial.pendingCmdQueue.count x + ch.deferred.count x + ch.listed.count x +
              [c].count x := hkept x
      show (ch.commands.erase c).count x + ch.ial.pendingCmdQueue.count x + ch.deferred.count x +
        (ch.listed ++ [c]).count x ≤ ch.commands.count x + ch.ial.pendingCmdQueue.count x +
          ch.deferred.count x + ch.listed.count x + _
      rw [count_erase_eq] at hkept ⊢
      rw [List.count_append]
      omega
  · rw [if_neg hmem]
    exact Handed.refl ch

/-! ### What the callbacks leave alone -/

/-- A completion by the intermediate layer leaves its channel alone. -/
@[simp] theorem ialCompletion_ial : (ialCompletion ch c).ial = ch.ial := rfl

/-- It leaves the commands in the channel. -/
@[simp] theorem ialCompletion_commands : (ialCompletion ch c).commands = ch.commands := rfl

/-- It defers nothing. -/
@[simp] theorem ialCompletion_deferred : (ialCompletion ch c).deferred = ch.deferred := rfl

/-- A completion leaves the channel of the intermediate layer alone. -/
@[simp] theorem complete_ial {type : CompletionType} : (complete ch c type).ial = ch.ial := by
  unfold complete
  split
  · dsimp only
    split
    · rfl
    · rfl
  · rfl

/-- A completed command is no longer in the channel. -/
theorem complete_commands {type : CompletionType} :
    (complete ch c type).commands = ch.commands.erase c := by
  unfold complete
  split
  · dsimp only
    split
    · rfl
    · rfl
  · rename_i hnot
    exact (List.erase_of_not_mem hnot).symm

/-- Only a normal completion can put a command on the post-interrupt list. -/
theorem complete_deferred {type : CompletionType} (htype : type ≠ .normal) :
    (complete ch c type).deferred = ch.deferred := by
  unfold complete
  split
  · dsimp only
    split
    · rename_i hnone
      unfold commandCompletionCB at hnone
      split at hnone
      · cases hnone
      · cases type with
        | normal => exact absurd rfl htype
        | error responseFlags registers =>
          simp only [salCommandCompletionCB] at hnone
          split at hnone
          · cases hnone
          · cases hnone
        | abort => cases hnone
    · rfl
  · rfl

/-- The callbacks over a list do not touch a field that each of them leaves alone. -/
theorem foldl_same {α β : Type*} {f : HostChannel → α → HostChannel} (get : HostChannel → β)
    (hf : ∀ ch a, get (f ch a) = get ch) (l : List α) (ch : HostChannel) :
    get (l.foldl f ch) = get ch := by
  induction l generalizing ch with
  | nil => rfl
  | cons a l ih => rw [List.foldl_cons, ih, hf]

/-- Aborting the commands leaves the intermediate layer alone. -/
@[simp] theorem abortCommands_ial : (abortCommands ch).ial = ch.ial :=
  foldl_same HostChannel.ial (fun _ _ => complete_ial) ch.commands ch

/-- Aborting the commands defers nothing. -/
theorem abortCommands_deferred : (abortCommands ch).deferred = ch.deferred :=
  foldl_same HostChannel.deferred (fun _ _ => complete_deferred (by simp)) ch.commands ch

/-- Completing a list of commands removes them. -/
theorem foldl_complete_count (type : CompletionType) (l : List ℕ) (ch : HostChannel) (x : ℕ) :
    (l.foldl (fun ch c => complete ch c type) ch).commands.count x =
      ch.commands.count x - l.count x := by
  induction l generalizing ch with
  | nil => simp
  | cons c l ih =>
    rw [List.foldl_cons, ih, complete_commands, count_erase_eq, count_cons_eq l]
    omega

/-- No command stays with the core driver. -/
theorem abortCommands_commands : (abortCommands ch).commands = [] := by
  rw [List.eq_nil_iff_forall_not_mem]
  intro x
  rw [← List.count_eq_zero]
  unfold abortCommands
  rw [foldl_complete_count]
  omega

/-- Completing the waiting commands leaves the intermediate layer alone. -/
@[simp] theorem completePending_ial : (completePending ch).ial = ch.ial :=
  foldl_same (f := ialCompletion) HostChannel.ial (fun _ _ => rfl) ch.ial.pendingCmdQueue ch

/-- It leaves the commands in the channel. -/
@[simp] theorem completePending_commands (ch : HostChannel) :
    (completePending ch).commands = ch.commands :=
  foldl_same (f := ialCompletion) HostChannel.commands (fun _ _ => rfl) ch.ial.pendingCmdQueue ch

/-- It defers nothing. -/
@[simp] theorem completePending_deferred : (completePending ch).deferred = ch.deferred :=
  foldl_same (f := ialCompletion) HostChannel.deferred (fun _ _ => rfl) ch.ial.pendingCmdQueue ch

/-- Aborted commands are handed on. -/
theorem abortCommands_handed (ch : HostChannel) : Handed [] ch (abortCommands ch) := by
  have hfold := Handed.foldl (fun ch c => complete_handed ch c .abort) ch.commands ch
  rwa [List.flatMap_eq_nil_iff.2 fun _ _ => rfl] at hfold

/-- The commands that wait are handed on. -/
theorem completePending_handed (ch : HostChannel) :
    Handed ch.ial.pendingCmdQueue ch (completePending ch) := by
  have hfold := Handed.foldl ialCompletion_handed ch.ial.pendingCmdQueue ch
  rwa [List.flatMap_singleton'] at hfold

/-! ### The functions of the intermediate layer -/

/-- The core driver has commands only for a channel with a structure, which a channel that is not
connected has not. -/
structure HostChannel.Linked (ch : HostChannel) : Prop where
  held : ch.commands ≠ [] → ch.ial.sataChannel = true
  released : ch.ial.channelState = .notConnected → ch.ial.sataChannel = false

/-- A function that hands commands over and leaves the post-interrupt list alone. -/
structure Passes (ch ch' : HostChannel) : Prop extends Handed [] ch ch' where
  deferred : ch'.deferred = ch.deferred
  linked : ch.Linked → ch'.Linked

/-- Nothing is passed on. -/
theorem Passes.refl (ch : HostChannel) : Passes ch ch := ⟨Handed.refl ch, rfl, id⟩

/-- One part after the other. -/
theorem Passes.trans (h : Passes ch ch') (h' : Passes ch' ch'') : Passes ch ch'' :=
  ⟨h.toHanded.trans h'.toHanded, h'.deferred.trans h.deferred, fun hch => h'.linked (h.linked hch)⟩

/-- Only the state of the intermediate layer changes, and not its queue. -/
theorem Handed.withIal (hpending : ial.pendingCmdQueue = ch.ial.pendingCmdQueue) :
    Handed [] ch { ch with ial } := by
  obtain ⟨hkept, hlisted, hdone, hblocks, htables⟩ := Handed.refl ch
  refine ⟨fun c => ?_, hlisted, hdone, hblocks, htables⟩
  show ch.commands.count c + ial.pendingCmdQueue.count c + ch.deferred.count c + _ ≤ _
  rw [hpending]
  exact hkept c

/-- The queue of the intermediate layer is emptied. -/
theorem Handed.flushed (ch : HostChannel) (hpending : ial.pendingCmdQueue = []) :
    Handed [] ch { completePending ch with ial } := by
  obtain ⟨hkept, hlisted, hdone, hblocks, htables⟩ := completePending_handed ch
  refine ⟨fun c => ?_, hlisted, hdone, hblocks, htables⟩
  have hkept := hkept c
  unfold HostChannel.waits at hkept ⊢
  rw [completePending_ial, completePending_commands, completePending_deferred] at hkept
  dsimp only
  rw [completePending_commands, completePending_deferred, hpending, List.count_nil]
  omega

/-- The intermediate layer may change what is not about commands. -/
theorem Passes.withIal (hpending : ial.pendingCmdQueue = ch.ial.pendingCmdQueue)
    (hstate : ial.channelState = ch.ial.channelState)
    (hsata : ial.sataChannel = ch.ial.sataChannel) : Passes ch { ch with ial } := by
  refine ⟨Handed.withIal hpending, rfl, fun h => ⟨?_, ?_⟩⟩
  · intro hcommands
    exact hsata.trans (h.held hcommands)
  · intro hnot
    exact hsata.trans (h.released (hstate.symm.trans hnot))

/-- It may change what is outside of its state and its commands. -/
theorem Passes.outer (houter : ial.outer = ch.ial.outer) : Passes ch { ch with ial } :=
  Passes.withIal (congrArg Ial.Outer.pendingCmdQueue houter)
    (congrArg Ial.Outer.channelState houter) (congrArg Ial.Outer.sataChannel houter)

/-- The commands are aborted if the channel has a structure. -/
theorem abortIf_passes (ch : HostChannel) (b : Bool) :
    Passes ch (if b then abortCommands ch else ch) := by
  cases b with
  | false => exact Passes.refl ch
  | true =>
    refine ⟨abortCommands_handed ch, abortCommands_deferred, fun h => ⟨?_, ?_⟩⟩
    · intro hcommands
      exact absurd abortCommands_commands hcommands
    · rw [if_pos rfl, abortCommands_ial]
      exact h.released

/-- After the commands are aborted there are none. -/
theorem abortIf_commands (h : ch.Linked) :
    (if ch.ial.sataChannel then abortCommands ch else ch).commands = [] := by
  by_cases hsata : ch.ial.sataChannel = true
  · rw [if_pos hsata, abortCommands_commands]
  · rw [if_neg hsata]
    by_contra hcommands
    exact hsata (h.held hcommands)

/-- Aborting under a condition leaves the intermediate layer alone. -/
theorem abortIf_ial {b : Bool} : (if b then abortCommands ch else ch).ial = ch.ial := by
  cases b with
  | false => rfl
  | true => exact abortCommands_ial

/-- The core driver has no command of a channel that is started again. -/
theorem mvRestartChannel_commands (h : ch.Linked) : (mvRestartChannel ch).commands = [] := by
  unfold mvRestartChannel
  dsimp only
  rw [completePending_commands, abortIf_commands h]

/-- No command waits after `mvRestartChannel`. -/
theorem mvRestartChannel_pending (ch : HostChannel) :
    (mvRestartChannel ch).ial.pendingCmdQueue = [] := by
  obtain ⟨reading, hrestart⟩ := Ial.mvRestartChannel_eq ch.ial
  unfold mvRestartChannel
  rw [hrestart]

/-- `mvRestartChannel` passes the commands on. -/
theorem mvRestartChannel_passes (ch : HostChannel) : Passes ch (mvRestartChannel ch) := by
  have habort := abortIf_passes ch ch.ial.sataChannel
  have hpending := mvRestartChannel_pending ch
  have hcommands := @mvRestartChannel_commands ch
  obtain ⟨reading, hrestart⟩ := Ial.mvRestartChannel_eq ch.ial
  refine ⟨habort.toHanded.trans (Handed.flushed _ hpending), ?_, fun h => ⟨?_, ?_⟩⟩
  · exact completePending_deferred.trans habort.deferred
  · intro hne
    exact absurd (hcommands h) hne
  · intro hnot
    have hstate : (Ial.mvRestartChannel ch.ial).channelState = .notConnected := hnot
    rw [hrestart] at hstate
    cases hstate

/-- `mvStopChannel` passes the commands on. -/
theorem mvStopChannel_passes (ch : HostChannel) : Passes ch (mvStopChannel ch) := by
  have habort := abortIf_passes ch ch.ial.sataChannel
  obtain ⟨threshold, value, reading, hstop⟩ := Ial.mvStopChannel_eq ch.ial
  have hpending : (Ial.mvStopChannel ch.ial).pendingCmdQueue = [] := by rw [hstop]
  have hsata : (Ial.mvStopChannel ch.ial).sataChannel = false := by rw [hstop]
  refine ⟨habort.toHanded.trans (Handed.flushed _ hpending), ?_, fun h => ⟨?_, fun _ => hsata⟩⟩
  · exact completePending_deferred.trans habort.deferred
  · intro hne
    unfold mvStopChannel at hne
    dsimp only at hne
    rw [completePending_commands, abortIf_commands h] at hne
    exact absurd rfl hne

/-- The core driver is flushed before the channel is started again. -/
theorem flushRestart_passes (ch : HostChannel) :
    Passes ch (mvRestartChannel { abortCommands ch with ial := Ial.flushDma ch.ial }) := by
  have habort := abortIf_passes ch true
  have hflush : Passes (abortCommands ch) { abortCommands ch with ial := Ial.flushDma ch.ial } := by
    refine Passes.withIal ?_ ?_ ?_
    · rw [abortCommands_ial]
      rfl
    · rw [abortCommands_ial]
      rfl
    · rw [abortCommands_ial]
      rfl
  exact habort.trans (hflush.trans (mvRestartChannel_passes _))

/-- `mvPMHotPlugDetected` passes the commands on. -/
theorem mvPMHotPlugDetected_passes (ch : HostChannel) : Passes ch (mvPMHotPlugDetected ch) := by
  unfold mvPMHotPlugDetected
  split
  · exact Passes.refl ch
  · exact flushRestart_passes ch

/-- `mvSetChannelState` passes the commands on. -/
theorem mvSetChannelState_passes {state : Ial.ChannelState}
    (hstate : state = .notConnected → ch.ial.sataChannel = false) :
    Passes ch (mvSetChannelState ch state) := by
  unfold mvSetChannelState
  by_cases hready : ch.ial.channelState ≠ state ∧ state = .ready
  · rw [if_pos hready]
    obtain ⟨hne, rfl⟩ := hready
    have hset := Ial.mvSetChannelState_ready hne
    have hpending : (Ial.mvSetChannelState ch.ial .ready).pendingCmdQueue = [] := by rw [hset]
    refine ⟨Handed.flushed _ hpending, completePending_deferred, fun h => ⟨?_, ?_⟩⟩
    · intro hcommands
      rw [hset]
      exact h.held (completePending_commands ch ▸ hcommands)
    · intro hnot
      rw [hset] at hnot
      cases hnot
  · rw [if_neg hready]
    by_cases hsame : ch.ial.channelState = state
    · have hidle : Ial.mvSetChannelState ch.ial state = ch.ial := if_pos hsame
      rw [hidle]
      exact Passes.refl ch
    · have hne : state ≠ .ready := fun h => hready ⟨hsame, h⟩
      obtain ⟨threshold, value, hset⟩ := @Ial.mvSetChannelState_of_ne ch.ial _ hne
      rw [hset]
      exact ⟨Handed.withIal rfl, rfl, fun h => ⟨h.held, hstate⟩⟩

/-! ### The handlers of the timer -/

/-- The end of a bring-up passes the commands on. -/
theorem finishChannel_passes (ch : HostChannel) : Passes ch (finishChannel hw ch) := by
  unfold finishChannel
  split
  · exact mvSetChannelState_passes fun h => by cases h
  · exact mvStopChannel_passes ch

/-- The handler for a channel without a device. -/
theorem mvChannelNotConnectedStateHandler_passes (ch : HostChannel) :
    Passes ch (mvChannelNotConnectedStateHandler ch) := by
  unfold mvChannelNotConnectedStateHandler
  split
  · rename_i hsata
    have hnone : (Ial.mvChannelNotConnectedStateHandler ch.ial).sataChannel = false ∧
        (Ial.mvChannelNotConnectedStateHandler ch.ial).pendingCmdQueue = [] := by
      unfold Ial.mvChannelNotConnectedStateHandler
      rw [if_pos hsata]
      exact ⟨rfl, rfl⟩
    obtain ⟨hkept, hlisted, hdone, hblocks, htables⟩ := Handed.flushed ch hnone.2
    refine ⟨⟨fun c => Nat.le_trans ?_ (hkept c), hlisted, hdone, hblocks, htables⟩,
      completePending_deferred, fun h => ⟨fun hne => absurd rfl hne, fun _ => hnone.1⟩⟩
    unfold HostChannel.waits
    dsimp only
    rw [List.count_nil]
    omega
  · exact Passes.refl ch

/-- The handler for a channel that has been connected. -/
theorem mvChannelConnectedStateHandler_passes (hstate : ch.ial.channelState = .connected) :
    Passes ch (mvChannelConnectedStateHandler hw ch) := by
  unfold mvChannelConnectedStateHandler
  by_cases hfails : ¬ ch.ial.sataChannel ∧ ¬ hw.initChannel
  · rw [if_pos hfails]
    have hfree : Passes ch
        { ch with ial := Ial.mvDrivesInfoFlushAll { ch.ial with sataChannel := false } } := by
      refine ⟨Handed.withIal rfl, rfl, fun h => ⟨?_, fun _ => rfl⟩⟩
      intro hcommands
      exact absurd (h.held hcommands) hfails.1
    exact hfree.trans (mvSetChannelState_passes fun _ => rfl)
  · rw [if_neg hfails]
    obtain ⟨res, heq⟩ := Ial.mvStartChannelInit_eq hw { ch.ial with sataChannel := true }
    have hstart : ∀ ial : Ial.IalChannel, ial.pendingCmdQueue = ch.ial.pendingCmdQueue →
        ial.sataChannel = true → ial.channelState = ch.ial.channelState →
          Passes ch { ch with ial } := by
      intro ial hpending hsata hsame
      refine ⟨Handed.withIal hpending, rfl, fun _ => ⟨fun _ => hsata, fun hnot => ?_⟩⟩
      rw [hsame] at hnot
      exact absurd (hstate.symm.trans hnot) (by simp)
    rw [heq]
    dsimp only
    split_ifs with hres hready
    · exact hready.elim
    · refine Passes.trans (hstart _ ?_ ?_ ?_) (@mvSetChannelState_passes _ .inSrst fun h => by cases h)
      · rfl
      · rfl
      · rfl
    · refine Passes.trans (hstart _ ?_ ?_ ?_) (mvStopChannel_passes _)
      · rfl
      · rfl
      · rfl

/-- The handler for a channel in soft reset. -/
theorem mvChannelInSrstStateHandler_passes (ch : HostChannel) :
    Passes ch (mvChannelInSrstStateHandler hw ch).2 := by
  have houter := (Ial.mvChannelSRSTFinished_outer hw (Ial.mvDecrementChannelTimer ch.ial)).trans
    (Ial.mvDecrementChannelTimer_keeps ch.ial).outer
  unfold mvChannelInSrstStateHandler
  obtain ⟨outcome, ial, heq⟩ : ∃ outcome ial,
      Ial.mvChannelSRSTFinished hw (Ial.mvDecrementChannelTimer ch.ial) = (outcome, ial) :=
    ⟨_, _, rfl⟩
  rw [heq] at houter ⊢
  have hial : Passes ch { ch with ial } := Passes.outer houter
  cases outcome with
  | diskReady => exact hial.trans (finishChannel_passes _)
  | fatalError => exact hial.trans (mvStopChannel_passes _)
  | busy =>
    dsimp only
    split
    · exact hial.trans (mvStopChannel_passes _)
    · exact hial
  | pmFound =>
    have hpm : Passes ch { ch with ial := (Ial.mvPMEstablishSataComm hw ial).2 } :=
      Passes.outer ((Ial.mvPMEstablishSataComm_keeps hw ial).outer.trans houter)
    dsimp only
    split
    · exact hpm.trans (mvStopChannel_passes _)
    · exact hpm.trans (mvSetChannelState_passes fun h => by cases h)

/-- The handler for the spin-up of the ports. -/
theorem mvChannelPMStaggeredSpinUpStateHandler_passes (ch : HostChannel) :
    Passes ch (mvChannelPMStaggeredSpinUpStateHandler hw ch) := by
  have houter := (Ial.mvPMCheckForConnectedDevices_keeps hw ch.ial).outer
  unfold mvChannelPMStaggeredSpinUpStateHandler
  obtain ⟨outcome, ial, heq⟩ : ∃ outcome ial,
      Ial.mvPMCheckForConnectedDevices hw ch.ial = (outcome, ial) := ⟨_, _, rfl⟩
  rw [heq] at houter ⊢
  have hial : Passes ch { ch with ial } := Passes.outer houter
  cases outcome with
  | channelReady => exact hial.trans (finishChannel_passes _)
  | inProgress =>
    have htimer : Passes ch { ch with ial := Ial.mvSetChannelTimer ial Ial.srstTimeout } :=
      Passes.outer houter
    exact htimer.trans (mvSetChannelState_passes fun h => by cases h)
  | reconnected => exact hial
  | failed pmErrorDetected => exact hial.trans (mvStopChannel_passes _)

/-- The handler for a port in soft reset. -/
theorem mvChannelPMSrstDeviceStateHandler_passes (ch : HostChannel) :
    Passes ch (mvChannelPMSrstDeviceStateHandler hw ch) := by
  have houter := (Ial.mvInitPMDevice_outer hw (Ial.mvDecrementChannelTimer ch.ial)).trans
    (Ial.mvDecrementChannelTimer_keeps ch.ial).outer
  unfold mvChannelPMSrstDeviceStateHandler
  obtain ⟨outcome, ial, heq⟩ : ∃ outcome ial,
      Ial.mvInitPMDevice hw (Ial.mvDecrementChannelTimer ch.ial) = (outcome, ial) := ⟨_, _, rfl⟩
  rw [heq] at houter ⊢
  have hial : Passes ch { ch with ial } := Passes.outer houter
  cases outcome with
  | reconnected => exact hial.trans (mvRestartChannel_passes _)
  | channelReady => exact hial.trans (finishChannel_passes _)
  | inProgress => exact Passes.outer houter
  | failed pmErrorDetected =>
    dsimp only
    split
    · exact hial.trans (finishChannel_passes _)
    · split
      · exact hial.trans (mvStopChannel_passes _)
      · exact hial

/-- A command that fails is passed on. -/
theorem complete_passes {type : CompletionType} (htype : type ≠ .normal) :
    Passes ch (complete ch c type) := by
  refine ⟨complete_handed ch c type, complete_deferred htype, fun h => ⟨?_, ?_⟩⟩
  · intro hne
    rw [complete_ial]
    refine h.held fun hnil => hne ?_
    rw [complete_commands, hnil]
    rfl
  · rw [complete_ial]
    exact h.released

/-- The handler for a channel that is ready. -/
theorem mvChannelReadyStateHandler_passes (errors : List DevError) (ch : HostChannel) :
    Passes ch (mvChannelReadyStateHandler hw errors ch) := by
  have hial : Passes ch { ch with ial := Ial.mvChannelReadyStateHandler hw ch.ial } := by
    have hsame : ∀ counter reading, Passes ch { ch with
        ial := { ch.ial with pmRegPollCounter := counter, pmRegAccessInProgress := reading } } :=
      fun _ _ => Passes.withIal rfl rfl rfl
    unfold Ial.mvChannelReadyStateHandler
    split
    · dsimp only
      split
      · exact hsame _ ch.ial.pmRegAccessInProgress
      · exact hsame _ _
    · exact Passes.refl ch
  have herrors : ∀ (errors : List DevError) (ch : HostChannel),
      Passes ch (errors.foldl (fun ch e => complete ch e.command e.type) ch) := by
    intro errors
    induction errors with
    | nil => exact fun ch => Passes.refl ch
    | cons e errors ih =>
      intro ch
      refine Passes.trans (complete_passes ?_) (ih _)
      unfold DevError.type
      cases e.error with
      | none => simp
      | some error => simp
  exact hial.trans (herrors errors _)

/-- One turn of the loop passes the commands on. -/
theorem channelHandler_passes (errors : List DevError) (ch : HostChannel) :
    Passes ch (channelHandler hw errors ch).2 := by
  unfold channelHandler
  cases hstate : ch.ial.channelState with
  | notConnected => exact mvChannelNotConnectedStateHandler_passes ch
  | connected => exact mvChannelConnectedStateHandler_passes hstate
  | inSrst => exact mvChannelInSrstStateHandler_passes ch
  | pmStaggeredSpinUp => exact mvChannelPMStaggeredSpinUpStateHandler_passes ch
  | pmSrstDevice => exact mvChannelPMSrstDeviceStateHandler_passes ch
  | ready => exact mvChannelReadyStateHandler_passes errors ch
  | pmHotPlug => exact flushRestart_passes ch

/-- A tick of a channel passes its commands on. -/
theorem mvChannelStateMachine_passes {errors : List DevError} {fuel : ℕ}
    (hturns : mvChannelStateMachine hw errors fuel ch = some ch') : Passes ch ch' := by
  induction fuel generalizing ch with
  | zero => cases hturns
  | succ fuel ih =>
    have hturn : Passes ch (channelHandler hw errors ch).2 := channelHandler_passes errors ch
    unfold mvChannelStateMachine at hturns
    dsimp only at hturns
    split at hturns
    · obtain rfl := Option.some.inj hturns
      exact hturn
    · exact hturn.trans (ih hturns)

/-- The start of a channel passes its commands on. -/
theorem startChannel_passes {errors : List DevError} {connected : Bool}
    (hsata : ch.ial.sataChannel = false)
    (hstart : startChannel hw errors connected ch = some ch') : Passes ch ch' := by
  have hflush : Passes ch (mvFlushSCSICommandQueue ch) := by
    refine ⟨Handed.flushed _ rfl, completePending_deferred, fun h => ⟨?_, fun _ => hsata⟩⟩
    intro hne
    exact h.held (completePending_commands ch ▸ hne)
  unfold startChannel at hstart
  dsimp only at hstart
  split at hstart
  · obtain rfl := Option.some.inj hstart
    exact hflush.trans (mvSetChannelState_passes fun _ => hsata)
  · exact hflush.trans
      ((mvSetChannelState_passes fun h => by cases h).trans (mvChannelStateMachine_passes hstart))

end Mv88fxx81.Sata.Ht
