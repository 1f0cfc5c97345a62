import Mv88fxx81.Sata.HostMoves

/-!
# The accounts of a channel's commands

A command that a host has accepted has its block until it is put on the done list, and is put there
once. The steps here give a command to the layers below or take it through an interrupt.
-/

namespace Mv88fxx81.Sata.Ht

variable {ch ch' : HostChannel} {c : ℕ} {scb : Scb} {drive : DriveData}
  {result : QueueCommandResult}

/-! ### Commands that the core driver refuses -/

/-- A command that the core driver refuses is not queued. -/
theorem queueOrFinish_refused {info : QueueCommandInfo} (hresult : result ≠ .ok) :
    (queueOrFinish drive scb info result).queued = none := by
  unfold queueOrFinish
  rw [if_neg hresult]
  rfl

/-- Nor is a part of a split VERIFY. -/
theorem splittedVerify_refused (hresult : result ≠ .ok) :
    (mvScsiAtaSendSplittedVerifyCommand scb result).queued = none := by
  unfold mvScsiAtaSendSplittedVerifyCommand
  rw [if_neg hresult]

/-- Nor is the second command of a MODE SELECT. -/
theorem readLookAhead_refused (hresult : result ≠ .ok) :
    (mvScsiAtaSendReadLookAhead scb result).queued = none := by
  unfold mvScsiAtaSendReadLookAhead
  rw [if_neg hresult]

/-- Nor is the first one. -/
theorem mvParseModeCachingPage_notQueued {page : ℕ → UInt8} {reply : Reply} (hresult : result ≠ .ok)
    (h : mvParseModeCachingPage drive scb page result = .ok reply) : reply.queued = none := by
  unfold mvParseModeCachingPage at h
  dsimp only at h
  split at h
  · cases h
  · split at h
    · cases h
    · split at h
      · split at h
        · cases h
        · obtain rfl := Except.ok.inj h
          exact queueOrFinish_refused hresult
      · split at h
        · obtain rfl := Except.ok.inj h
          exact queueOrFinish_refused hresult
        · split at h
          · obtain rfl := Except.ok.inj h
            exact readLookAhead_refused hresult
          · obtain rfl := Except.ok.inj h
            rfl

/-- `mvScsiAtaModeSelect` queues nothing that is refused. -/
theorem mvScsiAtaModeSelect_notQueued (hresult : result ≠ .ok) :
    (mvScsiAtaModeSelect drive scb result).queued = none := by
  unfold mvScsiAtaModeSelect
  split
  · rfl
  · rename_i reply hreply
    unfold modeSelect at hreply
    split at hreply
    · cases hreply
    · obtain rfl := Except.ok.inj hreply
      rfl
    · exact mvParseModeCachingPage_notQueued hresult hreply

/-- No handler queues a command that is refused. -/
theorem dispatch_notQueued {op : ScsiOpcode} (hresult : result ≠ .ok) :
    (dispatch drive scb result op).queued = none := by
  have hdata : (mvScsiAtaSendDataCommand drive scb result).queued = none := by
    unfold mvScsiAtaSendDataCommand
    dsimp only
    generalize (if dataCount scb = 0 then (256 : UInt16) else dataCount scb) = sectors
    split
    · split
      · rfl
      · rfl
    · split
      · rfl
      · split
        · rfl
        · exact queueOrFinish_refused hresult
  have hverify : (mvScsiAtaSendVerifyCommand drive scb result).queued = none := by
    unfold mvScsiAtaSendVerifyCommand
    dsimp only
    split
    · split
      · rfl
      · rfl
    · split
      · rfl
      · split
        · exact queueOrFinish_refused hresult
        · exact splittedVerify_refused hresult
  cases op with
  | read6 => exact hdata
  | read10 => exact hdata
  | write6 => exact hdata
  | write10 => exact hdata
  | verify6 => exact hverify
  | verify10 => exact hverify
  | modeSelect6 => exact mvScsiAtaModeSelect_notQueued hresult
  | modeSense6 => exact queueOrFinish_refused hresult
  | testUnitReady => rfl
  | reassignBlocks => rfl
  | inquiry =>
    show (mvScsiAtaGetInquiryData drive scb).queued = none
    unfold mvScsiAtaGetInquiryData
    split
    · split <;> rfl
    · rfl
  | requestSense6 =>
    show (mvScsiAtaGetRequestSenseData drive scb).queued = none
    unfold mvScsiAtaGetRequestSenseData
    split <;> rfl
  | readCapacity10 =>
    show (mvScsiAtaGetReadCapacityData drive scb).queued = none
    unfold mvScsiAtaGetReadCapacityData
    split <;> rfl
  | seek10 =>
    show (mvScsiAtaSeek drive scb).queued = none
    unfold mvScsiAtaSeek
    split <;> rfl
  | synchronizeCache10 =>
    show (mvScsiAtaSendSyncCacheCommand drive scb result).queued = none
    unfold mvScsiAtaSendSyncCacheCommand
    dsimp only
    split
    · rfl
    · split
      · rfl
      · exact queueOrFinish_refused hresult

/-- A command that the core driver refuses is not with it. -/
theorem mvSataExecuteScsiCommand_notQueued (ext : SalAdapterExtension) (scb : Scb)
    (hresult : result ≠ .ok) : (mvSataExecuteScsiCommand ext scb result).queued = none := by
  unfold mvSataExecuteScsiCommand executeOnDrive
  dsimp only
  split
  · split
    · rfl
    · split
      · rfl
      · split
        · rfl
        · exact dispatch_notQueued hresult
  · rfl

/-- A SMART command that is refused is not queued. -/
theorem mvScsiAtaSendSmartCommand_notQueued (ext : SalAdapterExtension) (scb : Scb)
    (hresult : result ≠ .ok) : (mvScsiAtaSendSmartCommand ext scb result).queued = none := by
  unfold mvScsiAtaSendSmartCommand
  dsimp only
  split
  · rfl
  · split
    · rfl
    · split
      · rfl
      · exact queueOrFinish_refused hresult

/-- A command is queued or answered, and not both. -/
theorem queueOrFinish_atMostOnce {info : QueueCommandInfo} :
    (queueOrFinish drive scb info result).completions.length +
      (queueOrFinish drive scb info result).queued.toList.length ≤ 1 := by
  unfold queueOrFinish
  split
  · exact Nat.le_refl 1
  · exact Nat.le_refl 1

/-- A SMART command is queued or answered, and not both. -/
theorem mvScsiAtaSendSmartCommand_atMostOnce (ext : SalAdapterExtension) (scb : Scb)
    (result : QueueCommandResult) :
    (mvScsiAtaSendSmartCommand ext scb result).completions.length +
      (mvScsiAtaSendSmartCommand ext scb result).queued.toList.length ≤ 1 := by
  unfold mvScsiAtaSendSmartCommand
  dsimp only
  split
  · exact Nat.le_refl 1
  · split
    · exact Nat.le_refl 1
    · split
      · exact Nat.le_refl 1
      · exact queueOrFinish_atMostOnce

/-! ### Giving a command to the layers below -/

/-- A command that is new to a channel goes to the core driver or to the done list, if anywhere.
The channel has a structure where the core driver takes it. -/
structure Takes (c : ℕ) (ch ch' : HostChannel) : Prop extends Handed [c] ch ch' where
  deferred : ch'.deferred = ch.deferred
  linked : ch.Linked → ch'.Linked
  sataChannel : ch'.ial.sataChannel = ch.ial.sataChannel

/-- The answer to a command takes it. -/
theorem takeAnswer_takes {completions : List Scb} {queued : Option QueueCommandInfo}
    (honce : completions.length + queued.toList.length ≤ 1)
    (hqueued : ch.ial.sataChannel = false → queued = none) :
    Takes c ch (takeAnswer ch c scb completions queued) := by
  unfold takeAnswer
  cases completions with
  | nil =>
    rw [List.foldl_nil]
    cases queued with
    | none =>
      obtain ⟨hkept, hlisted, hdone, hblocks, htables⟩ := Handed.refl ch
      refine ⟨⟨fun x => ?_, hlisted, hdone, hblocks, htables⟩, rfl, fun h => ⟨?_, h.released⟩, rfl⟩
      · show (ch.commands ++ []).count x + ch.ial.pendingCmdQueue.count x + ch.deferred.count x +
          ch.listed.count x ≤ ch.waits x + ch.listed.count x + [c].count x
        rw [List.append_nil]
        exact Nat.le_add_right _ _
      · show ch.commands ++ [] ≠ [] → _
        rw [List.append_nil]
        exact h.held
    | some info =>
      obtain ⟨hkept, hlisted, hdone, hblocks, htables⟩ := Handed.refl ch
      have hsata : ch.ial.sataChannel = true := by
        rw [← Bool.not_eq_false]
        exact fun hsata => by cases hqueued hsata
      refine ⟨⟨fun x => ?_, hlisted, hdone, hblocks, htables⟩, rfl,
        fun h => ⟨fun _ => hsata, h.released⟩, rfl⟩
      show (ch.commands ++ [c]).count x + ch.ial.pendingCmdQueue.count x + ch.deferred.count x +
        ch.listed.count x ≤ ch.commands.count x + ch.ial.pendingCmdQueue.count x +
          ch.deferred.count x + ch.listed.count x + [c].count x
      rw [List.count_append]
      omega
  | cons answer completions =>
    obtain ⟨rfl, hnone⟩ : completions = [] ∧ queued.toList = [] := by
      rw [List.length_cons] at honce
      exact ⟨List.length_eq_zero_iff.1 (by omega), List.length_eq_zero_iff.1 (by omega)⟩
    rw [hnone]
    obtain ⟨hkept, hlisted, hdone, hblocks, htables⟩ :=
      ialCompletion_handed { ch with scb := Function.update ch.scb c scb } c
    refine ⟨⟨fun x => ?_, hlisted, hdone, hblocks, htables⟩, rfl, fun h => ⟨?_, h.released⟩, rfl⟩
    · show (ch.commands ++ []).count x + ch.ial.pendingCmdQueue.count x + ch.deferred.count x +
        (ch.listed ++ [c]).count x ≤ ch.waits x + ch.listed.count x + [c].count x
      rw [List.append_nil]
      exact hkept x
    · show ch.commands ++ [] ≠ [] → _
      rw [List.append_nil]
      exact h.held

/-- The core driver refuses all commands of a channel without a structure. -/
theorem queueResult_ne (hsata : ch.ial.sataChannel = false) : queueResult ch result ≠ .ok := by
  unfold queueResult
  rw [hsata]
  simp

/-- The execution of a command takes it. -/
theorem executeCommand_takes {n : ℕ} (adapterState : Ial.AdapterState) (k : Fin n) (r : Request)
    (ch : HostChannel) (c : ℕ) : Takes c ch (executeCommand adapterState k r ch c) := by
  unfold executeCommand
  dsimp only
  split
  · exact takeAnswer_takes (mvScsiAtaSendSmartCommand_atMostOnce _ _ _) fun hsata =>
      mvScsiAtaSendSmartCommand_notQueued _ _ (queueResult_ne hsata)
  · unfold mvExecuteScsiCommand
    split
    · exact takeAnswer_takes (mvSataExecuteScsiCommand_atMostOnce _ _ _) fun hsata =>
        mvSataExecuteScsiCommand_notQueued _ _ (queueResult_ne hsata)
    · obtain ⟨hkept, hlisted, hdone, hblocks, htables⟩ := Handed.refl ch
      refine ⟨⟨fun x => ?_, hlisted, hdone, hblocks, htables⟩, rfl,
        fun h => ⟨h.held, h.released⟩, rfl⟩
      show ch.commands.count x + (ch.ial.pendingCmdQueue ++ [c]).count x + ch.deferred.count x +
        ch.listed.count x ≤ ch.commands.count x + ch.ial.pendingCmdQueue.count x +
          ch.deferred.count x + ch.listed.count x + [c].count x
      rw [List.count_append]
      omega

/-! ### An interrupt -/

/-- The second command of a block that waits takes it. -/
theorem serviceBlock_takes (results : ℕ → QueueCommandResult) (ch : HostChannel) (c : ℕ) :
    Takes c ch (serviceBlock results ch c) := by
  have hverify : Takes c ch
      (takeAnswer ch c (mvScsiAtaSendSplittedVerifyCommand (ch.scb c)
          (queueResult ch (results c))).scb
        (mvScsiAtaSendSplittedVerifyCommand (ch.scb c) (queueResult ch (results c))).completions
        (mvScsiAtaSendSplittedVerifyCommand (ch.scb c) (queueResult ch (results c))).queued) := by
    refine takeAnswer_takes ?_ fun hsata => splittedVerify_refused (queueResult_ne hsata)
    unfold mvScsiAtaSendSplittedVerifyCommand
    split
    · exact Nat.le_refl 1
    · exact Nat.zero_le 1
  have hahead : Takes c ch
      (takeAnswer ch c (mvScsiAtaSendReadLookAhead (ch.scb c) (queueResult ch (results c))).scb
        (mvScsiAtaSendReadLookAhead (ch.scb c) (queueResult ch (results c))).completions
        (mvScsiAtaSendReadLookAhead (ch.scb c) (queueResult ch (results c))).queued) := by
    refine takeAnswer_takes ?_ fun hsata => readLookAhead_refused (queueResult_ne hsata)
    unfold mvScsiAtaSendReadLookAhead
    split
    · exact Nat.le_refl 1
    · exact Nat.le_refl 1
  unfold serviceBlock
  dsimp only
  split
  · exact hverify
  · exact hverify
  · exact hahead
  · obtain ⟨hkept, hlisted, hdone, hblocks, htables⟩ := Handed.refl ch
    exact ⟨⟨fun x => Nat.le_add_right _ _, hlisted, hdone, hblocks, htables⟩, rfl, id, rfl⟩

/-- The follow-up commands of a list of blocks. -/
theorem foldl_serviceBlock (results : ℕ → QueueCommandResult) (l : List ℕ) (ch : HostChannel) :
    Handed l ch (l.foldl (serviceBlock results) ch) ∧
      (l.foldl (serviceBlock results) ch).deferred = ch.deferred ∧
      (ch.Linked → (l.foldl (serviceBlock results) ch).Linked) ∧
      (l.foldl (serviceBlock results) ch).ial.sataChannel = ch.ial.sataChannel := by
  induction l generalizing ch with
  | nil => exact ⟨Handed.refl ch, rfl, id, rfl⟩
  | cons c l ih =>
    have hservice := serviceBlock_takes results ch c
    obtain ⟨hhanded, hdeferred, hlinked, hsata⟩ := ih (serviceBlock results ch c)
    exact ⟨hservice.toHanded.trans hhanded, hdeferred.trans hservice.deferred,
      fun h => hlinked (hservice.linked h), hsata.trans hservice.sataChannel⟩

/-- What an interrupt may do to a channel. It puts a structure to no channel. -/
structure Interrupts (ch ch' : HostChannel) : Prop extends Handed [] ch ch' where
  linked : ch.Linked → ch'.Linked
  sataChannel : ch.ial.sataChannel = false → ch'.ial.sataChannel = false

/-- Nothing happens. -/
theorem Interrupts.refl (ch : HostChannel) : Interrupts ch ch := ⟨Handed.refl ch, id, id⟩

/-- One report after the other. -/
theorem Interrupts.trans {ch'' : HostChannel} (h : Interrupts ch ch') (h' : Interrupts ch' ch'') :
    Interrupts ch ch'' :=
  ⟨h.toHanded.trans h'.toHanded, fun hch => h'.linked (h.linked hch),
    fun hch => h'.sataChannel (h.sataChannel hch)⟩

/-- The work after an interrupt. -/
theorem mvSataScsiPostIntService_interrupts (results : ℕ → QueueCommandResult) (ch : HostChannel) :
    Interrupts ch (mvSataScsiPostIntService results ch) := by
  obtain ⟨⟨hkept, hlisted, hdone, hblocks, htables⟩, hdeferred, hlinked, hsata⟩ :=
    foldl_serviceBlock results ch.deferred ch
  refine ⟨⟨fun x => ?_, hlisted, hdone, hblocks, htables⟩,
    fun h => ⟨(hlinked h).held, (hlinked h).released⟩, fun h => hsata.trans h⟩
  have hkept := hkept x
  unfold mvSataScsiPostIntService
  unfold HostChannel.waits at hkept ⊢
  rw [hdeferred] at hkept
  dsimp only
  rw [List.count_nil]
  omega

/-- What passes the commands on, as a part of an interrupt. -/
theorem Passes.interrupts (h : Passes ch ch')
    (hsata : ch.ial.sataChannel = false → ch'.ial.sataChannel = false) : Interrupts ch ch' :=
  ⟨h.toHanded, h.linked, hsata⟩

/-- `mvRestartChannel` keeps the structure of the channel. -/
theorem mvRestartChannel_sataChannel (ch : HostChannel) :
    (mvRestartChannel ch).ial.sataChannel = ch.ial.sataChannel := by
  obtain ⟨reading, hrestart⟩ := Ial.mvRestartChannel_eq ch.ial
  unfold mvRestartChannel
  rw [hrestart]

/-- The handling of one report. -/
theorem handle_interrupts {n : ℕ} (report : Report n) (ch : HostChannel) :
    Interrupts ch (report.handle ch) := by
  cases report with
  | completion k c type =>
    refine ⟨complete_handed ch c type, fun h => ⟨?_, ?_⟩, ?_⟩
    · intro hne
      show (complete ch c type).ial.sataChannel = true
      rw [complete_ial]
      refine h.held fun hnil => hne ?_
      show (complete ch c type).commands = []
      rw [complete_commands, hnil]
      rfl
    · show (complete ch c type).ial.channelState = _ → (complete ch c type).ial.sataChannel = _
      rw [complete_ial]
      exact h.released
    · show _ → (complete ch c type).ial.sataChannel = _
      rw [complete_ial]
      exact id
  | restart k =>
    exact (mvRestartChannel_passes ch).interrupts (mvRestartChannel_sataChannel ch).trans
  | stop k =>
    refine (mvStopChannel_passes ch).interrupts fun _ => ?_
    obtain ⟨threshold, value, reading, hstop⟩ := Ial.mvStopChannel_eq ch.ial
    show (Ial.mvStopChannel ch.ial).sataChannel = false
    rw [hstop]
  | hotPlug k =>
    refine (mvPMHotPlugDetected_passes ch).interrupts fun hsata => ?_
    show (mvPMHotPlugDetected ch).ial.sataChannel = false
    unfold mvPMHotPlugDetected
    split
    · exact hsata
    · rw [mvRestartChannel_sataChannel]
      exact hsata
  | pmRegister k value =>
    show Interrupts ch (if ch.ial.pmRegAccessInProgress = true then
      { ch with ial := Ial.mvPMCommandCompletionCB ch.ial value } else ch)
    split
    · obtain ⟨devs, threshold, time, heq⟩ | heq := Ial.mvPMCommandCompletionCB_cases ch.ial value
      · rw [heq]
        refine ⟨Handed.withIal rfl, fun h => ⟨h.held, fun hnot => ?_⟩, id⟩
        cases hnot
      · rw [heq]
        exact ⟨Handed.withIal rfl, fun h => ⟨h.held, h.released⟩, id⟩
    · exact Interrupts.refl ch

/-- The interrupt service routine. -/
theorem serviceRoutine_interrupts {n : ℕ} (reports : List (Report n))
    (channels : Fin n → HostChannel) (k : Fin n) :
    Interrupts (channels k) (serviceRoutine reports channels k) := by
  induction reports generalizing channels with
  | nil => exact Interrupts.refl _
  | cons report reports ih =>
    refine Interrupts.trans ?_ (ih _)
    dsimp only
    by_cases hk : k = report.channel
    · rw [hk, Function.update_self]
      exact handle_interrupts report _
    · rw [Function.update_of_ne hk]
      exact Interrupts.refl _

end Mv88fxx81.Sata.Ht
