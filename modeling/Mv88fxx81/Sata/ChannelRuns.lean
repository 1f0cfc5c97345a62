import Mv88fxx81.Sata.ChannelLedger

/-!
# The accounts over the runs of a channel

Every call and every interrupt keeps the accounts and the ledger of a channel, as
long as the EDMA stops when a PIO command has to be started. Where it does not stop,
the channel is flushed and reset, and the driver goes on with the command it has
just aborted.
-/

namespace Mv88fxx81.Sata.Core

open TransitionSystem

variable {cfg : ChannelConfig} {hw : Hardware} {ch ch' : Channel} {e : EntryRef}
  {tags t₁ t₂ : List ℕ} {readLog : Bool} {t : ℕ} {info : CommandInfo} {failed : Bool}
  {base : Ledger}

theorem Sound.activateEdma (h : Sound cfg base ch false tags) :
    Sound cfg base (activateEdma ch) false tags :=
  h.congr rfl fun hr => by cases hr

/-- The commands that wait are started. -/
theorem insertQCommandsFuel_good (fuel : ℕ) (h : Good cfg base ch) :
    Good cfg base (insertQCommandsFuel cfg hw fuel ch) := by
  induction fuel generalizing ch with
  | zero => exact h
  | succ fuel ih =>
    obtain ⟨readLog, tags, h⟩ := h
    unfold insertQCommandsFuel
    cases hhead : ch.queue.head with
    | none => exact ⟨readLog, tags, h⟩
    | some e =>
      have hmem : e ∈ queueRefs readLog tags :=
        List.mem_of_mem_head? (h.head_eq.symm.trans hhead)
      dsimp only
      split_ifs with hudma hsent
      · -- the head is a command of the table, since READ LOG EXT is a PIO command
        have hread : readLog = false := by
          cases readLog with
          | false => rfl
          | true =>
            obtain ⟨-, -, hpio⟩ := h.readLogExt rfl
            have hfirst : some e = some EntryRef.readLogExt := hhead.symm.trans h.head_eq
            rw [Option.some.inj hfirst, hpio] at hudma
            cases hudma
        subst hread
        have hquiet := foldl_quiet (edmaReqQueueInsert_quiet cfg)
          (List.takeWhile (fun e => ((activateEdma ch).commandsQueue e).info.isUdma)
            ((activateEdma ch).commands cfg)) (activateEdma ch)
        exact ⟨false, tags, h.activateEdma.quiet hquiet⟩
      · exact ⟨readLog, tags, h.quiet (sendNoneUdmaCommand_quiet cfg hw ch e)⟩
      · exact completePIOCommandWith_good (fun _ => ih)
          (h.quiet (sendNoneUdmaCommand_quiet cfg hw ch e)) hmem

theorem insertQCommandsIntoEdma_good (h : Good cfg base ch) :
    Good cfg base (insertQCommandsIntoEdma cfg hw ch) :=
  insertQCommandsFuel_good _ h

theorem completePIOCommand_good (h : Sound cfg base ch readLog tags)
    (he : e ∈ queueRefs readLog tags) :
    Good cfg base (completePIOCommand cfg hw ch e failed) :=
  completePIOCommandWith_good (fun _ => insertQCommandsIntoEdma_good) h he

theorem doDevErrorRecovery_good (h : Good cfg base ch) :
    Good cfg base (doDevErrorRecovery cfg hw ch) :=
  doDevErrorRecoveryWith_good (fun _ => insertQCommandsIntoEdma_good) h

/-- The EDMA is stopped, or the channel is flushed and reset. -/
theorem deactivateEdma_sound (h : Sound cfg base ch readLog tags) :
    ∃ tags', Sound cfg base (deactivateEdma cfg hw ch) (hw.stops && readLog) tags' := by
  cases hstops : hw.stops with
  | true =>
    exact ⟨tags, h.quiet (deactivateEdma_quiet hstops ch)⟩
  | false =>
    have hquiet : Quiet ch
        { ch with edmaActive := false, edmaHalted := false, queueCommandsEnabled := false } :=
      ⟨rfl, id⟩
    have hflush := (h.quiet hquiet).flushReset
    refine ⟨[], ?_⟩
    simpa [deactivateEdma, hstops] using hflush

theorem deactivateEdma_good (h : Good cfg base ch) : Good cfg base (deactivateEdma cfg hw ch) := by
  obtain ⟨readLog, tags, h⟩ := h
  obtain ⟨tags', hd⟩ := @deactivateEdma_sound _ hw _ _ _ _ h
  exact ⟨_, tags', hd⟩

theorem enterRequestSenseState_good (h : Sound cfg base ch false tags) :
    Good cfg base (enterRequestSenseState cfg hw ch) := by
  have hflag : Sound cfg base { ch with
      useVendorUniqGen2WA := decide (cfg.generation = .genII) && hw.edmaState70 } false tags :=
    h.congr rfl fun hr => by cases hr
  obtain ⟨tags', hstop⟩ := @deactivateEdma_sound _ hw _ _ _ _ hflag
  rw [Bool.and_false] at hstop
  have hinsert : ∀ ch, Good cfg base ch → Good cfg base (insertQCommandsIntoEdma cfg hw ch) :=
    fun _ => insertQCommandsIntoEdma_good
  unfold enterRequestSenseState
  dsimp only
  split_ifs
  · exact finishErrorHandling_good hinsert hstop
  · exact ⟨false, tags', hstop⟩
  · exact ⟨false, tags', hstop.congr rfl fun hr => by cases hr⟩
  · exact finishErrorHandling_good hinsert (hstop.congr rfl fun hr => by cases hr)
  · exact handlePortError_good hinsert (hstop.congr rfl fun hr => by cases hr) rfl

theorem abortChannel_good (h : Good cfg base ch) : Good cfg base (abortChannel cfg hw ch) := by
  have hquiet : Quiet ch { ch with queueCommandsEnabled := false, edmaActive := false } :=
    ⟨rfl, id⟩
  exact ⟨false, [], (deactivateEdma_good (h.quiet hquiet)).flushReset⟩

theorem handleRecoverableError_good (h : Good cfg base ch) (cause : BitVec 32) :
    Good cfg base (handleRecoverableError cfg hw ch cause).2 := by
  unfold handleRecoverableError
  dsimp only
  split_ifs
  · exact abortChannel_good (h.quiet ⟨rfl, id⟩)
  · exact h.quiet ⟨rfl, id⟩
  · exact h

theorem handleAborted_good (h : Sound cfg base ch false tags) :
    Good cfg base (handleAborted cfg hw ch) := by
  have hports : Quiet ch (updatePortsWithErrors hw ch) := ⟨rfl, id⟩
  have hmarked := h.quiet (hports.trans (setAbortedCommands_quiet cfg hw _))
  unfold handleAborted
  dsimp only
  split_ifs
  · exact ⟨false, tags, hmarked⟩
  · exact enterRequestSenseState_good hmarked

/-- An error interrupt of the EDMA keeps the accounts. -/
theorem handleDevErr_good (h : Good cfg base ch)
    (hactive : ch.edmaActive = true → ch.queue.head ≠ some .readLogExt) (cause : BitVec 32) :
    Good cfg base (handleDevErr cfg hw ch cause).2 := by
  unfold handleDevErr
  split_ifs with hcause hedma hncq hfbs
  · obtain ⟨readLog, tags, h⟩ := h
    obtain rfl := h.readLog_eq_false_of_head (hactive hedma)
    exact handleAborted_good (h.quiet (firstError_quiet ch))
  · obtain ⟨readLog, tags, h⟩ := h
    obtain rfl := h.readLog_eq_false_of_head (hactive hedma)
    obtain ⟨tags', hfail⟩ := @handleEdmaFailedCommand_sound _ hw _ _ _
      (h.quiet (firstError_quiet ch))
    exact handleAborted_good hfail
  · exact h
  · exact h
  · exact h

theorem handleSelfDisable_good (h : Good cfg base ch)
    (hactive : ch.edmaActive = true → ch.queue.head ≠ some .readLogExt) (cause : BitVec 32) :
    Good cfg base (handleSelfDisable cfg hw ch cause).2 := by
  unfold handleSelfDisable
  dsimp only
  generalize (if cfg.generation = Generation.genI then 8 else 7) = bit
  split_ifs with hcause hedma hfailed
  · obtain ⟨readLog, tags, h⟩ := h
    obtain rfl := h.readLog_eq_false_of_head (hactive hedma)
    have hquiet : Quiet ch { ch with queueCommandsEnabled := false, edmaActive := false } :=
      ⟨rfl, id⟩
    obtain ⟨tags', hfail⟩ := @handleEdmaFailedCommand_sound _ hw _ _ _ (h.quiet hquiet)
    have hhalted : Sound cfg base { handleEdmaFailedCommand cfg hw { ch with
        queueCommandsEnabled := false, edmaActive := false } with edmaHalted := false }
        false tags' :=
      hfail.quiet ⟨rfl, id⟩
    exact doDevErrorRecovery_good ⟨false, tags', hhalted⟩
  · exact doDevErrorRecovery_good (h.quiet ⟨rfl, id⟩)
  · exact doDevErrorRecovery_good (h.quiet ⟨rfl, id⟩)
  · exact h

theorem handleUnrecoverableError_good (h : Good cfg base ch) (cause : BitVec 32) :
    Good cfg base (handleUnrecoverableError cfg hw ch cause).2 := by
  unfold handleUnrecoverableError
  split_ifs
  · exact abortChannel_good h
  · exact h

/-- An error that is not handled leaves the channel as it is. -/
theorem handleUnrecoverableError_not {cause : BitVec 32}
    (hnot : ¬ (handleUnrecoverableError cfg hw ch cause).1 = true) :
    (handleUnrecoverableError cfg hw ch cause).2 = ch := by
  unfold handleUnrecoverableError at hnot ⊢
  split_ifs at hnot ⊢ with hcause
  · exact absurd rfl hnot
  · rfl

theorem handleSelfDisable_not {cause : BitVec 32}
    (hnot : ¬ (handleSelfDisable cfg hw ch cause).1 = true) :
    (handleSelfDisable cfg hw ch cause).2 = ch := by
  unfold handleSelfDisable at hnot ⊢
  generalize (if cfg.generation = Generation.genI then 8 else 7) = bit at hnot ⊢
  by_cases hcause : cause.getLsbD bit = true
  · rw [if_pos hcause] at hnot
    exact absurd rfl hnot
  · rw [if_neg hcause]

/-- What the parts of `handleEdmaError` preserve, it preserves. -/
theorem handleEdmaError_preserves {P : Channel → Prop} {cause : BitVec 32} (h : P ch)
    (hdisconnect : P (handleDisconnect ch))
    (hactive : ch.edmaActive = true → ch.queue.head ≠ some .readLogExt)
    (hunrecoverable : ∀ {ch}, P ch → P (handleUnrecoverableError cfg hw ch cause).2)
    (hself : ∀ {ch}, P ch → (ch.edmaActive = true → ch.queue.head ≠ some .readLogExt) →
      P (handleSelfDisable cfg hw ch cause).2)
    (hdev : ∀ {ch}, P ch → (ch.edmaActive = true → ch.queue.head ≠ some .readLogExt) →
      P (handleDevErr cfg hw ch cause).2)
    (hrecoverable : ∀ {ch}, P ch → P (handleRecoverableError cfg hw ch cause).2) :
    P (handleEdmaError cfg hw ch cause) := by
  obtain ⟨ch₁, hch₁, hafter, hinactive⟩ : ∃ ch₁,
      (if cause.getLsbD 3 then handleDisconnect ch else ch) = ch₁ ∧ P ch₁ ∧
        (ch₁.edmaActive = true → ch₁.queue.head ≠ some .readLogExt) := by
    split_ifs
    · exact ⟨_, rfl, hdisconnect, fun hfalse => by cases hfalse⟩
    · exact ⟨_, rfl, h, hactive⟩
  unfold handleEdmaError
  dsimp only
  rw [hch₁]
  split_ifs with _ _ hnot _ hdisabled
  · exact hafter
  · exact hafter
  · exact hunrecoverable hafter
  · exact hunrecoverable hafter
  · rw [handleUnrecoverableError_not hnot]
    exact hself hafter hinactive
  · rw [handleUnrecoverableError_not hnot] at hdisabled ⊢
    rw [handleSelfDisable_not hdisabled]
    exact hdev hafter hinactive
  · rw [handleUnrecoverableError_not hnot] at hdisabled ⊢
    rw [handleSelfDisable_not hdisabled]
    exact hrecoverable (hdev hafter hinactive)

theorem handleEdmaError_good (h : Good cfg base ch)
    (hactive : ch.edmaActive = true → ch.queue.head ≠ some .readLogExt) (cause : BitVec 32) :
    Good cfg base (handleEdmaError cfg hw ch cause) :=
  handleEdmaError_preserves h (h.quiet ⟨rfl, id⟩) hactive
    (fun h => handleUnrecoverableError_good h cause)
    (fun h hactive => handleSelfDisable_good h hactive cause)
    (fun h hactive => handleDevErr_good h hactive cause)
    (fun h => handleRecoverableError_good h cause)

/-! ### Responses -/

/-- The first entry of the queue other than the given one holds a PIO command. -/
def Channel.pioNext (cfg : ChannelConfig) (ch : Channel) (e : EntryRef) : Bool :=
  ((ch.commands cfg).filter (· ≠ e)).head?.any fun e' => (ch.commandsQueue e').isPio

theorem queueRefs_filter (h : Accounted cfg ch readLog (t₁ ++ t :: t₂)) :
    (queueRefs readLog (t₁ ++ t :: t₂)).filter (· ≠ .command t) = queueRefs readLog (t₁ ++ t₂) := by
  have hnodup := h.nodup
  rw [List.nodup_middle, List.nodup_cons] at hnodup
  have hall : ∀ e ∈ queueRefs readLog (t₁ ++ t₂), (decide (e ≠ .command t)) = true := by
    intro e he
    rw [decide_eq_true_iff]
    rintro rfl
    exact hnodup.1 (command_mem_queueRefs.mp he)
  have hkept := List.filter_eq_self.mpr hall
  rw [queueRefs_append, List.filter_append] at hkept
  rw [queueRefs_append, queueRefs_append, List.filter_append, List.map_cons, List.filter_cons,
    if_neg (by simp), hkept]

/-- A PIO command at the head after a response was the first one other than the completed one. -/
theorem pioNext_of_removed (h : Sound cfg base ch readLog (t₁ ++ t :: t₂)) {id : ℕ}
    {compType : CompletionType}
    (hpio : (queueRefs readLog (t₁ ++ t₂)).head?.any (fun e =>
      ((removeCommand cfg ({ ch with edmaQueuedCommands := decr8 ch.edmaQueuedCommands }.callBack
        id compType) (.command t)).commandsQueue e).isPio) = true) :
    ch.pioNext cfg (.command t) = true := by
  have hnodup := h.nodup
  rw [List.nodup_middle, List.nodup_cons] at hnodup
  unfold Channel.pioNext
  rw [h.commands_eq, queueRefs_filter h.toAccounted]
  -- the entries that are left have not changed
  cases hfirst : (queueRefs readLog (t₁ ++ t₂)).head? with
  | none =>
    rw [hfirst] at hpio
    cases hpio
  | some e =>
    rw [hfirst] at hpio
    have he : e ≠ .command t := by
      rintro rfl
      exact hnodup.1 (command_mem_queueRefs.mp (List.mem_of_mem_head? hfirst))
    simpa [removeCommand, releaseTag, Channel.updateEntry, Channel.callBack,
      Function.update_of_ne he] using hpio

/-- A PIO command that waits is started, if the EDMA stops. -/
theorem startNextCommand_good (h : Sound cfg base ch readLog tags)
    (hstops : (queueRefs readLog tags).head?.any (fun e => (ch.commandsQueue e).isPio) = true →
      hw.stops = true) :
    ∃ ch', startNextCommand cfg hw ch = some ch' ∧ Good cfg base ch' := by
  unfold startNextCommand
  cases hhead : ch.queue.head with
  | none => exact ⟨ch, rfl, readLog, tags, h⟩
  | some e =>
    have hfirst : (queueRefs readLog tags).head? = some e := h.head_eq.symm.trans hhead
    rw [hfirst] at hstops
    dsimp only
    by_cases hudma : (ch.commandsQueue e).info.isUdma = true
    · rw [if_pos hudma]
      exact ⟨ch, rfl, readLog, tags, h⟩
    · rw [if_neg hudma]
      have hstop := h.quiet (@deactivateEdma_quiet cfg _
        (hstops (by simp [QueuedCommandEntry.isPio, hudma])) ch)
      have hsent := hstop.quiet (sendNoneUdmaCommand_quiet cfg hw _ e)
      have hhead₁ : (deactivateEdma cfg hw ch).queue.head = some e :=
        hstop.head_eq.trans hfirst
      have hhead₂ := hsent.head_eq.trans hfirst
      simp only [hhead₁, hhead₂]
      refine ⟨_, rfl, ?_⟩
      split_ifs
      · exact ⟨readLog, tags, hsent⟩
      · exact completePIOCommand_good hsent (List.mem_of_mem_head? hfirst)

/-- The command of a response is completed. -/
theorem completeResponse_good (h : Sound cfg base ch readLog tags)
    (ht : t < cfg.commandsQueueSize)
    (hstops : ch.pioNext cfg (.command t) = true → hw.stops = true) {compType : CompletionType} :
    ∃ ch', completeResponse cfg hw ch (.command t) compType = some ch' ∧ Good cfg base ch' := by
  unfold completeResponse
  dsimp only
  by_cases hfree : (ch.commandsQueue (.command t)).isFreeEntry = true
  · rw [if_pos hfree]
    exact ⟨ch, rfl, readLog, tags, h⟩
  · rw [if_neg hfree]
    have hmem : t ∈ tags := (h.inUse t).mpr ⟨ht, Bool.eq_false_iff.mpr hfree⟩
    obtain ⟨t₁, t₂, rfl⟩ := List.append_of_mem hmem
    have hremoved : Sound cfg base (removeCommand cfg
        ({ ch with edmaQueuedCommands := decr8 ch.edmaQueuedCommands }.callBack
          (ch.commandsQueue (.command t)).info.commandId compType) (.command t)) readLog
        (t₁ ++ t₂) :=
      (h.complete compType).quiet ⟨rfl, id⟩
    split_ifs with henabled hwait
    · obtain rfl := hremoved.readLog_eq_false (by rw [hwait.1]; simp)
      exact ⟨_, rfl, enterRequestSenseState_good hremoved⟩
    · exact startNextCommand_good hremoved fun hpio => hstops (pioNext_of_removed h hpio)
    · exact ⟨_, rfl, readLog, _, hremoved⟩

theorem pioNext_congr (hsame : ch'.account = ch.account) :
    ch'.pioNext cfg e = ch.pioNext cfg e := by
  have hqueue : ch'.queue = ch.queue := congrArg ChannelAccount.queue hsame
  have hpio : (fun e' => (ch'.commandsQueue e').isPio) = fun e' => (ch.commandsQueue e').isPio := by
    funext e'
    exact congrArg (fun x : EntryAccount => decide (¬ x.isUdma = true)) (account_entry hsame e')
  unfold Channel.pioNext Channel.commands
  rw [hqueue, hpio]

/-- The flags of a response change nothing in the accounts. -/
theorem checkResponseFlags_quiet (cfg : ChannelConfig) (hw : Hardware) (ch : Channel)
    (flags : BitVec 16) :
    ∃ ch', Quiet ch ch' ∧ (checkResponseFlags cfg hw ch flags = .ignored ch' ∨
      ∃ compType, checkResponseFlags cfg hw ch flags = .completes ch' compType) := by
  have hrecovered : Quiet ch
      (if ignoresSError cfg flags then
        (handleRecoverableError cfg hw { ch with recoveredErrorsCounter := 0 } 0x20).2
      else ch) := by
    unfold handleRecoverableError
    dsimp only
    split_ifs with hserror hcause hcount
    · exact absurd hcount (by decide)
    · exact ⟨rfl, id⟩
    · exact ⟨rfl, id⟩
    · exact Quiet.refl ch
  have hhalt : ∀ ch₁ : Channel, Quiet ch₁ (haltEdma ch₁) := fun _ => ⟨rfl, id⟩
  unfold checkResponseFlags
  dsimp only
  generalize (if ignoresSError cfg flags then
    (handleRecoverableError cfg hw { ch with recoveredErrorsCounter := 0 } 0x20).2
    else ch) = ch₁ at hrecovered ⊢
  split_ifs
  · exact ⟨ch, Quiet.refl ch, Or.inr ⟨_, rfl⟩⟩
  · exact ⟨ch₁, hrecovered, Or.inr ⟨_, rfl⟩⟩
  · exact ⟨ch₁, hrecovered, Or.inr ⟨_, rfl⟩⟩
  · exact ⟨haltEdma ch₁, hrecovered.trans (hhalt ch₁), Or.inl rfl⟩
  · exact ⟨haltEdma ch₁, hrecovered.trans (hhalt ch₁), Or.inr ⟨_, rfl⟩⟩

/-- A device error in a response changes nothing in the accounts. -/
theorem checkDeviceError_quiet {flags : BitVec 16}
    (hcheck : checkDeviceError cfg hw ch flags = some ch') : Quiet ch ch' := by
  unfold checkDeviceError at hcheck
  split_ifs at hcheck with hdevice hmode
  · obtain rfl := Option.some.inj hcheck
    exact (firstError_quiet ch).trans (setAbortedCommands_quiet cfg hw _)
  · obtain rfl := Option.some.inj hcheck
    exact Quiet.refl ch

/-- A response keeps the accounts. -/
theorem responseStep_good {tag : ℕ} {flags : BitVec 16} (h : Good cfg base ch)
    (htag : tag % cfg.edmaQueueLength < cfg.commandsQueueSize)
    (hstops : ch.pioNext cfg (.command (tag % cfg.edmaQueueLength)) = true → hw.stops = true) :
    ∃ ch', responseStep cfg hw ch tag flags = some ch' ∧ Good cfg base ch' := by
  have hout : Quiet ch { ch with rspOutPtr := (ch.rspOutPtr + 1) % cfg.edmaQueueLength } :=
    ⟨rfl, id⟩
  unfold responseStep handleEdmaResponse
  generalize { ch with rspOutPtr := (ch.rspOutPtr + 1) % cfg.edmaQueueLength } = ch₁ at hout ⊢
  obtain ⟨ch₂, hflags, hignored | ⟨compType, hcompletes⟩⟩ :=
    checkResponseFlags_quiet cfg hw ch₁ flags
  · rw [hignored]
    exact ⟨ch₂, rfl, h.quiet (hout.trans hflags)⟩
  · rw [hcompletes]
    dsimp only
    cases hdevice : checkDeviceError cfg hw ch₂ flags with
    | none => exact ⟨ch₂, rfl, h.quiet (hout.trans hflags)⟩
    | some ch₃ =>
      have hquiet := (hout.trans hflags).trans (checkDeviceError_quiet hdevice)
      obtain ⟨readLog, tags, h⟩ := h
      apply completeResponse_good (h.quiet hquiet) htag
      rw [pioNext_congr hquiet.account]
      exact hstops

/-! ### Interrupts of the drive -/

theorem setCount_quiet {protocolType : NonUdmaProtocol} {count count' : ℕ}
    (hparams : (ch.commandsQueue e).info.params = .noneUdma protocolType count) :
    Quiet ch (ch.setCount e protocolType count') := by
  apply quiet_updateEntry
  simp [QueuedCommandEntry.account, CommandInfo.isUdma, hparams]

theorem handleDeviceInterrupt_good (h : Good cfg base ch) :
    Good cfg base (handleDeviceInterrupt cfg hw ch) := by
  obtain ⟨readLog, tags, h⟩ := h
  unfold handleDeviceInterrupt
  by_cases hwait : ch.state = .waitForBusy
  · rw [if_pos hwait]
    obtain rfl := h.readLog_eq_false (by rw [hwait]; simp)
    exact handlePortError_good (fun _ => insertQCommandsIntoEdma_good)
      (h.congr rfl fun hr => by cases hr) rfl
  · rw [if_neg hwait]
    cases hhead : ch.queue.head with
    | none => exact ⟨readLog, tags, h⟩
    | some e =>
      have hmem : e ∈ queueRefs readLog tags :=
        List.mem_of_mem_head? (h.head_eq.symm.trans hhead)
      dsimp only
      split_ifs
      · exact ⟨readLog, tags, h⟩
      · cases hparams : (ch.commandsQueue e).info.params with
        | udma params => exact ⟨readLog, tags, h⟩
        | noneUdma protocolType count =>
          dsimp only
          unfold handlePIOInterrupt
          cases pioInterrupt cfg hw protocolType count with
          | running count' => exact ⟨readLog, tags, h.quiet (setCount_quiet hparams)⟩
          | completes count' failed =>
            exact completePIOCommand_good (h.quiet (setCount_quiet hparams)) hmem

/-! ### Queuing commands -/

/-- The new command is pending until the call returns. -/
theorem addCommand_sound {d : ℕ} (h : Sound cfg base ch readLog tags)
    (hget : getTag cfg ch info.pmPort = some (t, d, ch')) :
    Sound cfg { base with pending := base.pending ++ [info.commandId] }
      (addCommand (ch'.prepareEntry t d) (.command t) info) readLog (tags ++ [t]) := by
  obtain ⟨hnew, hadded⟩ := addCommand_accounted h.toAccounted hget
  obtain ⟨-, -, -, -, hch⟩ := getTag_some hget
  refine { hadded with readLogExt := ?_, calls := ?_, accepted := ?_, ledger := ?_ }
  · intro hr
    rw [hch]
    exact h.readLogExt hr
  · rw [hch]
    exact h.calls
  · rw [hch]
    exact h.accepted
  · have hentries : (addCommand (ch'.prepareEntry t d) (.command t) info).entriesOf (tags ++ [t]) =
        ch.entriesOf tags ++ [newEntry t d info] := by
      have hold : ∀ t' ∈ tags, (addCommand (ch'.prepareEntry t d) (.command t) info).commandsQueue
          (.command t') = ch.commandsQueue (.command t') := by
        intro t' ht'
        rw [addCommand_entry, if_neg (ne_of_mem_of_not_mem ht' hnew), hch]
      rw [← entriesOf_congr hold]
      simp [Channel.entriesOf, addCommand_entry]
    have hback : (addCommand (ch'.prepareEntry t d) (.command t) info).log = ch.log := by
      rw [hch]
      rfl
    rw [hentries, hback, List.map_append, ← List.append_assoc, ← List.append_assoc]
    exact h.ledger.append_right _

/-- A pending command is taken back. -/
theorem Sound.withdraw {c : ℕ}
    (h : Sound cfg { base with pending := base.pending ++ [c] } ch readLog (t₁ ++ t :: t₂))
    (hc : (ch.commandsQueue (.command t)).info.commandId = c) :
    Sound cfg base (removeCommand cfg ch (.command t)) readLog (t₁ ++ t₂) := by
  have hnodup := h.nodup
  rw [List.nodup_middle, List.nodup_cons] at hnodup
  have hremoved := removeCommand_accounted h.toAccounted
  refine { hremoved with
    readLogExt := h.readLogExt, calls := h.calls, accepted := h.accepted, ledger := ?_ }
  have hentries := @removeCommand_entriesOf cfg ch _ _ hnodup.1
  rw [hentries]
  have hledger := h.ledger
  simp only [Channel.entriesOf, List.map_append, List.map_cons, hc] at hledger ⊢
  rw [← List.append_assoc, ← List.append_assoc] at hledger
  have hperm := (List.perm_middle.symm.trans hledger).trans (List.perm_append_singleton c _)
  have hrest := hperm.cons_inv
  rwa [List.append_assoc] at hrest

/-- A UDMA command is queued. -/
theorem queueUdmaCommand_sound {d : ℕ} (h : Sound cfg base ch readLog tags)
    (hget : getTag cfg ch info.pmPort = some (t, d, ch')) :
    Sound cfg { base with pending := base.pending ++ [info.commandId] }
      (queueUdmaCommand cfg (ch'.prepareEntry t d) (.command t) info) readLog (tags ++ [t]) := by
  have hadded := addCommand_sound h hget
  unfold queueUdmaCommand
  dsimp only
  split_ifs with hidle hactive
  · exact hadded.quiet (edmaReqQueueInsert_quiet cfg _ _)
  · have hread : readLog = false := by
      have hstate : (addCommand (ch'.prepareEntry t d) (.command t) info).state = .idle := hidle.2
      apply hadded.readLog_eq_false
      rw [hstate]
      simp
    subst hread
    exact hadded.activateEdma.quiet (edmaReqQueueInsert_quiet cfg _ _)
  · exact hadded

/-- What a command that has been added leaves as it was. -/
theorem addCommand_prepared {d : ℕ} (h : Sound cfg base ch readLog tags)
    (hget : getTag cfg ch info.pmPort = some (t, d, ch')) :
    ((addCommand (ch'.prepareEntry t d) (.command t) info).commandsQueue
        (.command t)).info.commandId = info.commandId ∧
      (addCommand (ch'.prepareEntry t d) (.command t) info).edmaActive = ch.edmaActive ∧
      (addCommand (ch'.prepareEntry t d) (.command t) info).outstandingCommands =
        ch.outstandingCommands + 1 := by
  obtain ⟨-, -, -, -, hch⟩ := getTag_some hget
  refine ⟨?_, ?_, ?_⟩
  · rw [addCommand_entry, if_pos rfl]
    rfl
  · rw [hch]
    rfl
  · rw [(addCommand_sound h hget).outstanding, h.outstanding]
    simp [Channel.entriesOf]

/-- A PIO command is queued, or it is taken back. -/
theorem queuePioCommand_sound {d : ℕ} (h : Sound cfg base ch readLog tags)
    (hget : getTag cfg ch info.pmPort = some (t, d, ch'))
    (hstops : ch.edmaActive = true → ch.outstandingCommands = 0 → hw.stops = true) :
    ((queuePioCommand cfg hw (ch'.prepareEntry t d) (.command t) info).1 = .ok ∧
      Good cfg { base with pending := base.pending ++ [info.commandId] }
        (queuePioCommand cfg hw (ch'.prepareEntry t d) (.command t) info).2) ∨
    ((queuePioCommand cfg hw (ch'.prepareEntry t d) (.command t) info).1 ≠ .ok ∧
      Good cfg base (queuePioCommand cfg hw (ch'.prepareEntry t d) (.command t) info).2) := by
  have hadded := addCommand_sound h hget
  obtain ⟨hid, hactive, hcount⟩ := addCommand_prepared h hget
  unfold queuePioCommand
  dsimp only
  generalize addCommand (ch'.prepareEntry t d) (.command t) info =
    ch₁ at hadded hid hactive hcount ⊢
  by_cases halone : ch₁.outstandingCommands = 1
  · rw [if_pos halone]
    have hstop : Quiet ch₁ (if ch₁.edmaActive then deactivateEdma cfg hw ch₁ else ch₁) := by
      split_ifs with hedma
      · exact deactivateEdma_quiet (hstops (hactive.symm.trans hedma) (by omega)) ch₁
      · exact Quiet.refl ch₁
    generalize (if ch₁.edmaActive = true then deactivateEdma cfg hw ch₁ else ch₁) = ch₂
      at hstop ⊢
    have hsent := hstop.trans (sendNoneUdmaCommand_quiet cfg hw ch₂ (.command t))
    split_ifs
    · exact Or.inl ⟨rfl, readLog, _, hadded.quiet hsent⟩
    · right
      have hidSent := congrArg EntryAccount.commandId (account_entry hsent.account (.command t))
      refine ⟨by simp, readLog, tags ++ [], ?_⟩
      exact Sound.withdraw (hadded.quiet hsent) (hidSent.trans hid)
  · rw [if_neg halone]
    exact Or.inl ⟨rfl, readLog, _, hadded⟩

/-- A call of `mvSataQueueCommand` either accepts the command or leaves the ledger as it is. -/
theorem mvSataQueueCommand_sound (h : Good cfg base ch)
    (hstops : info.isUdma = false → ch.edmaActive = true → ch.outstandingCommands = 0 →
      hw.stops = true) :
    ((mvSataQueueCommand cfg hw ch info).1 = .ok ∧
      Good cfg { base with pending := base.pending ++ [info.commandId] }
        (mvSataQueueCommand cfg hw ch info).2) ∨
    ((mvSataQueueCommand cfg hw ch info).1 ≠ .ok ∧
      Good cfg base (mvSataQueueCommand cfg hw ch info).2) := by
  unfold mvSataQueueCommand
  split_ifs with hbad henabled
  · exact Or.inr ⟨by simp, h⟩
  · cases hget : getTag cfg ch info.pmPort with
    | none => exact Or.inr ⟨by simp, h⟩
    | some answer =>
      obtain ⟨t, d, ch'⟩ := answer
      obtain ⟨readLog, tags, h⟩ := h
      have hget' : getTag cfg ch
          ({ info with params := acceptParams cfg info.params } : CommandInfo).pmPort =
            some (t, d, ch') := hget
      dsimp only
      split_ifs with hudma
      · exact Or.inl ⟨rfl, readLog, _, queueUdmaCommand_sound h hget'⟩
      · apply queuePioCommand_sound h hget'
        apply hstops
        cases hparams : info.params with
        | udma params => simp [CommandInfo.isUdma, acceptParams, hparams] at hudma
        | noneUdma protocolType count => simp [CommandInfo.isUdma, hparams]
  · exact Or.inr ⟨by simp, h⟩

/-! ### Runs -/

/-- The EDMA stops when a PIO command is to be started behind it. The response queue names entries
of the table, and no EDMA error is reported while READ LOG EXT runs beside the EDMA. -/
def PioCanStart (cfg : ChannelConfig) (ch : Channel) (event : ChannelEvent) : Prop :=
  match event.action with
  | .queueCommand _ (.noneUdma _ _) =>
    ch.edmaActive = true → ch.outstandingCommands = 0 → event.hw.stops = true
  | .queueCommand _ (.udma _) => True
  | .response id _ =>
    id % cfg.edmaQueueLength < cfg.commandsQueueSize ∧
      (ch.pioNext cfg (.command (id % cfg.edmaQueueLength)) = true → event.hw.stops = true)
  | .edmaError _ => ch.edmaActive = true → ch.queue.head ≠ some .readLogExt
  | .deviceInterrupt => True
  | .enable => True
  | .disable => True
  | .flush => True

instance (ch : Channel) : ∀ event, Decidable (PioCanStart cfg ch event)
  | ⟨_, .queueCommand _ (.noneUdma _ _)⟩ => inferInstanceAs (Decidable (_ → _ → _))
  | ⟨_, .queueCommand _ (.udma _)⟩ => inferInstanceAs (Decidable True)
  | ⟨_, .response _ _⟩ => inferInstanceAs (Decidable (_ ∧ (_ → _)))
  | ⟨_, .edmaError _⟩ => inferInstanceAs (Decidable (_ → _))
  | ⟨_, .deviceInterrupt⟩ => inferInstanceAs (Decidable True)
  | ⟨_, .enable⟩ => inferInstanceAs (Decidable True)
  | ⟨_, .disable⟩ => inferInstanceAs (Decidable True)
  | ⟨_, .flush⟩ => inferInstanceAs (Decidable True)

/-- The ledger between two calls. -/
def Channel.ledger (ch : Channel) : Ledger := ⟨ch.log.calls, ch.log.accepted, []⟩

/-- The numbers of the calls that returned `MV_QUEUE_COMMAND_RESULT_OK`. -/
def acceptedCalls (answers : List QueueCommandResult) : List ℕ :=
  (List.range answers.length).filter fun c => answers[c]? = some .ok

theorem acceptedCalls_concat (answers : List QueueCommandResult) (answer : QueueCommandResult) :
    acceptedCalls (answers ++ [answer]) =
      acceptedCalls answers ++ if answer = .ok then [answers.length] else [] := by
  have hold : (List.range answers.length).filter
      (fun c => (answers ++ [answer])[c]? = some QueueCommandResult.ok) =
        acceptedCalls answers := by
    apply List.filter_congr
    intro c hc
    rw [List.getElem?_append_left (List.mem_range.mp hc)]
  unfold acceptedCalls at hold ⊢
  rw [List.length_append, List.length_singleton, List.range_succ, List.filter_append, hold]
  congr 1
  rw [List.filter_cons, List.getElem?_concat_length, List.filter_nil]
  simp

/-- The invariant of a run: the channel is in order, and its log records the answers given. -/
structure Recorded (cfg : ChannelConfig) (answers : List QueueCommandResult) (ch : Channel) :
    Prop where
  good : Good cfg ch.ledger ch
  calls : ch.log.calls = answers.length
  accepted : ch.log.accepted = acceptedCalls answers

/-- What is known of a channel after a call that does not queue a command. -/
theorem Recorded.of_good {answers : List QueueCommandResult} (h : Recorded cfg answers ch)
    (hgood : Good cfg ch.ledger ch') : Recorded cfg answers ch' := by
  have hledger : ch'.ledger = ch.ledger := by
    obtain ⟨readLog, tags, hsound⟩ := hgood
    unfold Channel.ledger
    rw [hsound.calls, hsound.accepted]
    rfl
  refine ⟨by rwa [hledger], ?_, ?_⟩
  · exact (congrArg Ledger.calls hledger).trans h.calls
  · exact (congrArg Ledger.accepted hledger).trans h.accepted

/-- Queuing a command. -/
theorem queueStep_recorded {answers : List QueueCommandResult} {pmPort : Fin 16}
    {params : CommandParams} (h : Recorded cfg answers ch)
    (hok : PioCanStart cfg ch ⟨hw, .queueCommand pmPort params⟩) :
    Recorded cfg (answers ++ [(queueStep cfg hw ch pmPort params).1])
      (queueStep cfg hw ch pmPort params).2 := by
  have hcounted : Good cfg ⟨ch.log.calls + 1, ch.log.accepted, []⟩
      { ch with log := { ch.log with calls := ch.log.calls + 1 } } := by
    obtain ⟨readLog, tags, hsound⟩ := h.good
    exact ⟨readLog, tags, { hsound with calls := rfl }⟩
  have hstops : CommandInfo.isUdma ⟨pmPort, ch.log.calls, params⟩ = false →
      ch.edmaActive = true → ch.outstandingCommands = 0 → hw.stops = true := by
    intro hpio
    cases params with
    | udma params => cases hpio
    | noneUdma protocolType count => exact hok
  have hqueue := @mvSataQueueCommand_sound _ _ _ ⟨pmPort, ch.log.calls, params⟩ _ hcounted hstops
  unfold queueStep
  dsimp only at hqueue ⊢
  generalize mvSataQueueCommand cfg hw { ch with log := { ch.log with calls := ch.log.calls + 1 } }
    ⟨pmPort, ch.log.calls, params⟩ = answer at hqueue ⊢
  obtain ⟨result, ch₁⟩ := answer
  obtain ⟨hresult, readLog, tags, hsound⟩ | ⟨hresult, readLog, tags, hsound⟩ := hqueue
  · dsimp only at hresult hsound ⊢
    rw [if_pos hresult]
    have hcalls : ch₁.log.calls = ch.log.calls + 1 := hsound.calls
    have haccepted : ch₁.log.accepted = ch.log.accepted := hsound.accepted
    have hledger := hsound.ledger
    refine ⟨⟨readLog, tags, { hsound with calls := rfl, accepted := rfl, ledger := ?_ }⟩, ?_, ?_⟩
    · have hsum : ch.log.accepted ++ ([] ++ [ch.log.calls]) =
          ch₁.log.accepted ++ [ch.log.calls] ++ [] := by
        rw [haccepted, List.nil_append, List.append_nil]
      exact hledger.trans (List.Perm.of_eq hsum)
    · simpa [h.calls] using hcalls
    · dsimp only
      rw [acceptedCalls_concat, if_pos hresult, haccepted, h.accepted, h.calls]
  · dsimp only at hresult hsound ⊢
    rw [if_neg hresult]
    have hcalls : ch₁.log.calls = ch.log.calls + 1 := hsound.calls
    have haccepted : ch₁.log.accepted = ch.log.accepted := hsound.accepted
    refine ⟨⟨readLog, tags, { hsound with calls := rfl, accepted := rfl, ledger := ?_ }⟩, ?_, ?_⟩
    · simpa [Channel.ledger, haccepted] using hsound.ledger
    · simpa [h.calls] using hcalls
    · rw [acceptedCalls_concat, if_neg hresult, List.append_nil, haccepted, h.accepted]

/-- One step of a channel. The driver does not follow a null pointer. -/
theorem channelStep_recorded {answers : List QueueCommandResult} {event : ChannelEvent}
    (h : Recorded cfg answers ch) (hok : PioCanStart cfg ch event) :
    ∃ answer ch', channelStep cfg ch event = some (answer, ch') ∧
      Recorded cfg (answers ++ answer.toList) ch' := by
  obtain ⟨hw, action⟩ := event
  unfold channelStep
  have hsame : ∀ {ch'}, Good cfg ch.ledger ch' →
      Recorded cfg (answers ++ (none : Option QueueCommandResult).toList) ch' := by
    intro ch' hgood
    simpa using h.of_good hgood
  cases action with
  | queueCommand pmPort params => exact ⟨_, _, rfl, queueStep_recorded h hok⟩
  | response id flags =>
    obtain ⟨ch', hstep, hgood⟩ := @responseStep_good _ _ _ _ _ flags h.good hok.1 hok.2
    dsimp only
    rw [hstep]
    exact ⟨none, ch', rfl, hsame hgood⟩
  | edmaError cause => exact ⟨none, _, rfl, hsame (handleEdmaError_good h.good hok cause)⟩
  | deviceInterrupt => exact ⟨none, _, rfl, hsame (handleDeviceInterrupt_good h.good)⟩
  | enable =>
    refine ⟨none, _, rfl, hsame ?_⟩
    unfold mvSataEnableChannelDma
    split_ifs
    · exact h.good
    · exact h.good.quiet ⟨rfl, id⟩
  | disable =>
    refine ⟨none, _, rfl, hsame ?_⟩
    exact deactivateEdma_good (h.good.quiet ⟨rfl, id⟩)
  | flush =>
    refine ⟨none, _, rfl, hsame ?_⟩
    unfold mvSataFlushDmaQueue
    split_ifs
    · exact h.good
    · exact ⟨false, [], h.good.flushReset⟩

/-- The answers that the calls of a trace got. -/
def traceAnswers (trace : List (ChannelEvent × Option QueueCommandResult)) :
    List QueueCommandResult :=
  trace.filterMap Prod.snd

theorem configuredChannel_recorded (cfg : ChannelConfig) :
    Recorded cfg [] (configuredChannel cfg) := by
  refine ⟨⟨false, [], { resetEdmaChannel_accounted cfg _ with
    readLogExt := ?_, calls := rfl, accepted := rfl, ledger := List.Perm.refl _ }⟩, rfl, rfl⟩
  intro hr
  cases hr

/-- The invariant holds along every run. -/
theorem run_recorded {trace : List (ChannelEvent × Option QueueCommandResult)}
    (hrun : Run (channelStep cfg) (PioCanStart cfg) (configuredChannel cfg) trace ch) :
    Recorded cfg (traceAnswers trace) ch := by
  refine Run.invariant (I := fun trace ch => Recorded cfg (traceAnswers trace) ch)
    (configuredChannel_recorded cfg) ?_ hrun
  intro trace ch event answer ch' h hok hstep
  obtain ⟨answer', ch₁, hstep', h'⟩ := channelStep_recorded h hok
  rw [hstep'] at hstep
  simp only [Option.some.injEq, Prod.mk.injEq] at hstep
  obtain ⟨rfl, rfl⟩ := hstep
  have hanswers : traceAnswers (trace ++ [(event, answer')]) =
      traceAnswers trace ++ answer'.toList := by
    unfold traceAnswers
    rw [List.filterMap_append]
    cases answer' with
    | none => rfl
    | some answer => rfl
  rw [hanswers]
  exact h'

/-- The list, the counters and the tags agree with the entries in use. -/
structure AccountsAgree (cfg : ChannelConfig) (ch : Channel) : Prop where
  /-- The list holds the entries in use, each once, and READ LOG EXT may stand in front. -/
  list : ∃ readLog tags, tags.Perm (usedTags cfg ch) ∧
    DoublyLinked.Queued ch.queue.next ch.queue.prev ch.queue.head ch.queue.tail
      (queueRefs readLog tags)
  outstanding : ch.outstandingCommands = (usedTags cfg ch).length
  noneUdma : ch.noneUdmaOutstandingCommands =
    (ch.entriesOf (usedTags cfg ch)).countP (·.isPio)
  ports : ∀ p, ch.portQueuedCommands p = (ch.entriesOf (usedTags cfg ch)).countP (·.onPort p)
  /-- Tags in use differ from each other and from the free ones. -/
  hostTags : ((ch.entriesOf (usedTags cfg ch)).map (·.hostTag) ++ ch.hostTagsPool.free).Nodup
  deviceTags : ∀ pool, (((ch.entriesOf (usedTags cfg ch)).filter (·.fromPool cfg pool)).map
    (·.deviceTag) ++ (ch.deviceTagsPool pool).free).Nodup
  /-- The stacks do not overflow, and an underflow would leave 255. -/
  hostStack : ch.hostTagsPool.top ≤ cfg.hostTagsNum
  deviceStacks : ∀ pool, (ch.deviceTagsPool pool).top ≤ tagsPerPool

theorem Accounted.accountsAgree (h : Accounted cfg ch readLog tags) : AccountsAgree cfg ch := by
  have hperm := h.perm_usedTags
  have hentries : (ch.entriesOf tags).Perm (ch.entriesOf (usedTags cfg ch)) := hperm.map _
  constructor
  case list => exact ⟨readLog, tags, hperm, h.links⟩
  case outstanding =>
    rw [h.outstanding, hentries.length_eq, Channel.entriesOf, List.length_map]
  case noneUdma => rw [h.noneUdma, hentries.countP_eq]
  case ports =>
    intro p
    rw [h.ports p, hentries.countP_eq]
  case hostTags =>
    have htags : (ch.entriesOf tags).map (·.hostTag) = tags := by
      unfold Channel.entriesOf
      rw [List.map_map]
      exact (List.map_congr_left h.hostTag).trans (List.map_id _)
    have hall : (tags ++ ch.hostTagsPool.free).Nodup :=
      h.hostTags.nodup_iff.mpr List.nodup_range
    rw [← htags] at hall
    exact ((hentries.map (·.hostTag)).append_right _).nodup_iff.mp hall
  case deviceTags =>
    intro pool
    have hall := (h.deviceTags pool).nodup_iff.mpr List.nodup_range
    exact (((hentries.filter _).map (·.deviceTag)).append_right _).nodup_iff.mp hall
  case hostStack =>
    have hsum := h.length_add_top
    omega
  case deviceStacks => exact h.poolTop_le

/-- The accounts of a channel agree along every run in which the EDMA stops for PIO commands. -/
theorem run_accountsAgree {trace : List (ChannelEvent × Option QueueCommandResult)}
    (hrun : Run (channelStep cfg) (PioCanStart cfg) (configuredChannel cfg) trace ch) :
    AccountsAgree cfg ch := by
  obtain ⟨readLog, tags, h⟩ := (run_recorded hrun).good
  exact h.accountsAgree

/-- A Gen I adapter without queuing. -/
def smallConfig : ChannelConfig where
  generation := .genI
  queuedDma := .notQueued
  fbsEnabled := false
  use128Entries := false
  drqDataBlockSize := 1
  entries := fun huse => by cases huse

/-- A drive that answers all PIO commands in one way. -/
def drive (stops : Bool) (sends : SendResult) : Hardware where
  stops := stops
  sends := fun _ => sends
  softReset := fun _ => true
  connected := true
  ataBusy := false
  ataStatus := 0x50
  ataStatusAfter := 0x50
  eDmaErrorCause := 0
  eCacheEmpty := true
  edmaIdle := true
  edmaState70 := false
  edmaStatusTag := 0
  sectorCountTag := 0
  ifStatusPort := 0
  testCtrlPorts := 0
  tcqOutstanding := fun _ => false
  rspInPtr := 0
  readLogExt := ⟨true, false, 0⟩

/-- A read of one sector. -/
def readSector : CommandParams :=
  .udma ⟨.read, false, false, 0, 0, 1, 0, 0, false, 0⟩

/-- A read and a PIO command behind it, which is started when the read has completed. -/
def smallEvents : List ChannelEvent :=
  [⟨drive true .done, .enable⟩,
    ⟨drive true .done, .queueCommand 0 readSector⟩,
    ⟨drive true .done, .queueCommand 0 (.noneUdma .nonData 0)⟩,
    ⟨drive true .done, .response 0 0⟩]

theorem smallEvents_accountsAgree :
    ∃ trace ch, exec (channelStep smallConfig) (PioCanStart smallConfig)
      (configuredChannel smallConfig) smallEvents = some (trace, ch) ∧
        ch.outstandingCommands = 1 ∧ AccountsAgree smallConfig ch := by
  have hcount : (exec (channelStep smallConfig) (PioCanStart smallConfig)
      (configuredChannel smallConfig) smallEvents).map (fun r => r.2.outstandingCommands) =
        some 1 := by
    decide
  rw [Option.map_eq_some_iff] at hcount
  obtain ⟨⟨trace, ch⟩, hexec, hcount⟩ := hcount
  exact ⟨trace, ch, hexec, hcount, run_accountsAgree (Run.of_exec _ hexec)⟩

/-- A PIO command is queued on an idle channel, the EDMA does not stop and the drive is not ready.
-/
def stuckEvents : List ChannelEvent :=
  [⟨drive true .done, .enable⟩,
    ⟨drive false .notReady, .queueCommand 0 (.noneUdma .nonData 0)⟩]

/-- The command that has been flushed is removed once more. -/
theorem stuckEvents_accounts :
    ¬ ∀ (cfg : ChannelConfig) (trace : List (ChannelEvent × Option QueueCommandResult))
      (ch : Channel), Run (channelStep cfg) (fun _ _ => True) (configuredChannel cfg) trace ch →
        AccountsAgree cfg ch := by
  intro hall
  have hend : (exec (channelStep smallConfig) (fun _ _ => True) (configuredChannel smallConfig)
      stuckEvents).map (fun r => (r.2.outstandingCommands, usedTags smallConfig r.2)) =
        some (255, []) := by
    decide
  rw [Option.map_eq_some_iff] at hend
  obtain ⟨⟨trace, ch⟩, hexec, hend⟩ := hend
  simp only [Prod.mk.injEq] at hend
  have hagree := (hall smallConfig trace ch (Run.of_exec _ hexec)).outstanding
  rw [hend.1, hend.2] at hagree
  cases hagree

/-- Every accepted command is called back once, or it is still in the queue. -/
structure CalledBackOnce (cfg : ChannelConfig) (answers : List QueueCommandResult) (ch : Channel) :
    Prop where
  accepted : (ch.log.callBacks.map Prod.fst ++
    (ch.entriesOf (usedTags cfg ch)).map (·.info.commandId)).Perm (acceptedCalls answers)
  distinct : (ch.log.callBacks.map Prod.fst ++
    (ch.entriesOf (usedTags cfg ch)).map (·.info.commandId)).Nodup
  rejected : ∀ c answer, answers[c]? = some answer → answer ≠ .ok →
    c ∉ ch.log.callBacks.map Prod.fst
  flushed : ((resetEdmaChannel cfg (flushDmaQueue cfg ch)).log.callBacks.map Prod.fst).Perm
    (acceptedCalls answers)

/-- Every accepted command is called back once along every run in which the EDMA stops for PIO
commands. -/
theorem run_calledBackOnce {trace : List (ChannelEvent × Option QueueCommandResult)}
    (hrun : Run (channelStep cfg) (PioCanStart cfg) (configuredChannel cfg) trace ch) :
    CalledBackOnce cfg (traceAnswers trace) ch := by
  have hrecorded := run_recorded hrun
  have hflush := hrecorded.good.flushReset.ledger
  obtain ⟨readLog, tags, h⟩ := hrecorded.good
  have haccepted : (ch.log.callBacks.map Prod.fst ++
      (ch.entriesOf (usedTags cfg ch)).map (·.info.commandId)).Perm
        (acceptedCalls (traceAnswers trace)) := by
    have hledger := h.ledger
    have hentries : (ch.entriesOf tags).Perm (ch.entriesOf (usedTags cfg ch)) :=
      h.perm_usedTags.map _
    rw [← hrecorded.accepted]
    refine ((hentries.map (·.info.commandId)).append_left _).symm.trans ?_
    simpa [Channel.ledger] using hledger
  refine ⟨haccepted, haccepted.nodup_iff.mpr (List.nodup_range.filter _), ?_, ?_⟩
  · intro c answer hanswer hnot hmem
    have hc := haccepted.subset (List.mem_append_left _ hmem)
    rw [acceptedCalls, List.mem_filter, decide_eq_true_iff, hanswer] at hc
    exact hnot (Option.some.inj hc.2)
  · have hnone : (resetEdmaChannel cfg (flushDmaQueue cfg ch)).entriesOf [] = [] := rfl
    rw [hnone] at hflush
    simpa [Channel.ledger, hrecorded.accepted] using hflush

theorem smallEvents_calledBackOnce :
    ∃ trace ch, exec (channelStep smallConfig) (PioCanStart smallConfig)
      (configuredChannel smallConfig) smallEvents = some (trace, ch) ∧
        ch.log.callBacks = [(0, .normal)] ∧
        CalledBackOnce smallConfig (traceAnswers trace) ch := by
  have hback : (exec (channelStep smallConfig) (PioCanStart smallConfig)
      (configuredChannel smallConfig) smallEvents).map (fun r => r.2.log.callBacks) =
        some [(0, .normal)] := by
    decide
  rw [Option.map_eq_some_iff] at hback
  obtain ⟨⟨trace, ch⟩, hexec, hback⟩ := hback
  exact ⟨trace, ch, hexec, hback, run_calledBackOnce (Run.of_exec _ hexec)⟩

/-- The command is refused, and its callback has been called. -/
theorem stuckEvents_callBacks :
    ¬ ∀ (cfg : ChannelConfig) (trace : List (ChannelEvent × Option QueueCommandResult))
      (ch : Channel), Run (channelStep cfg) (fun _ _ => True) (configuredChannel cfg) trace ch →
        CalledBackOnce cfg (traceAnswers trace) ch := by
  intro hall
  have hend : (exec (channelStep smallConfig) (fun _ _ => True) (configuredChannel smallConfig)
      stuckEvents).map (fun r => (traceAnswers r.1, r.2.log.callBacks)) =
        some ([.queuedModeDisabled], [(0, .abort)]) := by
    decide
  rw [Option.map_eq_some_iff] at hend
  obtain ⟨⟨trace, ch⟩, hexec, hend⟩ := hend
  simp only [Prod.mk.injEq] at hend
  have hrejected := (hall smallConfig trace ch (Run.of_exec _ hexec)).rejected 0
    .queuedModeDisabled (by rw [hend.1]; rfl) (by simp)
  rw [hend.2] at hrejected
  exact hrejected (by simp)

end Mv88fxx81.Sata.Core
