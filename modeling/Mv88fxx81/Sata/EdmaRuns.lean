import Mv88fxx81.Sata.EdmaRecovery

/-!
# The order of the commands over the runs of a channel

Every interrupt, every response and every call of the layer above keeps the order of the commands,
as long as the EDMA answers the commands it has been given. The request ring has room for all
commands that have been put in it and not been answered.
-/

namespace Mv88fxx81.Sata.Core

open TransitionSystem

variable {cfg : ChannelConfig} {hw : Hardware} {ch ch' ch₁ : Channel} {e : EntryRef}
  {tags t₁ t₂ : List ℕ} {readLog : Bool} {t : ℕ} {info : CommandInfo} {base base' : Ledger}
  {strict strict' : Prop} {cause : BitVec 32} {flags : BitVec 16}

/-! ### Errors of the EDMA -/

/-- A change that neither the accounts nor the order see. -/
theorem InOrder.quiet (h : InOrder cfg base strict ch) (hq : Quiet ch ch')
    (hp : ∀ tags, Passes ch ch' tags tags) : InOrder cfg base strict ch' := by
  obtain ⟨readLog, tags, h, ho⟩ := h
  exact ⟨readLog, tags, h.quiet hq, ho.passes (hp tags)⟩

/-- The order of fewer runs. -/
theorem InOrder.mono (h : InOrder cfg base strict ch) (himp : strict' → strict) :
    InOrder cfg base strict' ch := by
  obtain ⟨readLog, tags, h, ho⟩ := h
  exact ⟨readLog, tags, h, { ho with
    prefixed := fun hstrict => ho.prefixed (himp hstrict)
    complete := fun hstrict => ho.complete (himp hstrict) }⟩

theorem doDevErrorRecovery_inOrder (hdriven : Driven cfg hw base strict)
    (h : InOrder cfg base strict ch) :
    InOrder cfg base strict (doDevErrorRecovery cfg hw ch) := by
  obtain ⟨readLog, tags, h, ho⟩ := h
  exact doDevErrorRecoveryWith_inOrder hdriven.recovers (insertQCommandsIntoEdma_inOrder hdriven) h
    ho.toFronted h.length_lt none

theorem handleEdmaFailedCommand_inOrder (h : Sound cfg base ch false tags)
    (ho : Ordered cfg base strict ch tags) :
    InOrder cfg base strict (handleEdmaFailedCommand cfg hw ch) := by
  obtain ⟨tags₁, hfails⟩ := @handleEdmaFailedCommand_failsOne _ hw _ _ _ _ h ho.toFronted
  exact ⟨false, tags₁, hfails.sound, hfails.ordered ho⟩

theorem handleSelfDisable_inOrder (hdriven : Driven cfg hw base strict)
    (h : InOrder cfg base strict ch)
    (hactive : ch.edmaActive = true → ch.queue.head ≠ some .readLogExt) (cause : BitVec 32) :
    InOrder cfg base strict (handleSelfDisable cfg hw ch cause).2 := by
  have hhalt : ∀ {ch : Channel}, InOrder cfg base strict ch →
      InOrder cfg base strict { ch with edmaHalted := false } := fun h =>
    h.quiet ⟨rfl, id⟩ fun tags => Passes.of_order tags rfl
  unfold handleSelfDisable
  dsimp only
  generalize (if cfg.generation = Generation.genI then 8 else 7) = bit
  split_ifs with hcause hedma hfailed
  · obtain ⟨readLog, tags, h, ho⟩ := h
    obtain rfl := h.readLog_eq_false_of_head (hactive hedma)
    have hstop : Passes ch { ch with queueCommandsEnabled := false, edmaActive := false } tags
        tags := Passes.of_order tags rfl
    exact doDevErrorRecovery_inOrder hdriven
      (hhalt (handleEdmaFailedCommand_inOrder (h.quiet ⟨rfl, id⟩) (ho.passes hstop)))
  · exact doDevErrorRecovery_inOrder hdriven
      (h.quiet ⟨rfl, id⟩ fun tags => Passes.of_order tags rfl)
  · exact doDevErrorRecovery_inOrder hdriven (hhalt h)
  · exact h

theorem handleDevErr_inOrder (hdriven : Driven cfg hw base strict) (h : InOrder cfg base strict ch)
    (hactive : ch.edmaActive = true → ch.queue.head ≠ some .readLogExt) (cause : BitVec 32) :
    InOrder cfg base strict (handleDevErr cfg hw ch cause).2 := by
  unfold handleDevErr
  split_ifs with hcause hedma hncq hfbs
  · obtain ⟨readLog, tags, h, ho⟩ := h
    obtain rfl := h.readLog_eq_false_of_head (hactive hedma)
    obtain ⟨hfirst, hstate⟩ := firstError_passes ch tags
    exact handleAborted_inOrder hdriven (h.quiet (firstError_quiet ch))
      (ho.toFronted.passes hfirst) hstate
  · obtain ⟨readLog, tags, h, ho⟩ := h
    obtain rfl := h.readLog_eq_false_of_head (hactive hedma)
    obtain ⟨hfirst, hstate⟩ := firstError_passes ch tags
    have hfronted := ho.toFronted.passes hfirst
    obtain ⟨tags₁, hfails⟩ := @handleEdmaFailedCommand_failsOne _ hw _ _ _ _
      (h.quiet (firstError_quiet ch)) hfronted
    exact handleAborted_inOrder hdriven hfails.sound (hfronted.passes hfails.passes)
      (by rwa [hfails.state])
  · exact h
  · exact h
  · exact h

theorem abortChannel_inOrder (h : InOrder cfg base strict ch) :
    InOrder cfg base strict (abortChannel cfg hw ch) := by
  obtain ⟨readLog, tags, h, ho⟩ := h
  have hstop : Passes ch { ch with queueCommandsEnabled := false, edmaActive := false } tags
      tags := Passes.of_order tags rfl
  have hsound : Sound cfg base { ch with queueCommandsEnabled := false, edmaActive := false }
      readLog tags := h.quiet ⟨rfl, id⟩
  obtain ⟨readLog₁, tags₁, -, h₁, ho₁⟩ :=
    @deactivateEdma_inOrder _ hw _ _ _ _ _ hsound (ho.passes hstop)
  exact ⟨false, [], h₁.flushReset, flushReset_ordered ho₁.toFronted⟩

theorem handleRecoverableError_inOrder (h : InOrder cfg base strict ch) (cause : BitVec 32) :
    InOrder cfg base strict (handleRecoverableError cfg hw ch cause).2 := by
  have hcount : InOrder cfg base strict
      { ch with recoveredErrorsCounter := incr8 ch.recoveredErrorsCounter } :=
    h.quiet ⟨rfl, id⟩ fun tags => Passes.of_order tags rfl
  unfold handleRecoverableError
  dsimp only
  split_ifs
  · exact abortChannel_inOrder hcount
  · exact hcount
  · exact h

theorem handleUnrecoverableError_inOrder (h : InOrder cfg base strict ch) (cause : BitVec 32) :
    InOrder cfg base strict (handleUnrecoverableError cfg hw ch cause).2 := by
  unfold handleUnrecoverableError
  split_ifs
  · exact abortChannel_inOrder h
  · exact h

theorem handleEdmaError_inOrder (hdriven : Driven cfg hw base strict)
    (h : InOrder cfg base strict ch)
    (hactive : ch.edmaActive = true → ch.queue.head ≠ some .readLogExt) (cause : BitVec 32) :
    InOrder cfg base strict (handleEdmaError cfg hw ch cause) :=
  handleEdmaError_preserves h (h.quiet ⟨rfl, id⟩ fun tags => Passes.of_order tags rfl) hactive
    (fun h => handleUnrecoverableError_inOrder h cause)
    (fun h hactive => handleSelfDisable_inOrder hdriven h hactive cause)
    (fun h hactive => handleDevErr_inOrder hdriven h hactive cause)
    (fun h => handleRecoverableError_inOrder h cause)

/-! ### Responses -/

/-- A PIO command that waits is started, if the EDMA stops. -/
theorem startNextCommand_inOrder (hdriven : Driven cfg hw base strict)
    (h : Sound cfg base ch readLog tags)
    (ho : Ordered cfg base strict ch tags)
    (hstops : (queueRefs readLog tags).head?.any (fun e => (ch.commandsQueue e).isPio) = true →
      hw.stops = true) :
    ∀ ch' ∈ startNextCommand cfg hw ch, InOrder cfg base strict ch' := by
  unfold startNextCommand
  intro ch' hch'
  cases hhead : ch.queue.head with
  | none =>
    rw [hhead] at hch'
    obtain rfl := Option.some.inj hch'
    exact ⟨readLog, tags, h, ho⟩
  | some e =>
    rw [hhead] at hch'
    have hfirst : (queueRefs readLog tags).head? = some e := h.head_eq.symm.trans hhead
    rw [hfirst] at hstops
    dsimp only at hch'
    by_cases hudma : (ch.commandsQueue e).info.isUdma = true
    · rw [if_pos hudma] at hch'
      obtain rfl := Option.some.inj hch'
      exact ⟨readLog, tags, h, ho⟩
    · rw [if_neg hudma] at hch'
      have hstopped := hstops (by simp [QueuedCommandEntry.isPio, hudma])
      have hquiet := @deactivateEdma_quiet cfg _ hstopped ch
      have hpasses : Passes ch (deactivateEdma cfg hw ch) tags tags := by
        simp only [deactivateEdma, hstopped, if_true]
        exact Passes.of_order tags rfl
      have hsound := h.quiet hquiet
      have hfronted := ho.toFronted.passes hpasses
      have hhead₁ : (deactivateEdma cfg hw ch).queue.head = some e := hsound.head_eq.trans hfirst
      have hpio : ((deactivateEdma cfg hw ch).commandsQueue e).info.isUdma = false :=
        (congrArg EntryAccount.isUdma (account_entry hquiet.account e)).trans
          (Bool.eq_false_iff.mpr hudma)
      obtain ⟨hsent, hsound₂, hhead₂, hpio₂⟩ := sendHead_passes hw hsound hfronted hhead₁ hpio
      simp only [hhead₁, hhead₂] at hch'
      obtain rfl := Option.some.inj hch'
      split_ifs
      · exact ⟨readLog, tags, hsound₂, (hfronted.passes hsent).ordered_of_head hsound₂ hhead₂ hpio₂⟩
      · exact completePIOCommand_inOrder hdriven hsound₂ (hfronted.passes hsent) hhead₂ hpio₂
          true

/-- The command of a response is completed. It is in the EDMA. -/
theorem completeResponse_inOrder (hdriven : Driven cfg hw base strict)
    (h : Sound cfg base ch readLog tags)
    (ho : Ordered cfg base strict ch tags) (ht : t < cfg.commandsQueueSize)
    (hin : t ∈ tags → ch.inEdma t = true)
    (hstops : ch.pioNext cfg (.command t) = true → hw.stops = true) {compType : CompletionType} :
    ∀ ch' ∈ completeResponse cfg hw ch (.command t) compType, InOrder cfg base strict ch' := by
  unfold completeResponse
  dsimp only
  intro ch' hch'
  by_cases hfree : (ch.commandsQueue (.command t)).isFreeEntry = true
  · rw [if_pos hfree] at hch'
    obtain rfl := Option.some.inj hch'
    exact ⟨readLog, tags, h, ho⟩
  · rw [if_neg hfree] at hch'
    have hmem : t ∈ tags := (h.inUse t).mpr ⟨ht, Bool.eq_false_iff.mpr hfree⟩
    have hudma := ho.udma t hmem (hin hmem)
    obtain ⟨t₁, t₂, rfl⟩ := List.append_of_mem hmem
    have hcount : Passes ch ({ ch with edmaQueuedCommands := decr8 ch.edmaQueuedCommands }.callBack
        (ch.commandsQueue (.command t)).info.commandId compType) (t₁ ++ t :: t₂) (t₁ ++ t :: t₂) :=
      Passes.of_order _ rfl
    have hordered := ho.remove hudma (hcount.trans (@removeCommand_passes cfg _ _ _ _ h.nodup))
    have hremoved : Sound cfg base (removeCommand cfg
        ({ ch with edmaQueuedCommands := decr8 ch.edmaQueuedCommands }.callBack
          (ch.commandsQueue (.command t)).info.commandId compType) (.command t)) readLog
        (t₁ ++ t₂) :=
      (h.complete compType).quiet ⟨rfl, id⟩
    split_ifs at hch' with henabled hwait
    · obtain rfl := Option.some.inj hch'
      obtain rfl := hremoved.readLog_eq_false (by rw [hwait.1]; simp)
      exact enterRequestSenseState_inOrder hdriven hremoved hordered
    · exact startNextCommand_inOrder hdriven hremoved hordered
        (fun hpio => hstops (pioNext_of_removed h hpio)) ch' hch'
    · obtain rfl := Option.some.inj hch'
      exact ⟨readLog, _, hremoved, hordered⟩

/-- The flags of a response change nothing in the order. -/
theorem checkResponseFlags_passes (cfg : ChannelConfig) (hw : Hardware) (ch : Channel)
    (flags : BitVec 16) (tags : List ℕ) :
    ∃ ch', Quiet ch ch' ∧ Passes ch ch' tags tags ∧
      (checkResponseFlags cfg hw ch flags = .ignored ch' ∨
        ∃ compType, checkResponseFlags cfg hw ch flags = .completes ch' compType) := by
  obtain ⟨n, hrecovered⟩ : ∃ n, (if ignoresSError cfg flags then
      (handleRecoverableError cfg hw { ch with recoveredErrorsCounter := 0 } 0x20).2
      else ch) = { ch with recoveredErrorsCounter := n } := by
    unfold handleRecoverableError
    dsimp only
    split_ifs with hserror hcause hcount
    · exact absurd hcount (by decide)
    · exact ⟨_, rfl⟩
    · exact ⟨_, rfl⟩
    · exact ⟨_, rfl⟩
  have hquiet : Quiet ch { ch with recoveredErrorsCounter := n } := ⟨rfl, id⟩
  have hpasses : Passes ch { ch with recoveredErrorsCounter := n } tags tags :=
    Passes.of_order tags rfl
  have hhalt : ∀ ch₁ : Channel, Quiet ch₁ (haltEdma ch₁) ∧ Passes ch₁ (haltEdma ch₁) tags tags :=
    fun _ => ⟨⟨rfl, id⟩, Passes.of_order tags rfl⟩
  unfold checkResponseFlags
  dsimp only
  rw [hrecovered]
  generalize { ch with recoveredErrorsCounter := n } = ch₁ at hquiet hpasses ⊢
  have hquiet₂ := hquiet.trans (hhalt ch₁).1
  have hpasses₂ := hpasses.trans (hhalt ch₁).2
  split_ifs
  · exact ⟨ch, Quiet.refl ch, Passes.of_order tags rfl, Or.inr ⟨_, rfl⟩⟩
  · exact ⟨ch₁, hquiet, hpasses, Or.inr ⟨_, rfl⟩⟩
  · exact ⟨ch₁, hquiet, hpasses, Or.inr ⟨_, rfl⟩⟩
  · exact ⟨haltEdma ch₁, hquiet₂, hpasses₂, Or.inl rfl⟩
  · exact ⟨haltEdma ch₁, hquiet₂, hpasses₂, Or.inr ⟨_, rfl⟩⟩

theorem checkDeviceError_passes (hcheck : checkDeviceError cfg hw ch flags = some ch')
    (tags : List ℕ) : Passes ch ch' tags tags := by
  unfold checkDeviceError at hcheck
  split_ifs at hcheck
  · obtain rfl := Option.some.inj hcheck
    exact (firstError_passes ch tags).1.trans (setAbortedCommands_passes cfg hw _ tags)
  · obtain rfl := Option.some.inj hcheck
    exact Passes.of_order tags rfl

/-- A response keeps the order. -/
theorem responseStep_inOrder {tag : ℕ} (hdriven : Driven cfg hw base strict)
    (h : InOrder cfg base strict ch)
    (htag : tag % cfg.edmaQueueLength < cfg.commandsQueueSize)
    (hin : (ch.commandsQueue (.command (tag % cfg.edmaQueueLength))).isFreeEntry = false →
      ch.inEdma (tag % cfg.edmaQueueLength) = true)
    (hstops : ch.pioNext cfg (.command (tag % cfg.edmaQueueLength)) = true → hw.stops = true) :
    ∀ ch' ∈ responseStep cfg hw ch tag flags, InOrder cfg base strict ch' := by
  obtain ⟨readLog, tags, h, ho⟩ := h
  have hout : Quiet ch { ch with rspOutPtr := (ch.rspOutPtr + 1) % cfg.edmaQueueLength } :=
    ⟨rfl, id⟩
  have houtPasses : Passes ch { ch with rspOutPtr := (ch.rspOutPtr + 1) % cfg.edmaQueueLength }
      tags tags := Passes.of_order tags rfl
  unfold responseStep handleEdmaResponse
  generalize { ch with rspOutPtr := (ch.rspOutPtr + 1) % cfg.edmaQueueLength } = ch₁
    at hout houtPasses ⊢
  generalize tag % cfg.edmaQueueLength = t at htag hin hstops ⊢
  intro ch' hch'
  obtain ⟨ch₂, hflags, hflagsPasses, hignored | ⟨compType, hcompletes⟩⟩ :=
    checkResponseFlags_passes cfg hw ch₁ flags tags
  · rw [hignored] at hch'
    obtain rfl := Option.some.inj hch'
    exact ⟨readLog, tags, h.quiet (hout.trans hflags), ho.passes (houtPasses.trans hflagsPasses)⟩
  · rw [hcompletes] at hch'
    dsimp only at hch'
    cases hdevice : checkDeviceError cfg hw ch₂ flags with
    | none =>
      rw [hdevice] at hch'
      obtain rfl := Option.some.inj hch'
      exact ⟨readLog, tags, h.quiet (hout.trans hflags), ho.passes (houtPasses.trans hflagsPasses)⟩
    | some ch₃ =>
      rw [hdevice] at hch'
      have hquiet := (hout.trans hflags).trans (checkDeviceError_quiet hdevice)
      have hpasses := (houtPasses.trans hflagsPasses).trans (checkDeviceError_passes hdevice tags)
      refine completeResponse_inOrder hdriven (h.quiet hquiet) (ho.passes hpasses) htag ?_ ?_
        ch' hch'
      · intro hmem
        rw [hpasses.inEdma t hmem]
        exact hin ((h.inUse t).mp hmem).2
      · rw [pioNext_congr hquiet.account]
        exact hstops

/-! ### Interrupts of the drive -/

theorem handleDeviceInterrupt_inOrder (hdriven : Driven cfg hw base strict)
    (h : InOrder cfg base strict ch) :
    InOrder cfg base strict (handleDeviceInterrupt cfg hw ch) := by
  obtain ⟨readLog, tags, h, ho⟩ := h
  unfold handleDeviceInterrupt
  by_cases hwait : ch.state = .waitForBusy
  · rw [if_pos hwait]
    obtain rfl := h.readLog_eq_false (by rw [hwait]; simp)
    have hpasses : Passes ch { ch with state := .requestSense, currPort := 0 } tags tags :=
      Passes.of_state tags rfl rfl rfl rfl (by simp)
    exact handlePortError_inOrder (insertQCommandsIntoEdma_inOrder hdriven)
      (h.congr rfl fun hr => by cases hr) (ho.toFronted.passes hpasses) rfl h.length_lt
  · rw [if_neg hwait]
    cases hhead : ch.queue.head with
    | none => exact ⟨readLog, tags, h, ho⟩
    | some e =>
      dsimp only
      split_ifs
      · exact ⟨readLog, tags, h, ho⟩
      · cases hparams : (ch.commandsQueue e).info.params with
        | udma params => exact ⟨readLog, tags, h, ho⟩
        | noneUdma protocolType count =>
          have hpio : (ch.commandsQueue e).info.isUdma = false := by
            rw [CommandInfo.isUdma, hparams]
          have hcount : ∀ count', Passes ch (ch.setCount e protocolType count') tags tags :=
            fun count' => Passes.of_update tags rfl hpio.symm rfl
          dsimp only
          unfold handlePIOInterrupt
          cases pioInterrupt cfg hw protocolType count with
          | running count' =>
            exact ⟨readLog, tags, h.quiet (setCount_quiet hparams), ho.passes (hcount count')⟩
          | completes count' failed =>
            have hquiet := @setCount_quiet ch e _ _ count' hparams
            refine completePIOCommand_inOrder hdriven (h.quiet hquiet)
              (ho.toFronted.passes (hcount count')) hhead ?_ failed
            exact (congrArg EntryAccount.isUdma (account_entry hquiet.account e)).trans hpio

/-! ### Queuing commands -/

theorem takeWhile_concat {p : ℕ → Bool} {l : List ℕ}
    (hstop : (∃ a ∈ l, p a = false) ∨ p t = false) :
    (l ++ [t]).takeWhile p = l.takeWhile p := by
  induction l with
  | nil =>
    obtain ⟨a, ha, -⟩ | hstop := hstop
    · cases ha
    · rw [List.nil_append, List.takeWhile_cons_of_neg (by rw [hstop]; simp), List.takeWhile_nil]
  | cons b l ih =>
    rw [List.cons_append]
    by_cases hb : p b = true
    · rw [List.takeWhile_cons_of_pos hb, List.takeWhile_cons_of_pos hb, ih]
      refine hstop.imp_left ?_
      rintro ⟨a, ha, hpa⟩
      rcases List.mem_cons.mp ha with rfl | ha
      · rw [hb] at hpa
        cases hpa
      · exact ⟨a, ha, hpa⟩
    · rw [List.takeWhile_cons_of_neg hb, List.takeWhile_cons_of_neg hb]

/-- The layer above knows more commands. -/
theorem Ordered.rebase (h : Ordered cfg base strict ch tags)
    (hknown : ∀ c ∈ ch.requested, c ∈ base'.accepted ++ base'.pending) :
    Ordered cfg base' strict ch tags :=
  { h with known := hknown }

/-- A command that is not in the EDMA comes last. -/
theorem Fronted.concat (h : Fronted cfg base strict ch tags) (hin : ch.inEdma t = false)
    (hnew : ch.callOf t ∉ ch.requested) : Fronted cfg base strict ch (tags ++ [t]) := by
  have hlast : ∀ b ∈ [t], ¬ ch.inEdma b = true := by
    intro b hb hold
    rw [List.mem_singleton.mp hb, hin] at hold
    cases hold
  refine { h with marked := ?_, udma := ?_, front := ?_, prefixed := ?_ }
  · intro x hx hmem
    rcases List.mem_append.mp hx with hx | hx
    · exact h.marked x hx hmem
    · rw [List.mem_singleton.mp hx] at hmem
      exact absurd hmem hnew
  · intro x hx hold
    rcases List.mem_append.mp hx with hx | hx
    · exact h.udma x hx hold
    · exact absurd hold (hlast x hx)
  · rw [List.pairwise_append]
    exact ⟨h.front, List.pairwise_singleton _ _, fun a _ b hb hold => absurd hold (hlast b hb)⟩
  · intro hstrict
    rw [List.pairwise_append]
    exact ⟨h.prefixed hstrict, List.pairwise_singleton _ _,
      fun a _ b hb hold => absurd hold (hlast b hb)⟩

/-- What adding a command does to the order. -/
structure Added (cfg : ChannelConfig) (base : Ledger) (strict : Prop) (ch ch₁ : Channel)
    (tags : List ℕ) (t : ℕ) (info : CommandInfo) : Prop where
  passes : Passes ch ch₁ tags tags
  fronted : Fronted cfg { base with pending := base.pending ++ [info.commandId] } strict ch₁
    (tags ++ [t])
  new : ch₁.callOf t ∉ ch₁.requested
  isUdma : ch₁.isUdma t = info.isUdma
  state : ch₁.state = ch.state

theorem addCommand_added {d : ℕ} (h : Sound cfg base ch readLog tags)
    (ho : Fronted cfg base strict ch tags) (hget : getTag cfg ch info.pmPort = some (t, d, ch'))
    (hbase : (base.accepted ++ (base.pending ++ [info.commandId])).Nodup) :
    Added cfg base strict ch (addCommand (ch'.prepareEntry t d) (.command t) info) tags t info := by
  obtain ⟨hnew, -⟩ := addCommand_accounted h.toAccounted hget
  obtain ⟨-, -, -, -, hch⟩ := getTag_some hget
  have hentry : ∀ t', (addCommand (ch'.prepareEntry t d) (.command t) info).commandsQueue
      (.command t') = if t' = t then newEntry t d info else ch.commandsQueue (.command t') := by
    intro t'
    rw [addCommand_entry, hch]
  have hlog : (addCommand (ch'.prepareEntry t d) (.command t) info).log = ch.log := by
    rw [hch]
    rfl
  have hreq : (addCommand (ch'.prepareEntry t d) (.command t) info).reqInPtr = ch.reqInPtr := by
    rw [hch]
    rfl
  have hstate : (addCommand (ch'.prepareEntry t d) (.command t) info).state = ch.state := by
    rw [hch]
    rfl
  generalize addCommand (ch'.prepareEntry t d) (.command t) info = ch₁ at hentry hlog hreq hstate
  have hlast := hentry t
  rw [if_pos rfl] at hlast
  have hold : ∀ t' ∈ tags, ch₁.commandsQueue (.command t') = ch.commandsQueue (.command t') := by
    intro t' ht'
    rw [hentry, if_neg (ne_of_mem_of_not_mem ht' hnew)]
  have hpasses : Passes ch ch₁ tags tags := by
    constructor
    case sub => exact List.Sublist.refl tags
    case inEdma => exact fun t' ht' => congrArg QueuedCommandEntry.isCommandInEdma (hold t' ht')
    case isUdma => exact fun t' ht' => congrArg (fun entry => entry.info.isUdma) (hold t' ht')
    case callOf => exact fun t' ht' => congrArg (fun entry => entry.info.commandId) (hold t' ht')
    case requests => rw [hlog]
    case reqInPtr => exact hreq
    case idle => exact fun hidle => hstate.symm.trans hidle
    case alone => exact fun halone => halone.of_sent (by rw [hlog])
  have hcall : ch₁.callOf t = info.commandId := by
    rw [Channel.callOf, hlast]
    rfl
  have hfronted := ho.passes hpasses
  have hunknown : info.commandId ∉ ch₁.requested := by
    intro hmem
    rw [← List.append_assoc] at hbase
    exact (List.disjoint_of_nodup_append hbase) (hfronted.known _ hmem) (List.mem_singleton_self _)
  have hadded : Fronted cfg base strict ch₁ (tags ++ [t]) :=
    hfronted.concat (congrArg QueuedCommandEntry.isCommandInEdma hlast) (by rwa [hcall])
  constructor
  case passes => exact hpasses
  case fronted =>
    refine { hadded with known := fun c hc => ?_ }
    dsimp only
    rw [← List.append_assoc]
    exact List.mem_append_left _ (hadded.known c hc)
  case new => rwa [hcall]
  case isUdma =>
    rw [Channel.isUdma, hlast]
    rfl
  case state => exact hstate

/-- Without PIO commands all commands are UDMA commands. -/
theorem Accounted.isUdma_of_noneUdma (h : Accounted cfg ch readLog tags)
    (hnone : ch.noneUdmaOutstandingCommands = 0) : ∀ t ∈ tags, ch.isUdma t = true := by
  intro t ht
  have hcount := h.noneUdma.symm.trans hnone
  rw [List.countP_eq_zero] at hcount
  have hentry := hcount (ch.commandsQueue (.command t)) (List.mem_map_of_mem ht)
  simpa [QueuedCommandEntry.isPio, Channel.isUdma] using hentry

theorem Accounted.exists_pio (h : Accounted cfg ch readLog tags)
    (hsome : ch.noneUdmaOutstandingCommands ≠ 0) : ∃ t ∈ tags, ch.isUdma t = false := by
  rw [h.noneUdma, ← Nat.pos_iff_ne_zero, List.countP_pos_iff] at hsome
  obtain ⟨x, hx, hpio⟩ := hsome
  obtain ⟨t, ht, rfl⟩ := List.mem_map.mp hx
  exact ⟨t, ht, by simpa [QueuedCommandEntry.isPio, Channel.isUdma] using hpio⟩

theorem Added.passes_on {ch₂ : Channel} (h : Added cfg base strict ch ch₁ tags t info)
    (hp : ∀ tags, Passes ch₁ ch₂ tags tags) (hstate : ch₂.state = ch₁.state) :
    Added cfg base strict ch ch₂ tags t info where
  passes := h.passes.trans (hp tags)
  fronted := h.fronted.passes (hp _)
  new := by
    rw [Channel.requested, (hp [t]).requests, (hp [t]).callOf t (List.mem_singleton_self t)]
    exact h.new
  isUdma := ((hp [t]).isUdma t (List.mem_singleton_self t)).trans h.isUdma
  state := hstate.trans h.state

/-- A new UDMA command enters the EDMA behind UDMA commands. -/
theorem Added.insert (hadded : Added cfg base strict ch ch₁ tags t info)
    (h : Sound cfg { base with pending := base.pending ++ [info.commandId] } ch₁ false
      (tags ++ [t]))
    (ho : Ordered cfg base strict ch tags) (hidle : ch.state = .idle)
    (hall : ∀ x ∈ tags, ch.isUdma x = true) (hudma : info.isUdma = true)
    (hbase : (base.accepted ++ (base.pending ++ [info.commandId])).Nodup) :
    InOrder cfg { base with pending := base.pending ++ [info.commandId] } strict
      (edmaReqQueueInsert cfg ch₁ (.command t)) := by
  have hin := edmaReqQueueInsert_inserted cfg ch₁ t
  have hfirst : (tags ++ [t]).takeWhile ch₁.isUdma = tags ++ [t] := by
    rw [List.takeWhile_eq_self_iff]
    intro x hx
    rcases List.mem_append.mp hx with hx | hx
    · rw [hadded.passes.isUdma x hx]
      exact hall x hx
    · rw [List.mem_singleton.mp hx, hadded.isUdma, hudma]
  refine ⟨false, tags ++ [t], h.quiet hin.quiet,
    hadded.fronted.inserted h hbase hin (List.nodup_singleton t) ?_ ?_ ?_⟩
  · intro x hx
    rw [hfirst]
    exact List.mem_append_right tags hx
  · intro x hx
    rw [List.mem_singleton.mp hx]
    exact hadded.new
  · intro hstrict x hx
    rw [hfirst] at hx
    refine (List.mem_append.mp hx).imp_left fun hold => ?_
    rw [hadded.passes.inEdma x hold]
    apply ho.complete hstrict hidle
    rwa [List.takeWhile_eq_self_iff.mpr hall]

/-- A new command waits behind a PIO command, or while an error is handled. -/
theorem Added.wait (hadded : Added cfg base strict ch ch₁ tags t info)
    (ho : Ordered cfg base strict ch tags)
    (hwait : ch.state = .idle → (∃ a ∈ tags, ch.isUdma a = false) ∨ info.isUdma = false) :
    Ordered cfg { base with pending := base.pending ++ [info.commandId] } strict ch₁
      (tags ++ [t]) := by
  refine { hadded.fronted with complete := ?_ }
  intro hstrict hidle x hx
  rw [hadded.state] at hidle
  have hstop : (∃ a ∈ tags, ch₁.isUdma a = false) ∨ ch₁.isUdma t = false := by
    rw [hadded.isUdma]
    refine (hwait hidle).imp_left ?_
    rintro ⟨a, ha, hpio⟩
    exact ⟨a, ha, (hadded.passes.isUdma a ha).trans hpio⟩
  rw [takeWhile_concat hstop] at hx
  exact (ho.passes hadded.passes).complete hstrict (hadded.state.trans hidle) x hx

/-- A UDMA command is queued. -/
theorem queueUdmaCommand_inOrder {d : ℕ} (h : Sound cfg base ch readLog tags)
    (ho : Ordered cfg base strict ch tags)
    (hget : getTag cfg ch info.pmPort = some (t, d, ch')) (hudma : info.isUdma = true)
    (hbase : (base.accepted ++ (base.pending ++ [info.commandId])).Nodup) :
    InOrder cfg { base with pending := base.pending ++ [info.commandId] } strict
      (queueUdmaCommand cfg (ch'.prepareEntry t d) (.command t) info) := by
  have hsound := addCommand_sound h hget
  have hadded := addCommand_added h ho.toFronted hget hbase
  obtain ⟨-, -, -, -, hch⟩ := getTag_some hget
  have hnone : (ch'.prepareEntry t d).noneUdmaOutstandingCommands =
      ch.noneUdmaOutstandingCommands := by
    rw [hch]
    rfl
  have hstate : (ch'.prepareEntry t d).state = ch.state := by
    rw [hch]
    rfl
  unfold queueUdmaCommand
  dsimp only
  rw [hnone, hstate]
  by_cases hdirect : ch.noneUdmaOutstandingCommands = 0 ∧ ch.state = .idle
  · obtain rfl := h.readLog_eq_false (by rw [hdirect.2]; simp)
    have hall := h.isUdma_of_noneUdma hdirect.1
    rw [if_pos hdirect]
    split_ifs
    · exact hadded.insert hsound ho hdirect.2 hall hudma hbase
    · have hactive : Added cfg base strict ch
          (activateEdma (addCommand (ch'.prepareEntry t d) (.command t) info)) tags t info :=
        hadded.passes_on (fun tags => Passes.of_order tags rfl) rfl
      exact hactive.insert hsound.activateEdma ho hdirect.2 hall hudma hbase
  · rw [if_neg hdirect]
    refine ⟨readLog, tags ++ [t], hsound, hadded.wait ho fun hidle => Or.inl ?_⟩
    exact h.exists_pio fun hzero => hdirect ⟨hzero, hidle⟩

/-- A PIO command is queued, or it is taken back. -/
theorem queuePioCommand_inOrder {d : ℕ} (h : Sound cfg base ch readLog tags)
    (ho : Ordered cfg base strict ch tags)
    (hget : getTag cfg ch info.pmPort = some (t, d, ch')) (hpio : info.isUdma = false)
    (hbase : (base.accepted ++ (base.pending ++ [info.commandId])).Nodup)
    (hstops : ch.edmaActive = true → ch.outstandingCommands = 0 → hw.stops = true)
    (hhead : ch.outstandingCommands = 0 → ch.queue.head ≠ some .readLogExt) :
    ((queuePioCommand cfg hw (ch'.prepareEntry t d) (.command t) info).1 = .ok ∧
      InOrder cfg { base with pending := base.pending ++ [info.commandId] } strict
        (queuePioCommand cfg hw (ch'.prepareEntry t d) (.command t) info).2) ∨
    ((queuePioCommand cfg hw (ch'.prepareEntry t d) (.command t) info).1 ≠ .ok ∧
      InOrder cfg base strict
        (queuePioCommand cfg hw (ch'.prepareEntry t d) (.command t) info).2) := by
  have hsound := addCommand_sound h hget
  have hadded := addCommand_added h ho.toFronted hget hbase
  obtain ⟨hid, hactive, hcount⟩ := addCommand_prepared h hget
  have hempty : ch.outstandingCommands = tags.length := by
    rw [h.outstanding]
    simp [Channel.entriesOf]
  unfold queuePioCommand
  dsimp only
  generalize addCommand (ch'.prepareEntry t d) (.command t) info = ch₁
    at hsound hadded hid hactive hcount ⊢
  by_cases halone : ch₁.outstandingCommands = 1
  · rw [if_pos halone]
    have hnil : tags = [] := List.length_eq_zero_iff.mp (by omega)
    subst hnil
    obtain rfl := h.readLog_eq_false_of_head (hhead hempty)
    have hstop : Quiet ch₁ (if ch₁.edmaActive then deactivateEdma cfg hw ch₁ else ch₁) ∧
        ∀ tags, Passes ch₁ (if ch₁.edmaActive then deactivateEdma cfg hw ch₁ else ch₁) tags
          tags := by
      split_ifs with hedma
      · have hstopped := hstops (hactive.symm.trans hedma) hempty
        refine ⟨deactivateEdma_quiet hstopped ch₁, fun tags => ?_⟩
        simp only [deactivateEdma, hstopped, if_true]
        exact Passes.of_order tags rfl
      · exact ⟨Quiet.refl ch₁, fun tags => Passes.of_order tags rfl⟩
    generalize (if ch₁.edmaActive = true then deactivateEdma cfg hw ch₁ else ch₁) = ch₂
      at hstop ⊢
    obtain ⟨hquiet, hpasses⟩ := hstop
    have hsound₂ := hsound.quiet hquiet
    have hfronted := hadded.fronted.passes (hpasses [t])
    have hfirst : ch₂.queue.head = some (.command t) := hsound₂.head_eq
    have hpio₂ : (ch₂.commandsQueue (.command t)).info.isUdma = false :=
      ((hpasses [t]).isUdma t (List.mem_singleton_self t)).trans (hadded.isUdma.trans hpio)
    obtain ⟨hsent, hsound₃, hhead₃, hpio₃⟩ := sendHead_passes hw hsound₂ hfronted hfirst hpio₂
    have hfronted₃ := hfronted.passes hsent
    split_ifs
    · exact Or.inl ⟨rfl, false, [t], hsound₃, hfronted₃.ordered_of_head hsound₃ hhead₃ hpio₃⟩
    · right
      have hidSent : ((sendNoneUdmaCommand cfg hw ch₂ (.command t)).2.commandsQueue
          (.command t)).info.commandId = info.commandId :=
        (congrArg EntryAccount.commandId (account_entry
          (hquiet.trans (sendNoneUdmaCommand_quiet cfg hw ch₂ (.command t))).account
          (.command t))).trans hid
      have hremove : Passes (sendNoneUdmaCommand cfg hw ch₂ (.command t)).2 _ ([] ++ t :: []) [] :=
        @removeCommand_passes cfg _ _ _ _ (List.nodup_singleton t)
      have hrequests := (hremove.requests.trans hsent.requests).trans
        ((hpasses [t]).requests.trans hadded.passes.requests)
      refine ⟨by simp, false, [], @Sound.withdraw _ _ [] [] _ _ _ _ hsound₃ hidSent, ?_⟩
      refine Ordered.rebase (Ordered.nil (hfronted₃.passes hremove).toRequested
        (hremove.alone hfronted₃.alone)) ?_
      rw [Channel.requested, hrequests]
      exact ho.known
  · rw [if_neg halone]
    exact Or.inl ⟨rfl, readLog, _, hsound, hadded.wait ho fun _ => Or.inr hpio⟩

/-- A call of `mvSataQueueCommand` keeps the order. -/
theorem mvSataQueueCommand_inOrder (h : InOrder cfg base strict ch)
    (hbase : (base.accepted ++ (base.pending ++ [info.commandId])).Nodup)
    (hstops : info.isUdma = false → ch.edmaActive = true → ch.outstandingCommands = 0 →
      hw.stops = true)
    (hhead : info.isUdma = false → ch.outstandingCommands = 0 →
      ch.queue.head ≠ some .readLogExt) :
    ((mvSataQueueCommand cfg hw ch info).1 = .ok ∧
      InOrder cfg { base with pending := base.pending ++ [info.commandId] } strict
        (mvSataQueueCommand cfg hw ch info).2) ∨
    ((mvSataQueueCommand cfg hw ch info).1 ≠ .ok ∧
      InOrder cfg base strict (mvSataQueueCommand cfg hw ch info).2) := by
  unfold mvSataQueueCommand
  split_ifs
  · exact Or.inr ⟨by simp, h⟩
  · cases hget : getTag cfg ch info.pmPort with
    | none => exact Or.inr ⟨by simp, h⟩
    | some answer =>
      obtain ⟨t, d, ch'⟩ := answer
      obtain ⟨readLog, tags, h, ho⟩ := h
      have hget' : getTag cfg ch
          ({ info with params := acceptParams cfg info.params } : CommandInfo).pmPort =
            some (t, d, ch') := hget
      have hsame : CommandInfo.isUdma { info with params := acceptParams cfg info.params } =
          info.isUdma := by
        unfold CommandInfo.isUdma
        cases info.params with
        | udma params => rfl
        | noneUdma protocolType count => rfl
      dsimp only
      split_ifs with hudma
      · exact Or.inl ⟨rfl, queueUdmaCommand_inOrder h ho hget' hudma hbase⟩
      · have hpio := Bool.eq_false_iff.mpr hudma
        rw [hsame] at hpio
        exact queuePioCommand_inOrder h ho hget' (Bool.eq_false_iff.mpr hudma) hbase (hstops hpio)
          (hhead hpio)
  · exact Or.inr ⟨by simp, h⟩

/-! ### Runs -/

/-- The EDMA answers commands that it has been given, and no PIO command is queued on an empty
channel while READ LOG EXT runs. -/
def AnswersQueued (cfg : ChannelConfig) (ch : Channel) (event : ChannelEvent) : Prop :=
  match event.action with
  | .queueCommand _ (.noneUdma _ _) =>
    ch.outstandingCommands = 0 → ch.queue.head ≠ some .readLogExt
  | .queueCommand _ (.udma _) => True
  | .response id _ =>
    (ch.commandsQueue (.command (id % cfg.edmaQueueLength))).isFreeEntry = false →
      ch.inEdma (id % cfg.edmaQueueLength) = true
  | .edmaError _ => True
  | .deviceInterrupt => True
  | .enable => True
  | .disable => True
  | .flush => True

instance (ch : Channel) : ∀ event, Decidable (AnswersQueued cfg ch event)
  | ⟨_, .queueCommand _ (.noneUdma _ _)⟩ => inferInstanceAs (Decidable (_ → _))
  | ⟨_, .queueCommand _ (.udma _)⟩ => inferInstanceAs (Decidable True)
  | ⟨_, .response _ _⟩ => inferInstanceAs (Decidable (_ → _))
  | ⟨_, .edmaError _⟩ => inferInstanceAs (Decidable True)
  | ⟨_, .deviceInterrupt⟩ => inferInstanceAs (Decidable True)
  | ⟨_, .enable⟩ => inferInstanceAs (Decidable True)
  | ⟨_, .disable⟩ => inferInstanceAs (Decidable True)
  | ⟨_, .flush⟩ => inferInstanceAs (Decidable True)

/-- What the hardware and the layer above keep to. -/
def WellDriven (cfg : ChannelConfig) (ch : Channel) (event : ChannelEvent) : Prop :=
  PioCanStart cfg ch event ∧ AnswersQueued cfg ch event

instance (ch : Channel) (event : ChannelEvent) : Decidable (WellDriven cfg ch event) :=
  inferInstanceAs (Decidable (_ ∧ _))

/-- The resets of the drive that recoveries make succeed. -/
def ResetsSucceed (cfg : ChannelConfig)
    (trace : List (ChannelEvent × Option QueueCommandResult)) : Prop :=
  cfg.generation = .genI ∨ cfg.queuedDma = .queued →
    ∀ step ∈ trace, ∀ e, step.1.hw.softReset e = true

theorem acceptedCalls_nodup (answers : List QueueCommandResult) : (acceptedCalls answers).Nodup :=
  List.nodup_range.filter _

theorem calls_notMem_acceptedCalls (answers : List QueueCommandResult) :
    answers.length ∉ acceptedCalls answers := by
  intro hmem
  exact absurd (List.mem_range.mp (List.mem_of_mem_filter hmem)) (Nat.lt_irrefl _)

/-- Queuing a command. -/
theorem queueStep_inOrder {answers : List QueueCommandResult} {pmPort : Fin 16}
    {params : CommandParams} (hrecorded : Recorded cfg answers ch)
    (h : InOrder cfg ch.ledger strict ch)
    (hok : WellDriven cfg ch ⟨hw, .queueCommand pmPort params⟩) :
    InOrder cfg (queueStep cfg hw ch pmPort params).2.ledger strict
      (queueStep cfg hw ch pmPort params).2 := by
  have hcounted : InOrder cfg ⟨ch.log.calls + 1, ch.log.accepted, []⟩ strict
      { ch with log := { ch.log with calls := ch.log.calls + 1 } } := by
    obtain ⟨readLog, tags, hsound, ho⟩ := h
    refine ⟨readLog, tags, { hsound with calls := rfl }, ?_⟩
    have hpasses : Passes ch { ch with log := { ch.log with calls := ch.log.calls + 1 } } tags
        tags := Passes.of_order tags rfl
    exact (ho.passes hpasses).rebase ho.known
  have hbase : (ch.log.accepted ++ ([] ++ [ch.log.calls])).Nodup := by
    rw [List.nil_append, List.nodup_append', hrecorded.accepted, hrecorded.calls]
    refine ⟨acceptedCalls_nodup answers, List.nodup_singleton _, ?_⟩
    rw [List.disjoint_singleton]
    exact calls_notMem_acceptedCalls answers
  have hstops : CommandInfo.isUdma ⟨pmPort, ch.log.calls, params⟩ = false →
      ch.edmaActive = true → ch.outstandingCommands = 0 → hw.stops = true := by
    intro hpio
    cases params with
    | udma params => cases hpio
    | noneUdma protocolType count => exact hok.1
  have hhead : CommandInfo.isUdma ⟨pmPort, ch.log.calls, params⟩ = false →
      ch.outstandingCommands = 0 → ch.queue.head ≠ some .readLogExt := by
    intro hpio
    cases params with
    | udma params => cases hpio
    | noneUdma protocolType count => exact hok.2
  have hqueue := @mvSataQueueCommand_inOrder _ hw _ ⟨pmPort, ch.log.calls, params⟩ _ _ hcounted
    hbase hstops hhead
  unfold queueStep
  dsimp only at hqueue ⊢
  generalize mvSataQueueCommand cfg hw { ch with log := { ch.log with calls := ch.log.calls + 1 } }
    ⟨pmPort, ch.log.calls, params⟩ = answer at hqueue ⊢
  obtain ⟨result, ch₁⟩ := answer
  obtain ⟨hresult, readLog, tags, hsound, ho⟩ | ⟨hresult, readLog, tags, hsound, ho⟩ := hqueue
  · dsimp only at hresult hsound ho ⊢
    rw [if_pos hresult]
    have haccepted : ch₁.log.accepted = ch.log.accepted := hsound.accepted
    have hsum : ch.log.accepted ++ ([] ++ [ch.log.calls]) =
        ch₁.log.accepted ++ [ch.log.calls] ++ [] := by
      rw [haccepted, List.nil_append, List.append_nil]
    refine ⟨readLog, tags, { hsound with calls := rfl, accepted := rfl, ledger := ?_ }, ?_⟩
    · exact hsound.ledger.trans (List.Perm.of_eq hsum)
    · have hpasses : Passes ch₁ { ch₁ with log := { ch₁.log with
          accepted := ch₁.log.accepted ++ [ch.log.calls] } } tags tags :=
        Passes.of_order tags rfl
      refine (ho.passes hpasses).rebase fun c hc => ?_
      have hknown := ho.known c hc
      dsimp only at hknown
      rwa [hsum] at hknown
  · dsimp only at hresult hsound ho ⊢
    rw [if_neg hresult]
    have haccepted : ch₁.log.accepted = ch.log.accepted := hsound.accepted
    refine ⟨readLog, tags, { hsound with calls := rfl, accepted := rfl, ledger := ?_ }, ?_⟩
    · simpa [Channel.ledger, haccepted] using hsound.ledger
    · refine ho.rebase fun c hc => ?_
      simpa [Channel.ledger, haccepted] using ho.known c hc

/-- One step of a channel keeps the order. -/
theorem channelStep_inOrder {answers : List QueueCommandResult} {event : ChannelEvent}
    {answer : Option QueueCommandResult} (hrecorded : Recorded cfg answers ch)
    (hrecovers : Recovers cfg event.hw strict) (h : InOrder cfg ch.ledger strict ch)
    (hok : WellDriven cfg ch event) (hstep : channelStep cfg ch event = some (answer, ch')) :
    InOrder cfg ch'.ledger strict ch' := by
  obtain ⟨hw, action⟩ := event
  have hdriven : Driven cfg hw ch.ledger strict := by
    refine ⟨hrecovers, ?_⟩
    dsimp only [Channel.ledger]
    rw [List.append_nil, hrecorded.accepted]
    exact acceptedCalls_nodup answers
  have hdone : ∀ {ch'}, InOrder cfg ch.ledger strict ch' → InOrder cfg ch'.ledger strict ch' := by
    intro ch' hdone
    have hledger : ch'.ledger = ch.ledger := by
      obtain ⟨readLog, tags, hsound, -⟩ := hdone
      unfold Channel.ledger
      rw [hsound.calls, hsound.accepted]
      rfl
    rwa [hledger]
  unfold channelStep at hstep
  cases action with
  | queueCommand pmPort params =>
    obtain ⟨-, rfl⟩ := Prod.mk.inj (Option.some.inj hstep)
    exact queueStep_inOrder hrecorded h hok
  | response id flags =>
    obtain ⟨ch₁, hch₁, heq⟩ := Option.map_eq_some_iff.mp hstep
    obtain ⟨-, rfl⟩ := Prod.mk.inj heq
    exact hdone (responseStep_inOrder hdriven h hok.1.1 hok.2 hok.1.2 ch₁ hch₁)
  | edmaError cause =>
    obtain ⟨-, rfl⟩ := Prod.mk.inj (Option.some.inj hstep)
    exact hdone (handleEdmaError_inOrder hdriven h hok.1 cause)
  | deviceInterrupt =>
    obtain ⟨-, rfl⟩ := Prod.mk.inj (Option.some.inj hstep)
    exact hdone (handleDeviceInterrupt_inOrder hdriven h)
  | enable =>
    obtain ⟨-, rfl⟩ := Prod.mk.inj (Option.some.inj hstep)
    apply hdone
    unfold mvSataEnableChannelDma
    split_ifs
    · exact h
    · exact h.quiet ⟨rfl, id⟩ fun tags => Passes.of_order tags rfl
  | disable =>
    obtain ⟨-, rfl⟩ := Prod.mk.inj (Option.some.inj hstep)
    apply hdone
    obtain ⟨readLog, tags, h, ho⟩ := h
    have hsound : Sound cfg ch.ledger { ch with queueCommandsEnabled := false } readLog tags :=
      h.quiet ⟨rfl, id⟩
    have hpasses : Passes ch { ch with queueCommandsEnabled := false } tags tags :=
      Passes.of_order tags rfl
    obtain ⟨readLog₁, tags₁, -, h₁, ho₁⟩ :=
      @deactivateEdma_inOrder _ hw _ _ _ _ _ hsound (ho.passes hpasses)
    exact ⟨readLog₁, tags₁, h₁, ho₁⟩
  | flush =>
    obtain ⟨-, rfl⟩ := Prod.mk.inj (Option.some.inj hstep)
    apply hdone
    unfold mvSataFlushDmaQueue
    split_ifs
    · exact h
    · obtain ⟨readLog, tags, h, ho⟩ := h
      exact ⟨false, [], h.flushReset, flushReset_ordered ho.toFronted⟩

theorem configuredChannel_inOrder (cfg : ChannelConfig) :
    InOrder cfg (configuredChannel cfg).ledger strict (configuredChannel cfg) := by
  refine ⟨false, [], { resetEdmaChannel_accounted cfg _ with
    readLogExt := ?_, calls := rfl, accepted := rfl, ledger := List.Perm.refl _ }, ?_⟩
  · intro hr
    cases hr
  · refine Ordered.nil (Requested.empty rfl rfl) ?_
    intro x hx
    cases hx

/-- The order holds along every run. -/
theorem run_inOrder {trace : List (ChannelEvent × Option QueueCommandResult)}
    (hrun : Run (channelStep cfg) (WellDriven cfg) (configuredChannel cfg) trace ch) :
    Recorded cfg (traceAnswers trace) ch ∧ InOrder cfg ch.ledger (ResetsSucceed cfg trace) ch := by
  refine Run.invariant (I := fun trace ch => Recorded cfg (traceAnswers trace) ch ∧
    InOrder cfg ch.ledger (ResetsSucceed cfg trace) ch)
    ⟨configuredChannel_recorded cfg, configuredChannel_inOrder cfg⟩ ?_ hrun
  intro trace ch event answer ch' h hok hstep
  have hfewer : ResetsSucceed cfg (trace ++ [(event, answer)]) → ResetsSucceed cfg trace :=
    fun hall hsoft step hmem => hall hsoft step (List.mem_append_left _ hmem)
  have hrecovers : Recovers cfg event.hw (ResetsSucceed cfg (trace ++ [(event, answer)])) :=
    fun hall hsoft => hall hsoft (event, answer) (by simp)
  refine ⟨?_, channelStep_inOrder h.1 hrecovers (h.2.mono hfewer) hok hstep⟩
  obtain ⟨answer', ch₁, hstep', h'⟩ := channelStep_recorded h.1 hok.1
  rw [hstep] at hstep'
  obtain ⟨rfl, rfl⟩ := Prod.mk.inj (Option.some.inj hstep')
  have hanswers : traceAnswers (trace ++ [(event, answer)]) =
      traceAnswers trace ++ answer.toList := by
    unfold traceAnswers
    rw [List.filterMap_append]
    cases answer with
    | none => rfl
    | some answer => rfl
  rw [hanswers]
  exact h'

/-- The host tag of the command of an entry of the table. -/
def EntryRef.hostTag : EntryRef → Option ℕ
  | .command t => some t
  | .readLogExt => none

/-- The commands in the queue of a channel, without READ LOG EXT. -/
def Channel.queuedTags (cfg : ChannelConfig) (ch : Channel) : List ℕ :=
  (ch.commands cfg).filterMap EntryRef.hostTag

theorem Accounted.tags_eq (h : Accounted cfg ch readLog tags) : ch.queuedTags cfg = tags := by
  have hmap : (tags.map EntryRef.command).filterMap EntryRef.hostTag = tags := by
    rw [List.filterMap_map]
    exact List.filterMap_some
  rw [Channel.queuedTags, h.commands_eq, queueRefs, List.filterMap_append, hmap]
  cases readLog with
  | false => rfl
  | true => rfl

/-- How UDMA commands and PIO commands are kept apart. -/
structure CommandsOrdered (cfg : ChannelConfig) (steady : Prop) (ch : Channel) : Prop where
  /-- The commands in the EDMA are UDMA commands. -/
  udma : ∀ t ∈ ch.queuedTags cfg, ch.inEdma t = true → ch.isUdma t = true
  /-- They stand in front of all PIO commands. -/
  front : (ch.queuedTags cfg).Pairwise fun a b => ch.inEdma b = true → ch.isUdma a = true
  /-- Where the resets of the drive succeed, they are the first ones. -/
  prefixed : steady →
    (ch.queuedTags cfg).Pairwise fun a b => ch.inEdma b = true → ch.inEdma a = true
  /-- No UDMA command waits unless a PIO command stands before it or an error is handled. -/
  complete : steady → ch.state = .idle →
    ∀ t ∈ (ch.queuedTags cfg).takeWhile ch.isUdma, ch.inEdma t = true
  /-- PIO commands are sent from the head of the queue, when no command is in the EDMA. -/
  alone : SentAlone ch
  /-- No command has been put in the request queue behind a PIO command. -/
  behind : ∀ x ∈ ch.log.requests, x.pioBefore = []

/-- UDMA commands and PIO commands are kept apart along every run. -/
theorem run_commandsOrdered {trace : List (ChannelEvent × Option QueueCommandResult)}
    (hrun : Run (channelStep cfg) (WellDriven cfg) (configuredChannel cfg) trace ch) :
    CommandsOrdered cfg (ResetsSucceed cfg trace) ch := by
  obtain ⟨-, readLog, tags, h, ho⟩ := run_inOrder hrun
  have htags := h.tags_eq
  constructor
  case udma =>
    rw [htags]
    exact ho.udma
  case front =>
    rw [htags]
    exact ho.front
  case prefixed =>
    rw [htags]
    exact ho.prefixed
  case complete =>
    rw [htags]
    exact ho.complete
  case alone => exact ho.alone
  case behind => exact ho.behind

theorem smallEvents_commandsOrdered :
    ∃ trace ch, exec (channelStep smallConfig) (WellDriven smallConfig)
      (configuredChannel smallConfig) smallEvents = some (trace, ch) ∧
        ch.log.sent.map (·.commandId) = [1] ∧
        CommandsOrdered smallConfig (ResetsSucceed smallConfig trace) ch := by
  have hsent : (exec (channelStep smallConfig) (WellDriven smallConfig)
      (configuredChannel smallConfig) smallEvents).map
        (fun r => r.2.log.sent.map (·.commandId)) = some [1] := by
    decide
  rw [Option.map_eq_some_iff] at hsent
  obtain ⟨⟨trace, ch⟩, hexec, hsent⟩ := hsent
  exact ⟨trace, ch, hexec, hsent, run_commandsOrdered (Run.of_exec _ hexec)⟩

/-! ### The request ring -/

/-- The request ring, when the EDMA has fetched the first requests since the last reset. -/
structure RequestRing (cfg : ChannelConfig) (ch : Channel) (fetched : ℕ) : Prop where
  inPtr : ch.reqInPtr = ch.requested.length % cfg.edmaQueueLength
  /-- No command is in it twice. -/
  once : ch.requested.Nodup
  /-- A request that has not been fetched is the one of a command in the EDMA. -/
  inEdma : ∀ c ∈ ch.requested.drop fetched,
    ∃ t ∈ ch.queuedTags cfg, ch.inEdma t = true ∧ ch.callOf t = c
  /-- No request is overwritten before it is fetched. -/
  cells : ∀ i j, fetched ≤ i → i < j → j < ch.requested.length →
    i % cfg.edmaQueueLength ≠ j % cfg.edmaQueueLength
  /-- The in pointer does not catch up with the out pointer. -/
  ahead : fetched < ch.requested.length → ch.reqInPtr ≠ fetched % cfg.edmaQueueLength

theorem ChannelConfig.hostTagsNum_lt (cfg : ChannelConfig) :
    cfg.hostTagsNum < cfg.edmaQueueLength := by
  unfold ChannelConfig.hostTagsNum ChannelConfig.edmaQueueLength
  split_ifs
  · exact Nat.lt_succ_self 127
  · exact Nat.lt_succ_self 31

/-- Cells of a ring that are less than one round apart differ. -/
theorem mod_ne_of_lt {i j n : ℕ} (hij : i < j) (hn : j < i + n) : i % n ≠ j % n := by
  intro heq
  have hdvd := Nat.dvd_of_mod_eq_zero (Nat.sub_mod_eq_zero_of_mod_eq heq.symm)
  have hle := Nat.le_of_dvd (Nat.sub_pos_of_lt hij) hdvd
  omega

/-- The EDMA only answers what it has fetched. Then the request ring has room for all requests that
have not been fetched, along every run. -/
theorem run_requestRing {trace : List (ChannelEvent × Option QueueCommandResult)} {fetched : ℕ}
    (hrun : Run (channelStep cfg) (WellDriven cfg) (configuredChannel cfg) trace ch)
    (hopen : ∀ c ∈ ch.requested.drop fetched, c ∉ ch.log.callBacks.map Prod.fst) :
    RequestRing cfg ch fetched := by
  obtain ⟨-, readLog, tags, h, ho⟩ := run_inOrder hrun
  have hlength : ch.requested.length = ch.log.requests.length := List.length_map _
  have hwaiting : ∀ c ∈ ch.requested.drop fetched,
      ∃ t ∈ tags, ch.inEdma t = true ∧ ch.callOf t = c := by
    intro c hc
    have hrequested := List.mem_of_mem_drop hc
    have hmem := h.ledger.symm.subset (ho.known c hrequested)
    rcases List.mem_append.mp hmem with hback | hentry
    · exact absurd hback (hopen c hc)
    · rw [Channel.entriesOf, List.map_map] at hentry
      obtain ⟨t, ht, rfl⟩ := List.mem_map.mp hentry
      exact ⟨t, ht, ho.marked t ht hrequested, rfl⟩
  have hroom : ch.requested.length < fetched + cfg.edmaQueueLength := by
    have hsub : ch.requested.drop fetched ⊆ tags.map ch.callOf := by
      intro c hc
      obtain ⟨t, ht, -, rfl⟩ := hwaiting c hc
      exact List.mem_map_of_mem ht
    have hnodup := ho.once.sublist (List.drop_sublist fetched _)
    have hle := (List.subperm_of_subset hnodup hsub).length_le
    have hcount := h.length_add_top
    have hring := cfg.hostTagsNum_lt
    rw [List.length_drop, List.length_map] at hle
    omega
  have hinPtr : ch.reqInPtr = ch.requested.length % cfg.edmaQueueLength := by
    rw [hlength]
    exact ho.inPtr
  constructor
  case inPtr => exact hinPtr
  case once => exact ho.once
  case inEdma =>
    rw [h.tags_eq]
    exact hwaiting
  case cells =>
    intro i j hi hij hj
    exact mod_ne_of_lt hij (by omega)
  case ahead =>
    intro hpending
    rw [hinPtr]
    exact (mod_ne_of_lt hpending hroom).symm

theorem queueingEvents_requestRing :
    ∃ trace ch, exec (channelStep smallConfig) (WellDriven smallConfig)
      (configuredChannel smallConfig) (smallEvents.take 2) = some (trace, ch) ∧
        ch.requested = [0] ∧ RequestRing smallConfig ch 0 := by
  have hend : (exec (channelStep smallConfig) (WellDriven smallConfig)
      (configuredChannel smallConfig) (smallEvents.take 2)).map
        (fun r => (r.2.requested, r.2.log.callBacks)) = some ([0], []) := by
    decide
  rw [Option.map_eq_some_iff] at hend
  obtain ⟨⟨trace, ch⟩, hexec, hend⟩ := hend
  simp only [Prod.mk.injEq] at hend
  refine ⟨trace, ch, hexec, hend.1, run_requestRing (Run.of_exec _ hexec) ?_⟩
  rw [hend.2]
  simp

end Mv88fxx81.Sata.Core
