import Mv88fxx81.Sata.EdmaOrder

/-!
# The order of the commands while errors are handled

A PIO command is sent from the head of the queue, when no command is in the EDMA. The recoveries
from errors reset the queues of the EDMA before they start the commands that wait, and a command
that they fail leaves the EDMA.
-/

namespace Mv88fxx81.Sata.Core

variable {cfg : ChannelConfig} {hw : Hardware} {ch ch₁ : Channel} {e : EntryRef}
  {tags tags₁ t₁ t₂ : List ℕ} {readLog failed : Bool} {t : ℕ} {base : Ledger} {strict : Prop}
  {insert : Channel → Channel} {n : ℕ}

/-- Where the order is strict, the resets of the drive succeed. -/
def Recovers (cfg : ChannelConfig) (hw : Hardware) (strict : Prop) : Prop :=
  strict → cfg.generation = .genI ∨ cfg.queuedDma = .queued → ∀ e, hw.softReset e = true

/-- What is known of a call: where the order is strict, the resets of the drive succeed, and no
command is known twice. -/
structure Driven (cfg : ChannelConfig) (hw : Hardware) (base : Ledger) (strict : Prop) : Prop where
  recovers : Recovers cfg hw strict
  nodup : (base.accepted ++ base.pending).Nodup

/-- Starting the commands that wait, for fewer than `n` commands. -/
def Starts (cfg : ChannelConfig) (base : Ledger) (strict : Prop) (insert : Channel → Channel)
    (n : ℕ) : Prop :=
  ∀ (ch : Channel) (readLog : Bool) (tags : List ℕ),
    Sound cfg base ch readLog tags → Fronted cfg base strict ch tags → tags.length < n →
    (∀ t ∈ tags, ch.callOf t ∉ ch.requested) → InOrder cfg base strict (insert ch)

/-! ### PIO commands -/

theorem Sound.length_lt (h : Sound cfg base ch readLog tags) :
    tags.length < cfg.commandsQueueSize + 2 := by
  have hlength := h.length_add_top
  have hsize := (hostTagsNum_le cfg).2
  omega

/-- The head of the queue is READ LOG EXT or the first command. -/
theorem Accounted.head_cases (h : Accounted cfg ch readLog tags) (hhead : ch.queue.head = some e) :
    (e = .readLogExt ∧ readLog = true) ∨
      ∃ t rest, e = .command t ∧ readLog = false ∧ tags = t :: rest := by
  have hfirst : (queueRefs readLog tags).head? = some e := h.head_eq.symm.trans hhead
  cases readLog with
  | true => exact Or.inl ⟨(Option.some.inj hfirst).symm, rfl⟩
  | false =>
    right
    cases tags with
    | nil => cases hfirst
    | cons t rest => exact ⟨t, rest, (Option.some.inj hfirst).symm, rfl, rfl⟩

/-- No command waits behind a PIO command without reason. -/
theorem Fronted.ordered_of_head (ho : Fronted cfg base strict ch tags)
    (h : Sound cfg base ch readLog tags) (hhead : ch.queue.head = some e)
    (hpio : (ch.commandsQueue e).info.isUdma = false) : Ordered cfg base strict ch tags := by
  refine { ho with complete := ?_ }
  intro _ hidle t ht
  rcases h.head_cases hhead with ⟨-, hread⟩ | ⟨t', rest, rfl, -, rfl⟩
  · rw [(h.readLogExt hread).1] at hidle
    cases hidle
  · have hnot : ¬ ch.isUdma t' = true := by
      rw [Channel.isUdma, hpio]
      simp
    rw [List.takeWhile_cons_of_neg hnot] at ht
    cases ht

/-- A PIO command is sent from the head of the queue, while no command is in the EDMA. -/
theorem sendNoneUdmaCommand_passes (hw : Hardware) (h : Accounted cfg ch readLog tags)
    (hhead : e ≠ .readLogExt → readLog = false ∧ ch.queue.head = some e ∧
      ∀ t ∈ tags, ch.inEdma t = false) :
    Passes ch (sendNoneUdmaCommand cfg hw ch e).2 tags tags := by
  have hsame : Passes ch ch tags tags := Passes.of_order tags rfl
  have hlog : Passes ch (ch.logSent cfg e) tags tags := by
    refine { hsame with alone := ?_ }
    intro halone x hx hne
    rw [Channel.logSent, List.mem_append, List.mem_singleton] at hx
    rcases hx with hx | rfl
    · exact halone x hx hne
    · obtain ⟨rfl, hfirst, hnone⟩ := hhead hne
      refine ⟨hfirst, ?_⟩
      rw [h.commands_eq, List.filter_eq_nil_iff]
      intro e' he'
      obtain ⟨t, ht, rfl⟩ := List.mem_map.mp he'
      exact Bool.eq_false_iff.mp (hnone t ht)
  unfold sendNoneUdmaCommand
  cases hw.sends e with
  | notReady => exact hsame
  | failed => exact hlog
  | done =>
    dsimp only
    exact hlog.trans (Passes.of_update tags rfl (isUdma_countAfterSend _ _ _) rfl)

/-- A command is removed. -/
theorem removeCommand_passes (hnodup : (t₁ ++ t :: t₂).Nodup) :
    Passes ch (removeCommand cfg ch (.command t)) (t₁ ++ t :: t₂) (t₁ ++ t₂) := by
  rw [List.nodup_middle, List.nodup_cons] at hnodup
  have hentry : ∀ t' ∈ t₁ ++ t₂, (removeCommand cfg ch (.command t)).commandsQueue (.command t') =
      ch.commandsQueue (.command t') := by
    intro t' ht'
    rw [removeCommand_entry, if_neg (ne_of_mem_of_not_mem ht' hnodup.1)]
  constructor
  case sub => exact (List.sublist_cons_self t t₂).append_left t₁
  case inEdma =>
    intro t' ht'
    rw [Channel.inEdma, hentry t' ht']
    rfl
  case isUdma =>
    intro t' ht'
    rw [Channel.isUdma, hentry t' ht']
    rfl
  case callOf =>
    intro t' ht'
    rw [Channel.callOf, hentry t' ht']
    rfl
  case requests => rfl
  case reqInPtr => rfl
  case idle => exact id
  case alone => exact id

theorem finishPIOCommand_readLogExt_passes (h : Sound cfg base ch true tags) :
    Passes ch (finishPIOCommand cfg ch .readLogExt failed) tags tags := by
  obtain ⟨-, htag, -⟩ := h.readLogExt rfl
  unfold finishPIOCommand
  simp only [htag, if_true]
  cases failed with
  | false => exact Passes.of_order tags rfl
  | true => exact Passes.of_order tags rfl

theorem finishPIOCommand_command_passes (h : Sound cfg base ch readLog (t₁ ++ t :: t₂)) :
    Passes ch (finishPIOCommand cfg ch (.command t) failed) (t₁ ++ t :: t₂) (t₁ ++ t₂) := by
  have htag := h.hostTag_ne (t := t) (by simp)
  unfold finishPIOCommand
  simp only [htag, if_false]
  cases failed with
  | false =>
    have hfirst : Passes ch { ch with recoveredErrorsCounter := 0 } (t₁ ++ t :: t₂)
        (t₁ ++ t :: t₂) := Passes.of_order _ rfl
    exact (hfirst.trans (removeCommand_passes h.nodup)).trans
      (Passes.of_order _ rfl)
  | true =>
    have hfirst : Passes ch { ch with queueCommandsEnabled := false } (t₁ ++ t :: t₂)
        (t₁ ++ t :: t₂) := Passes.of_order _ rfl
    exact (hfirst.trans (removeCommand_passes h.nodup)).trans
      (Passes.of_order _ rfl)

/-- The queues are reset, and the commands that wait are started. -/
theorem Starts.after_reset (hinsert : Starts cfg base strict insert n)
    (h : Sound cfg base ch₁ readLog tags) (ho : Fronted cfg base strict ch tags)
    (hn : tags.length < n) (hentries : ch₁.commandsQueue = ch.commandsQueue)
    (hrequests : ch₁.log.requests = []) (hreq : ch₁.reqInPtr = 0)
    (hsent : ch₁.log.sent = ch.log.sent) : InOrder cfg base strict (insert ch₁) := by
  refine hinsert ch₁ readLog tags h (ho.reset hentries hrequests hreq hsent) hn ?_
  rw [Channel.requested, hrequests]
  simp

theorem finishErrorHandling_inOrder (hinsert : Starts cfg base strict insert n)
    (h : Sound cfg base ch false tags) (ho : Fronted cfg base strict ch tags)
    (hn : tags.length < n) : InOrder cfg base strict (finishErrorHandling insert ch) := by
  have hsound : Sound cfg base
      (resetEdmaQPointers { ch with state := .idle, portsWithErrors := 0 }) false tags :=
    h.congr rfl fun hr => by cases hr
  exact hinsert.after_reset hsound ho hn rfl rfl rfl rfl

theorem doDevErrorRecoveryWith_inOrder (hrecovers : Recovers cfg hw strict)
    (hinsert : Starts cfg base strict insert n) (h : Sound cfg base ch readLog tags)
    (ho : Fronted cfg base strict ch tags) (hn : tags.length < n) (e' : Option EntryRef) :
    InOrder cfg base strict (doDevErrorRecoveryWith cfg hw insert ch e') := by
  unfold doDevErrorRecoveryWith
  by_cases hfail : (cfg.generation = .genI ∨ cfg.queuedDma = .queued) ∧ ¬ hw.softReset e' = true
  · rw [if_pos hfail]
    refine ⟨readLog, tags, h, { ho with complete := ?_ }⟩
    intro hstrict
    exact absurd (hrecovers hstrict hfail.1 e') hfail.2
  · rw [if_neg hfail]
    have hsound : Sound cfg base (resetEdmaQPointers { ch with queueCommandsEnabled := true })
        readLog tags := h.quiet ⟨rfl, id⟩
    exact hinsert.after_reset hsound ho hn rfl rfl rfl rfl

/-- The head of the queue is a PIO command that has failed. -/
theorem completePIOCommandWith_failed_inOrder (hrecovers : Recovers cfg hw strict)
    (hinsert : Starts cfg base strict insert n) (h : Sound cfg base ch readLog tags)
    (ho : Fronted cfg base strict ch tags) (hhead : ch.queue.head = some e)
    (hn : tags.length ≤ n) :
    InOrder cfg base strict (completePIOCommandWith cfg hw insert ch e true) := by
  unfold completePIOCommandWith
  dsimp only
  rcases h.head_cases hhead with ⟨rfl, rfl⟩ | ⟨t, rest, rfl, rfl, rfl⟩
  · obtain ⟨-, htag, -⟩ := h.readLogExt rfl
    rw [if_pos htag, if_pos rfl]
    obtain ⟨hsound, hstate⟩ := @finishPIOCommand_readLogExt _ _ _ true _ h
    have hfronted := ho.passes (@finishPIOCommand_readLogExt_passes _ _ _ true _ h)
    refine ⟨false, tags, hsound, hfronted.ordered_of_state ?_⟩
    rw [hstate]
    simp
  · rw [if_neg (h.hostTag_ne List.mem_cons_self), if_pos rfl]
    have hpasses : Passes ch (finishPIOCommand cfg ch (.command t) true) (t :: rest) rest :=
      @finishPIOCommand_command_passes _ _ [] rest _ _ _ _ h
    have hsound : Sound cfg base (finishPIOCommand cfg ch (.command t) true) false rest :=
      @finishPIOCommand_command _ _ [] rest _ _ _ _ h
    exact doDevErrorRecoveryWith_inOrder hrecovers hinsert hsound (ho.passes hpasses) hn _

/-! ### Starting commands -/

/-- Sending the PIO command at the head of the queue. -/
theorem sendHead_passes (hw : Hardware) (h : Sound cfg base ch readLog tags)
    (ho : Fronted cfg base strict ch tags) (hhead : ch.queue.head = some e)
    (hpio : (ch.commandsQueue e).info.isUdma = false) :
    Passes ch (sendNoneUdmaCommand cfg hw ch e).2 tags tags ∧
      Sound cfg base (sendNoneUdmaCommand cfg hw ch e).2 readLog tags ∧
      (sendNoneUdmaCommand cfg hw ch e).2.queue.head = some e ∧
      ((sendNoneUdmaCommand cfg hw ch e).2.commandsQueue e).info.isUdma = false := by
  have hquiet := sendNoneUdmaCommand_quiet cfg hw ch e
  refine ⟨sendNoneUdmaCommand_passes hw h.toAccounted ?_, h.quiet hquiet, ?_, ?_⟩
  · intro hne
    rcases h.head_cases hhead with ⟨rfl, -⟩ | ⟨t, rest, rfl, hread, rfl⟩
    · exact absurd rfl hne
    · exact ⟨hread, hhead, ho.none_inEdma hpio⟩
  · have hqueue : (sendNoneUdmaCommand cfg hw ch e).2.queue = ch.queue :=
      congrArg ChannelAccount.queue hquiet.account
    rw [hqueue]
    exact hhead
  · exact (congrArg EntryAccount.isUdma (account_entry hquiet.account e)).trans hpio

/-- The PIO command at the head of the queue is sent, or fails. -/
theorem sendHead_inOrder (hrecovers : Recovers cfg hw strict)
    (hinsert : Starts cfg base strict insert n) (h : Sound cfg base ch readLog tags)
    (ho : Fronted cfg base strict ch tags) (hhead : ch.queue.head = some e)
    (hpio : (ch.commandsQueue e).info.isUdma = false) (hn : tags.length ≤ n) :
    InOrder cfg base strict
      (if (sendNoneUdmaCommand cfg hw ch e).1 then (sendNoneUdmaCommand cfg hw ch e).2
      else completePIOCommandWith cfg hw insert (sendNoneUdmaCommand cfg hw ch e).2 e true) := by
  obtain ⟨hpasses, hsound, hhead₁, hpio₁⟩ := sendHead_passes hw h ho hhead hpio
  by_cases hsent : (sendNoneUdmaCommand cfg hw ch e).1 = true
  · rw [if_pos hsent]
    exact ⟨readLog, tags, hsound, (ho.passes hpasses).ordered_of_head hsound hhead₁ hpio₁⟩
  · rw [if_neg hsent]
    exact completePIOCommandWith_failed_inOrder hrecovers hinsert hsound (ho.passes hpasses) hhead₁
      hn

/-- The loop over the UDMA commands in front of the queue. -/
theorem Accounted.commands_takeWhile (h : Accounted cfg ch false tags) :
    ((ch.commands cfg).takeWhile fun e => (ch.commandsQueue e).info.isUdma) =
      (tags.takeWhile ch.isUdma).map EntryRef.command := by
  rw [h.commands_eq, queueRefs, if_neg Bool.false_ne_true, List.nil_append, List.takeWhile_map]
  rfl

/-- The UDMA commands in front enter the EDMA. -/
theorem insertAll_inOrder (hbase : (base.accepted ++ base.pending).Nodup)
    (h : Sound cfg base ch false tags) (ho : Fronted cfg base strict ch tags)
    (hnew : ∀ t ∈ tags, ch.callOf t ∉ ch.requested) :
    InOrder cfg base strict
      (((tags.takeWhile ch.isUdma).map EntryRef.command).foldl (edmaReqQueueInsert cfg) ch) := by
  have hin := insertAll_inserted cfg (tags.takeWhile ch.isUdma) ch ho.inPtr_lt
  refine ⟨false, tags, h.quiet hin.quiet, ho.inserted h hbase hin ?_ (fun _ ht => ht) ?_ ?_⟩
  · exact h.nodup.sublist (List.takeWhile_sublist _)
  · exact fun t ht => hnew t (List.takeWhile_subset _ ht)
  · exact fun _ _ ht => Or.inr ht

theorem insertQCommandsFuel_inOrder (hdriven : Driven cfg hw base strict) (fuel : ℕ) :
    Starts cfg base strict (insertQCommandsFuel cfg hw fuel) fuel := by
  induction fuel with
  | zero =>
    intro ch readLog tags h ho hlt
    exact absurd hlt (Nat.not_lt_zero _)
  | succ fuel ih =>
    intro ch readLog tags h ho hlt hnew
    unfold insertQCommandsFuel
    cases hhead : ch.queue.head with
    | none =>
      have hfirst : (queueRefs readLog tags).head? = none := h.head_eq.symm.trans hhead
      have hempty : tags = [] := by
        cases tags with
        | nil => rfl
        | cons t tags => cases readLog <;> cases hfirst
      subst hempty
      exact ⟨readLog, [], h, Ordered.nil ho.toRequested ho.alone⟩
    | some e =>
      dsimp only
      by_cases hudma : (ch.commandsQueue e).info.isUdma = true
      · rw [if_pos hudma]
        -- the head is a command of the table, since READ LOG EXT is a PIO command
        have hread : readLog = false := by
          rcases h.head_cases hhead with ⟨rfl, hread⟩ | ⟨-, -, -, hread, -⟩
          · rw [(h.readLogExt hread).2.2] at hudma
            cases hudma
          · exact hread
        subst hread
        have hpasses : Passes ch (activateEdma ch) tags tags :=
          Passes.of_order tags rfl
        have hfront := h.activateEdma.toAccounted.commands_takeWhile
        rw [hfront]
        exact insertAll_inOrder hdriven.nodup h.activateEdma (ho.passes hpasses) hnew
      · rw [if_neg hudma]
        exact sendHead_inOrder hdriven.recovers ih h ho hhead (Bool.eq_false_iff.mpr hudma)
          (Nat.lt_succ_iff.mp hlt)

theorem insertQCommandsIntoEdma_inOrder (hdriven : Driven cfg hw base strict) :
    Starts cfg base strict (insertQCommandsIntoEdma cfg hw) (cfg.commandsQueueSize + 2) :=
  insertQCommandsFuel_inOrder hdriven _

/-! ### READ LOG EXT -/

theorem addReadLogExt_passes (ch : Channel) (tags : List ℕ) :
    Passes ch (addReadLogExt ch) tags tags := by
  have hentry : ∀ t, (addReadLogExt ch).commandsQueue (.command t) =
      ch.commandsQueue (.command t) := fun t => by simp [addReadLogExt, Channel.updateEntry]
  have hsame : Passes ch ch tags tags := Passes.of_order tags rfl
  refine { hsame with inEdma := ?_, isUdma := ?_, callOf := ?_ }
  · exact fun t _ => congrArg QueuedCommandEntry.isCommandInEdma (hentry t)
  · exact fun t _ => congrArg (fun entry => entry.info.isUdma) (hentry t)
  · exact fun t _ => congrArg (fun entry => entry.info.commandId) (hentry t)

theorem insertReadLogExtCmnd_inOrder (h : Sound cfg base ch false tags)
    (ho : Fronted cfg base strict ch tags) (hstate : ch.state = .requestSense) :
    InOrder cfg base strict (insertReadLogExtCmnd cfg hw ch) := by
  have hadd := ho.passes (addReadLogExt_passes ch tags)
  have hsound := addReadLogExt_sound h hstate
  have hsend : Passes (addReadLogExt ch)
      (sendNoneUdmaCommand cfg hw (addReadLogExt ch) .readLogExt).2 tags tags :=
    sendNoneUdmaCommand_passes hw hsound.toAccounted fun hne => absurd rfl hne
  have hsent := hsound.quiet (sendNoneUdmaCommand_quiet cfg hw (addReadLogExt ch) .readLogExt)
  have hstay : ∀ {ch' : Channel} {readLog' : Bool}, Sound cfg base ch' readLog' tags →
      Fronted cfg base strict ch' tags → ch'.state = .requestSense →
      InOrder cfg base strict ch' := by
    intro ch' readLog' h' ho' hstate'
    exact ⟨readLog', tags, h', ho'.ordered_of_state (by rw [hstate']; simp)⟩
  rw [insertReadLogExtCmnd_eq]
  split_ifs
  · exact hstay hsound hadd hstate
  · exact hstay hsent (hadd.passes hsend) (hsent.readLogExt rfl).1
  · obtain ⟨hsound', hstate'⟩ := @finishPIOCommand_readLogExt _ _ _ true _ hsent
    have hfinish := @finishPIOCommand_readLogExt_passes _ _ _ true _ hsent
    exact hstay hsound' ((hadd.passes hsend).passes hfinish) hstate'

theorem handlePortError_inOrder (hinsert : Starts cfg base strict insert n)
    (h : Sound cfg base ch false tags) (ho : Fronted cfg base strict ch tags)
    (hstate : ch.state = .requestSense) (hn : tags.length < n) :
    InOrder cfg base strict (handlePortError cfg hw insert ch) := by
  unfold handlePortError
  dsimp only
  generalize hnext : nextErringPort ch.portsWithErrors ch.currPort = port
  have hpasses : Passes ch { ch with currPort := port } tags tags :=
    Passes.of_order tags rfl
  have hsound : Sound cfg base { ch with currPort := port } false tags := h.quiet ⟨rfl, id⟩
  split_ifs
  · exact finishErrorHandling_inOrder hinsert hsound (ho.passes hpasses) hn
  · exact insertReadLogExtCmnd_inOrder hsound (ho.passes hpasses) hstate

/-! ### Commands that fail -/

/-- A tag that is found is the one of a command in the EDMA. -/
theorem getHostTagByDeviceTag_inEdma {deviceTag pmPort : ℕ} (h : Accounted cfg ch false tags)
    (hfound : getHostTagByDeviceTag cfg ch deviceTag pmPort = some t) :
    t ∈ tags ∧ ch.inEdma t = true := by
  rw [getHostTagByDeviceTag, Option.map_eq_some_iff] at hfound
  obtain ⟨e, he, htag⟩ := hfound
  have hmem := List.mem_of_find?_eq_some he
  have hin := List.mem_takeWhile_imp hmem
  have hcommand := List.takeWhile_subset _ hmem
  rw [h.commands_eq] at hcommand
  obtain ⟨t', ht', rfl⟩ := List.mem_map.mp hcommand
  rw [h.hostTag t' ht'] at htag
  subst htag
  exact ⟨ht', hin⟩

/-- What a function does that fails at most one command. -/
structure FailsOne (cfg : ChannelConfig) (base : Ledger) (strict : Prop) (ch ch₁ : Channel)
    (tags tags₁ : List ℕ) : Prop where
  sound : Sound cfg base ch₁ false tags₁
  passes : Passes ch ch₁ tags tags₁
  state : ch₁.state = ch.state
  ordered : Ordered cfg base strict ch tags → Ordered cfg base strict ch₁ tags₁

theorem FailsOne.refl (h : Sound cfg base ch false tags) :
    FailsOne cfg base strict ch ch tags tags :=
  ⟨h, Passes.of_order tags rfl, rfl, id⟩

theorem failsOne_failCommand {deviceTag pmPort : ℕ} (h : Sound cfg base ch false tags)
    (ho : Fronted cfg base strict ch tags)
    (hfound : getHostTagByDeviceTag cfg ch deviceTag pmPort = some t) :
    ∃ tags₁, FailsOne cfg base strict ch (failCommand cfg ch (.command t)) tags tags₁ := by
  obtain ⟨hmem, hin⟩ := getHostTagByDeviceTag_inEdma h.toAccounted hfound
  have hudma := ho.udma t hmem hin
  obtain ⟨t₁, t₂, rfl⟩ := List.append_of_mem hmem
  have hcount : Passes ch ({ ch with edmaQueuedCommands := decr8 ch.edmaQueuedCommands }.callBack
      (ch.commandsQueue (.command t)).info.commandId .error) (t₁ ++ t :: t₂) (t₁ ++ t :: t₂) :=
    Passes.of_order _ rfl
  have hpasses := hcount.trans (@removeCommand_passes cfg _ _ _ _ h.nodup)
  exact ⟨t₁ ++ t₂, h.failCommand, hpasses, rfl, fun ho => ho.remove hudma hpasses⟩

theorem handleEdmaFailedCommand_failsOne (h : Sound cfg base ch false tags)
    (ho : Fronted cfg base strict ch tags) :
    ∃ tags₁, FailsOne cfg base strict ch (handleEdmaFailedCommand cfg hw ch) tags tags₁ := by
  rcases handleEdmaFailedCommand_cases cfg hw ch with hfail | ⟨t, _, _, hfound, hfail⟩
  · rw [hfail]
    exact ⟨tags, FailsOne.refl h⟩
  · rw [hfail]
    exact failsOne_failCommand h ho hfound

theorem readLogExtCompletionCB_inOrder (hinsert : Starts cfg base strict insert n)
    (h : Sound cfg base ch false tags) (ho : Fronted cfg base strict ch tags)
    (hstate : ch.state = .requestSense) (hn : tags.length < n) :
    InOrder cfg base strict (readLogExtCompletionCB cfg hw insert ch) := by
  unfold readLogExtCompletionCB
  rcases parseReadLogExtOutPut_cases cfg hw ch with hparse | ⟨t, hfound, hparse⟩
  · rw [hparse]
    exact ⟨false, tags, h, ho.ordered_of_state (by rw [hstate]; simp)⟩
  · rw [hparse]
    obtain ⟨tags₁, hfails⟩ := failsOne_failCommand h ho hfound
    have hnext : Passes (failCommand cfg ch (.command t))
        { failCommand cfg ch (.command t) with
          currPort := (failCommand cfg ch (.command t)).currPort + 1 } tags₁ tags₁ :=
      Passes.of_order tags₁ rfl
    exact handlePortError_inOrder hinsert (hfails.sound.quiet ⟨rfl, id⟩)
      ((ho.passes hfails.passes).passes hnext) (hfails.state.trans hstate)
      (lt_of_le_of_lt hfails.passes.sub.length_le hn)

/-- The head of the queue is a PIO command that completes. -/
theorem completePIOCommand_inOrder (hdriven : Driven cfg hw base strict)
    (h : Sound cfg base ch readLog tags)
    (ho : Fronted cfg base strict ch tags) (hhead : ch.queue.head = some e)
    (hpio : (ch.commandsQueue e).info.isUdma = false) (failed : Bool) :
    InOrder cfg base strict (completePIOCommand cfg hw ch e failed) := by
  have hinsert := @insertQCommandsIntoEdma_inOrder _ _ _ _ hdriven
  have hn := h.length_lt
  unfold completePIOCommand
  cases failed with
  | true => exact completePIOCommandWith_failed_inOrder hdriven.recovers hinsert h ho hhead hn.le
  | false =>
    unfold completePIOCommandWith
    dsimp only
    rcases h.head_cases hhead with ⟨rfl, rfl⟩ | ⟨t, rest, rfl, rfl, rfl⟩
    · obtain ⟨-, htag, -⟩ := h.readLogExt rfl
      rw [if_pos htag, if_neg Bool.false_ne_true]
      obtain ⟨hsound, hstate⟩ := @finishPIOCommand_readLogExt _ _ _ false _ h
      exact readLogExtCompletionCB_inOrder hinsert hsound
        (ho.passes (finishPIOCommand_readLogExt_passes h)) hstate hn
    · rw [if_neg (h.hostTag_ne List.mem_cons_self), if_neg Bool.false_ne_true]
      have hnone := ho.none_inEdma hpio
      have hpasses : Passes ch (finishPIOCommand cfg ch (.command t) false) (t :: rest) rest :=
        @finishPIOCommand_command_passes _ _ [] rest _ _ _ _ h
      have hsound : Sound cfg base (finishPIOCommand cfg ch (.command t) false) false rest :=
        @finishPIOCommand_command _ _ [] rest _ _ _ _ h
      have hfronted := ho.passes hpasses
      refine hinsert _ false rest hsound hfronted (Nat.lt_of_succ_lt hn) fun x hx => ?_
      apply hfronted.notMem hx
      rw [hpasses.inEdma x hx]
      exact hnone x (List.mem_cons_of_mem t hx)

/-! ### Stopping and flushing -/

/-- The channel is flushed and reset. -/
theorem flushReset_ordered (ho : Fronted cfg base strict ch tags) :
    Ordered cfg base strict (resetEdmaChannel cfg (flushDmaQueue cfg ch)) [] := by
  rw [flushDmaQueue_eq]
  exact Ordered.nil (Requested.empty rfl rfl) (ho.alone.of_sent rfl)

/-- The EDMA is stopped, or the channel is flushed and reset. -/
theorem deactivateEdma_inOrder (h : Sound cfg base ch readLog tags)
    (ho : Ordered cfg base strict ch tags) :
    ∃ readLog₁ tags₁, (readLog₁ = true → readLog = true) ∧
      Sound cfg base (deactivateEdma cfg hw ch) readLog₁ tags₁ ∧
      Ordered cfg base strict (deactivateEdma cfg hw ch) tags₁ := by
  unfold deactivateEdma
  dsimp only
  by_cases hstops : hw.stops = true
  · rw [if_pos hstops]
    exact ⟨readLog, tags, id, h.quiet ⟨rfl, id⟩,
      ho.passes (Passes.of_order tags rfl)⟩
  · rw [if_neg hstops]
    have hpasses : Passes ch { ch with
        edmaActive := false, edmaHalted := false, queueCommandsEnabled := false } tags tags :=
      Passes.of_order tags rfl
    have hsound : Sound cfg base { ch with
        edmaActive := false, edmaHalted := false, queueCommandsEnabled := false } readLog tags :=
      h.quiet ⟨rfl, id⟩
    exact ⟨false, [], fun hr => (by cases hr), hsound.flushReset,
      flushReset_ordered (ho.toFronted.passes hpasses)⟩

/-! ### Handling errors -/

/-- The state of the channel leaves idle. -/
theorem Passes.of_state (tags : List ℕ) (hentries : ch₁.commandsQueue = ch.commandsQueue)
    (hrequests : ch₁.log.requests = ch.log.requests) (hreq : ch₁.reqInPtr = ch.reqInPtr)
    (hsent : ch₁.log.sent = ch.log.sent) (hstate : ch₁.state ≠ .idle) :
    Passes ch ch₁ tags tags :=
  Passes.of_entries tags hentries hrequests hreq hsent fun hidle => absurd hidle hstate

/-- What `enterRequestSenseState` does when the EDMA has been stopped. -/
def senseErrors (cfg : ChannelConfig) (hw : Hardware) (ch : Channel) : Channel :=
  if cfg.queuedDma = .notQueued then
    if ¬ cfg.fbsEnabled then ch
    else finishErrorHandling (insertQCommandsIntoEdma cfg hw) ch
  else if hw.ataBusy then { ch with state := .waitForBusy }
  else
    let ch := { ch with state := .requestSense, currPort := 0 }
    if cfg.queuedDma = .queued then softResetErringPorts cfg hw ch
    else handlePortError cfg hw (insertQCommandsIntoEdma cfg hw) ch

theorem senseErrors_inOrder (hdriven : Driven cfg hw base strict) (h : Sound cfg base ch false tags)
    (ho : Ordered cfg base strict ch tags) : InOrder cfg base strict (senseErrors cfg hw ch) := by
  have hinsert := @insertQCommandsIntoEdma_inOrder _ _ _ _ hdriven
  have hsense : Fronted cfg base strict { ch with state := .requestSense, currPort := 0 } tags :=
    ho.toFronted.passes (Passes.of_state tags rfl rfl rfl rfl (by simp))
  have hsound : Sound cfg base { ch with state := .requestSense, currPort := 0 } false tags :=
    h.congr rfl fun hr => by cases hr
  unfold senseErrors
  split_ifs
  · exact finishErrorHandling_inOrder hinsert h ho.toFronted h.length_lt
  · exact ⟨false, tags, h, ho⟩
  · have hwait : Fronted cfg base strict { ch with state := .waitForBusy } tags :=
      ho.toFronted.passes (Passes.of_state tags rfl rfl rfl rfl (by simp))
    exact ⟨false, tags, h.congr rfl fun hr => (by cases hr), hwait.ordered_of_state (by simp)⟩
  · exact finishErrorHandling_inOrder hinsert (hsound.quiet ⟨rfl, id⟩)
      (hsense.passes (Passes.of_order tags rfl)) h.length_lt
  · exact handlePortError_inOrder hinsert hsound hsense rfl h.length_lt

theorem enterRequestSenseState_inOrder (hdriven : Driven cfg hw base strict)
    (h : Sound cfg base ch false tags)
    (ho : Ordered cfg base strict ch tags) :
    InOrder cfg base strict (enterRequestSenseState cfg hw ch) := by
  have hpasses : Passes ch { ch with
      useVendorUniqGen2WA := decide (cfg.generation = .genII) && hw.edmaState70 } tags tags :=
    Passes.of_order tags rfl
  have hflag : Sound cfg base { ch with
      useVendorUniqGen2WA := decide (cfg.generation = .genII) && hw.edmaState70 } false tags :=
    h.congr rfl fun hr => by cases hr
  obtain ⟨readLog₁, tags₁, hread, h₁, ho₁⟩ :=
    @deactivateEdma_inOrder _ hw _ _ _ _ _ hflag (ho.passes hpasses)
  obtain rfl : readLog₁ = false := by
    cases readLog₁ with
    | false => rfl
    | true => exact absurd (hread rfl) Bool.false_ne_true
  exact senseErrors_inOrder hdriven h₁ ho₁

theorem setAbortedCommands_passes (cfg : ChannelConfig) (hw : Hardware) (ch : Channel)
    (tags : List ℕ) : Passes ch (setAbortedCommands cfg hw ch) tags tags := by
  have hfold : ∀ (es : List EntryRef) (ch : Channel), Passes ch (es.foldl (fun ch e =>
      if isAborted cfg hw ch e then
        ch.updateEntry e fun entry => { entry with commandAborted := true }
      else ch) ch) tags tags := by
    intro es
    induction es with
    | nil => exact fun ch => Passes.of_order tags rfl
    | cons e es ih =>
      intro ch
      rw [List.foldl_cons]
      refine Passes.trans ?_ (ih _)
      split_ifs
      · exact Passes.of_update tags rfl rfl rfl
      · exact Passes.of_order tags rfl
  unfold setAbortedCommands
  split_ifs
  · exact hfold _ ch
  · exact Passes.of_order tags rfl

theorem firstError_passes (ch : Channel) (tags : List ℕ) :
    Passes ch (firstError ch) tags tags ∧ (firstError ch).state ≠ .idle := by
  unfold firstError
  by_cases hidle : ch.state = .idle
  · rw [if_pos hidle]
    exact ⟨Passes.of_state tags rfl rfl rfl rfl (by simp), by simp⟩
  · rw [if_neg hidle]
    exact ⟨Passes.of_order tags rfl, hidle⟩

/-- The commands that the drive aborts are marked, and the errors may be handled at once. -/
theorem handleAborted_inOrder (hdriven : Driven cfg hw base strict)
    (h : Sound cfg base ch false tags)
    (ho : Fronted cfg base strict ch tags) (hstate : ch.state ≠ .idle) :
    InOrder cfg base strict (handleAborted cfg hw ch) := by
  have hports : Passes ch (updatePortsWithErrors hw ch) tags tags :=
    Passes.of_order tags rfl
  have hquiet : Quiet ch (updatePortsWithErrors hw ch) := ⟨rfl, id⟩
  have hmarked := hports.trans (setAbortedCommands_passes cfg hw (updatePortsWithErrors hw ch) tags)
  have hsound := h.quiet (hquiet.trans (setAbortedCommands_quiet cfg hw _))
  have hordered := (ho.passes hmarked).ordered_of_state fun hidle => hstate (hmarked.idle hidle)
  unfold handleAborted
  dsimp only
  split_ifs
  · exact ⟨false, tags, hsound, hordered⟩
  · exact enterRequestSenseState_inOrder hdriven hsound hordered

end Mv88fxx81.Sata.Core
