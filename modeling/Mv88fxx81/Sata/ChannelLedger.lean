import Mv88fxx81.Lib.Run
import Mv88fxx81.Sata.ChannelAccounts

/-!
# Every command is called back once

A command that has been accepted is in the queue until its callback is called.
This is kept beside the accounts by all that a channel does, provided that the
EDMA stops when a PIO command has to be started and that the channel is not
enabled while READ LOG EXT runs.
-/

namespace Mv88fxx81.Sata.Core

variable {cfg : ChannelConfig} {hw : Hardware} {ch ch' ch'' : Channel} {e : EntryRef}
  {tags t₁ t₂ : List ℕ} {readLog : Bool} {t : ℕ} {info : CommandInfo} {failed : Bool}

/-- What the accounts read of an entry. -/
structure EntryAccount where
  isFreeEntry : Bool
  hostTag : ℕ
  deviceTag : ℕ
  pmPort : Fin 16
  commandId : ℕ
  isUdma : Bool

def QueuedCommandEntry.account (entry : QueuedCommandEntry) : EntryAccount :=
  ⟨entry.isFreeEntry, entry.hostTag, entry.deviceTag, entry.info.pmPort, entry.info.commandId,
    entry.info.isUdma⟩

/-- What the accounts read of a channel. -/
structure ChannelAccount where
  entries : EntryRef → EntryAccount
  queue : CommandsQueue
  hostTagsPool : TagsStack
  deviceTagsPool : Fin 16 → TagsStack
  outstandingCommands : ℕ
  portQueuedCommands : Fin 16 → ℕ
  noneUdmaOutstandingCommands : ℕ
  calls : ℕ
  accepted : List ℕ
  callBacks : List (ℕ × CompletionType)

def Channel.account (ch : Channel) : ChannelAccount where
  entries := fun e => (ch.commandsQueue e).account
  queue := ch.queue
  hostTagsPool := ch.hostTagsPool
  deviceTagsPool := ch.deviceTagsPool
  outstandingCommands := ch.outstandingCommands
  portQueuedCommands := ch.portQueuedCommands
  noneUdmaOutstandingCommands := ch.noneUdmaOutstandingCommands
  calls := ch.log.calls
  accepted := ch.log.accepted
  callBacks := ch.log.callBacks

theorem account_updateEntry {f : QueuedCommandEntry → QueuedCommandEntry}
    (hf : (f (ch.commandsQueue e)).account = (ch.commandsQueue e).account) :
    (ch.updateEntry e f).account = ch.account := by
  have hentries : (fun e' => ((ch.updateEntry e f).commandsQueue e').account) =
      fun e' => (ch.commandsQueue e').account := by
    funext e'
    by_cases he : e' = e
    · rw [he, ← hf]
      simp [Channel.updateEntry]
    · simp [Channel.updateEntry, Function.update_of_ne he]
  unfold Channel.account
  rw [hentries]
  rfl

theorem account_entry (hsame : ch'.account = ch.account) (e : EntryRef) :
    (ch'.commandsQueue e).account = (ch.commandsQueue e).account :=
  congrFun (congrArg ChannelAccount.entries hsame) e

/-- A value that is read from the accounts of entries. -/
theorem entriesOf_account (hsame : ch'.account = ch.account) (tags : List ℕ) :
    (ch'.entriesOf tags).map (·.account) = (ch.entriesOf tags).map (·.account) := by
  simp only [Channel.entriesOf, List.map_map]
  apply List.map_congr_left
  intro t _
  exact account_entry hsame (.command t)

theorem countP_account {l l' : List QueuedCommandEntry}
    (hsame : l'.map (·.account) = l.map (·.account)) (p : EntryAccount → Bool) :
    l'.countP (fun x => p x.account) = l.countP fun x => p x.account := by
  have hcount := congrArg (List.countP p) hsame
  rwa [List.countP_map, List.countP_map] at hcount

theorem filter_map_account {l l' : List QueuedCommandEntry} {β : Type}
    (hsame : l'.map (·.account) = l.map (·.account)) (p : EntryAccount → Bool)
    (f : EntryAccount → β) :
    (l'.filter fun x => p x.account).map (fun x => f x.account) =
      (l.filter fun x => p x.account).map fun x => f x.account := by
  have hvalue := congrArg (fun l => (l.filter p).map f) hsame
  simpa only [List.filter_map, List.map_map, Function.comp_def] using hvalue

/-- The accounts depend on what they read only. -/
theorem Accounted.congr (h : Accounted cfg ch readLog tags) (hsame : ch'.account = ch.account) :
    Accounted cfg ch' readLog tags := by
  have hentries := entriesOf_account hsame tags
  have hlength := congrArg List.length hentries
  rw [List.length_map, List.length_map] at hlength
  constructor
  case links =>
    have hqueue : ch'.queue = ch.queue := congrArg ChannelAccount.queue hsame
    rw [hqueue]
    exact h.links
  case inUse =>
    intro t
    have hfree : (ch'.commandsQueue (.command t)).isFreeEntry =
        (ch.commandsQueue (.command t)).isFreeEntry :=
      congrArg EntryAccount.isFreeEntry (account_entry hsame (.command t))
    rw [h.inUse t, hfree]
  case hostTag =>
    intro t ht
    exact (congrArg EntryAccount.hostTag (account_entry hsame (.command t))).trans (h.hostTag t ht)
  case hostTags =>
    have hpool : ch'.hostTagsPool = ch.hostTagsPool := congrArg ChannelAccount.hostTagsPool hsame
    rw [hpool]
    exact h.hostTags
  case deviceTags =>
    intro pool
    have hpool : ch'.deviceTagsPool = ch.deviceTagsPool :=
      congrArg ChannelAccount.deviceTagsPool hsame
    have htags := filter_map_account hentries (fun x => tagPool cfg x.pmPort = pool)
      EntryAccount.deviceTag
    rw [hpool]
    have hold := h.deviceTags pool
    change (((ch.entriesOf tags).filter fun x => tagPool cfg x.account.pmPort = pool).map
      (fun x => x.account.deviceTag) ++ (ch.deviceTagsPool pool).free).Perm _ at hold
    rw [← htags] at hold
    exact hold
  case outstanding =>
    rw [hlength, ← h.outstanding]
    exact congrArg ChannelAccount.outstandingCommands hsame
  case noneUdma =>
    have hcount := countP_account hentries fun x => ¬ x.isUdma
    refine Eq.trans ?_ (h.noneUdma.trans hcount.symm)
    exact congrArg ChannelAccount.noneUdmaOutstandingCommands hsame
  case ports =>
    intro p
    have hcount := countP_account hentries fun x => x.pmPort = p
    refine Eq.trans ?_ ((h.ports p).trans hcount.symm)
    exact congrFun (congrArg ChannelAccount.portQueuedCommands hsame) p

/-- What the layer above knows: the calls it has made, the commands that have been accepted, and a
command that is being queued. -/
structure Ledger where
  calls : ℕ
  accepted : List ℕ
  pending : List ℕ

variable {base : Ledger}

/-- The channel holds the commands `tags`, and the callbacks of the others have been called. READ
LOG EXT is only in the queue while the ports with errors are asked. -/
structure Sound (cfg : ChannelConfig) (base : Ledger) (ch : Channel) (readLog : Bool)
    (tags : List ℕ) : Prop extends Accounted cfg ch readLog tags where
  readLogExt : readLog = true → ch.state = .requestSense ∧
    (ch.commandsQueue .readLogExt).hostTag = 0xff ∧
    (ch.commandsQueue .readLogExt).info.isUdma = false
  calls : ch.log.calls = base.calls
  accepted : ch.log.accepted = base.accepted
  ledger : (ch.log.callBacks.map Prod.fst ++
    (ch.entriesOf tags).map (·.info.commandId)).Perm (base.accepted ++ base.pending)

def Good (cfg : ChannelConfig) (base : Ledger) (ch : Channel) : Prop :=
  ∃ readLog tags, Sound cfg base ch readLog tags

/-- A change that the accounts do not see and that does not disturb READ LOG EXT. -/
structure Quiet (ch ch' : Channel) : Prop where
  account : ch'.account = ch.account
  state : ch.state = .requestSense → ch'.state = .requestSense

theorem Quiet.refl (ch : Channel) : Quiet ch ch := ⟨rfl, id⟩

theorem Quiet.trans (h : Quiet ch ch') (h' : Quiet ch' ch'') : Quiet ch ch'' :=
  ⟨h'.account.trans h.account, fun hs => h'.state (h.state hs)⟩

/-- A change that the accounts do not see. -/
theorem Sound.congr (h : Sound cfg base ch readLog tags) (hsame : ch'.account = ch.account)
    (hread : readLog = true → ch'.state = .requestSense) :
    Sound cfg base ch' readLog tags := by
  refine
    { h.toAccounted.congr hsame with
      readLogExt := ?_
      calls := ?_
      accepted := ?_
      ledger := ?_ }
  · intro hr
    obtain ⟨-, htag, hudma⟩ := h.readLogExt hr
    have hentry := account_entry hsame .readLogExt
    exact ⟨hread hr, (congrArg EntryAccount.hostTag hentry).trans htag,
      (congrArg EntryAccount.isUdma hentry).trans hudma⟩
  · exact (congrArg ChannelAccount.calls hsame).trans h.calls
  · exact (congrArg ChannelAccount.accepted hsame).trans h.accepted
  · have hids := congrArg (List.map EntryAccount.commandId) (entriesOf_account hsame tags)
    rw [List.map_map, List.map_map] at hids
    have hback : ch'.log.callBacks = ch.log.callBacks := congrArg ChannelAccount.callBacks hsame
    rw [hback]
    exact (List.Perm.append_left _ (List.Perm.of_eq hids)).trans h.ledger

theorem Sound.quiet (h : Sound cfg base ch readLog tags) (hq : Quiet ch ch') :
    Sound cfg base ch' readLog tags := by
  apply h.congr hq.account
  intro hr
  exact hq.state (h.readLogExt hr).1

theorem Good.quiet (h : Good cfg base ch) (hq : Quiet ch ch') : Good cfg base ch' := by
  obtain ⟨readLog, tags, h⟩ := h
  exact ⟨readLog, tags, h.quiet hq⟩

/-- READ LOG EXT is not in the queue in another state. -/
theorem Sound.readLog_eq_false (h : Sound cfg base ch readLog tags)
    (hstate : ch.state ≠ .requestSense) : readLog = false := by
  cases readLog with
  | false => rfl
  | true => exact absurd (h.readLogExt rfl).1 hstate

/-! ### Quiet functions -/

theorem quiet_updateEntry {f : QueuedCommandEntry → QueuedCommandEntry}
    (hf : (f (ch.commandsQueue e)).account = (ch.commandsQueue e).account) :
    Quiet ch (ch.updateEntry e f) :=
  ⟨account_updateEntry hf, id⟩

theorem edmaReqQueueInsert_quiet (cfg : ChannelConfig) (ch : Channel) (e : EntryRef) :
    Quiet ch (edmaReqQueueInsert cfg ch e) := by
  have hentry : Quiet ch (ch.updateEntry e fun entry =>
      { entry with isCommandInEdma := true, commandAborted := false }) := quiet_updateEntry rfl
  exact hentry.trans ⟨rfl, id⟩

theorem foldl_quiet {α : Type} {f : Channel → α → Channel} (hf : ∀ ch a, Quiet ch (f ch a))
    (l : List α) (ch : Channel) : Quiet ch (l.foldl f ch) := by
  induction l generalizing ch with
  | nil => exact Quiet.refl ch
  | cons a l ih => exact (hf ch a).trans (ih (f ch a))

theorem isUdma_countAfterSend (params : CommandParams) (p : Fin 16) (c : ℕ) :
    CommandInfo.isUdma ⟨p, c, countAfterSend params⟩ = CommandInfo.isUdma ⟨p, c, params⟩ := by
  cases params with
  | udma params => rfl
  | noneUdma protocolType count =>
    cases protocolType <;> simp only [countAfterSend, CommandInfo.isUdma]

theorem sendNoneUdmaCommand_quiet (cfg : ChannelConfig) (hw : Hardware) (ch : Channel)
    (e : EntryRef) : Quiet ch (sendNoneUdmaCommand cfg hw ch e).2 := by
  unfold sendNoneUdmaCommand
  cases hw.sends e with
  | notReady => exact Quiet.refl ch
  | failed => exact ⟨rfl, id⟩
  | done =>
    have hlog : Quiet ch (ch.logSent cfg e) := ⟨rfl, id⟩
    dsimp only
    refine hlog.trans (quiet_updateEntry ?_)
    simp only [QueuedCommandEntry.account, isUdma_countAfterSend]

theorem setAbortedCommands_quiet (cfg : ChannelConfig) (hw : Hardware) (ch : Channel) :
    Quiet ch (setAbortedCommands cfg hw ch) := by
  unfold setAbortedCommands
  split_ifs with hactive
  · apply foldl_quiet
    intro ch e
    split_ifs
    · exact quiet_updateEntry rfl
    · exact Quiet.refl ch
  · exact Quiet.refl ch

theorem firstError_quiet (ch : Channel) : Quiet ch (firstError ch) := by
  unfold firstError
  split_ifs with hidle
  · refine ⟨rfl, fun hs => ?_⟩
    rw [hidle] at hs
    cases hs
  · exact Quiet.refl ch

theorem deactivateEdma_quiet (hstops : hw.stops = true) (ch : Channel) :
    Quiet ch (deactivateEdma cfg hw ch) := by
  unfold deactivateEdma
  simp only [hstops, if_true]
  exact ⟨rfl, id⟩

/-! ### Flushing and completing commands -/

/-- The entries in use. -/
def usedTags (cfg : ChannelConfig) (ch : Channel) : List ℕ :=
  (List.range cfg.commandsQueueSize).filter fun t => ¬ (ch.commandsQueue (.command t)).isFreeEntry

theorem Accounted.perm_usedTags (h : Accounted cfg ch readLog tags) :
    tags.Perm (usedTags cfg ch) := by
  have hnodup : (usedTags cfg ch).Nodup := List.nodup_range.filter _
  rw [List.perm_ext_iff_of_nodup h.nodup hnodup]
  intro t
  rw [h.inUse t]
  simp [usedTags]

/-- The callbacks of a flush. -/
theorem flushDmaQueue_eq (cfg : ChannelConfig) (ch : Channel) :
    flushDmaQueue cfg ch = { ch with log := { ch.log with
      callBacks := ch.log.callBacks ++
        (ch.entriesOf (usedTags cfg ch)).map fun x =>
          (x.info.commandId, CompletionType.abort) } } := by
  have hfold : ∀ (l : List ℕ) (ch : Channel),
      l.foldl (fun ch t =>
        ch.callBack (ch.commandsQueue (.command t)).info.commandId .abort) ch =
        { ch with log := { ch.log with
          callBacks := ch.log.callBacks ++
            (ch.entriesOf l).map fun x => (x.info.commandId, CompletionType.abort) } } := by
    intro l
    induction l with
    | nil =>
      intro ch
      simp [Channel.entriesOf]
    | cons t l ih =>
      intro ch
      rw [List.foldl_cons, ih]
      simp [Channel.callBack, Channel.entriesOf]
  exact hfold _ ch

/-- After a reset the channel is empty. -/
theorem resetEdmaChannel_accounted (cfg : ChannelConfig) (ch : Channel) :
    Accounted cfg (resetEdmaChannel cfg ch) false [] := by
  constructor
  case links => exact ⟨rfl, rfl⟩
  case inUse =>
    intro t
    by_cases ht : t < cfg.commandsQueueSize
    · simp [resetEdmaChannel, resetEdmaQPointers, ht]
    · simp [ht]
  case hostTag => simp
  case hostTags => exact initTagsStack_free _
  case deviceTags =>
    intro pool
    exact initTagsStack_free _
  case outstanding => rfl
  case noneUdma => rfl
  case ports =>
    intro p
    rfl

/-- A channel that has been flushed and reset has called back all its commands. -/
theorem Sound.flushReset (h : Sound cfg base ch readLog tags) :
    Sound cfg base (resetEdmaChannel cfg (flushDmaQueue cfg ch)) false [] := by
  refine { resetEdmaChannel_accounted cfg _ with
    readLogExt := ?_, calls := ?_, accepted := ?_, ledger := ?_ }
  · intro hr
    cases hr
  · rw [flushDmaQueue_eq]
    exact h.calls
  · rw [flushDmaQueue_eq]
    exact h.accepted
  · have hback : (resetEdmaChannel cfg (flushDmaQueue cfg ch)).log.callBacks =
        ch.log.callBacks ++ (ch.entriesOf (usedTags cfg ch)).map fun x =>
          (x.info.commandId, CompletionType.abort) := by
      rw [flushDmaQueue_eq]
      rfl
    have hnone : (resetEdmaChannel cfg (flushDmaQueue cfg ch)).entriesOf [] = [] := rfl
    rw [hback, hnone, List.map_nil, List.append_nil, List.map_append, List.map_map]
    refine List.Perm.trans (List.Perm.append_left _ ?_) h.ledger
    exact (h.perm_usedTags.symm.map _).map _

theorem Good.flushReset (h : Good cfg base ch) :
    Sound cfg base (resetEdmaChannel cfg (flushDmaQueue cfg ch)) false [] := by
  obtain ⟨readLog, tags, h⟩ := h
  exact h.flushReset

/-- A command is removed and called back. -/
theorem Sound.complete (h : Sound cfg base ch readLog (t₁ ++ t :: t₂)) (compType : CompletionType) :
    Sound cfg base ((removeCommand cfg ch (.command t)).callBack
      (ch.commandsQueue (.command t)).info.commandId compType) readLog (t₁ ++ t₂) := by
  have hnodup := h.nodup
  rw [List.nodup_middle, List.nodup_cons] at hnodup
  have hremoved := removeCommand_accounted h.toAccounted
  refine { hremoved with readLogExt := ?_, calls := h.calls, accepted := h.accepted, ledger := ?_ }
  · intro hr
    exact h.readLogExt hr
  · have hentries := @removeCommand_entriesOf cfg ch _ _ hnodup.1
    have hledger := h.ledger
    refine List.Perm.trans ?_ hledger
    change ((ch.log.callBacks ++ [((ch.commandsQueue (.command t)).info.commandId, compType)]).map
      Prod.fst ++ ((removeCommand cfg ch (.command t)).entriesOf (t₁ ++ t₂)).map _).Perm _
    rw [hentries, List.map_append, List.append_assoc]
    apply List.Perm.append_left
    simp only [Channel.entriesOf, List.map_append, List.map_cons, List.map_nil,
      List.cons_append, List.nil_append]
    exact List.perm_middle.symm

/-- The head of the queue. -/
theorem Accounted.head_eq (h : Accounted cfg ch readLog tags) :
    ch.queue.head = (queueRefs readLog tags).head? :=
  h.links.head_eq

theorem Accounted.readLog_eq_false_of_head (h : Accounted cfg ch readLog tags)
    (hhead : ch.queue.head ≠ some .readLogExt) : readLog = false := by
  cases readLog with
  | false => rfl
  | true => exact absurd h.head_eq hhead

/-- The loops over the queue visit all its entries. -/
theorem Accounted.commands_eq (h : Accounted cfg ch readLog tags) :
    ch.commands cfg = queueRefs readLog tags := by
  apply DoublyLinked.walk_eq h.links.forward
  have hlength := h.length_add_top
  have hsize := (hostTagsNum_le cfg).2
  unfold queueRefs
  rw [List.length_append, List.length_map]
  split_ifs
  · simp only [List.length_cons, List.length_nil]
    omega
  · simp only [List.length_nil]
    omega

/-- A tag that is found in the EDMA is the one of a command. -/
theorem getHostTagByDeviceTag_mem {deviceTag pmPort : ℕ} (h : Accounted cfg ch false tags)
    (hfound : getHostTagByDeviceTag cfg ch deviceTag pmPort = some t) : t ∈ tags := by
  unfold getHostTagByDeviceTag at hfound
  rw [Option.map_eq_some_iff] at hfound
  obtain ⟨e, he, htag⟩ := hfound
  have hmem := List.takeWhile_subset _ (List.mem_of_find?_eq_some he)
  rw [h.commands_eq] at hmem
  simp only [queueRefs, Bool.false_eq_true, if_false, List.nil_append, List.mem_map] at hmem
  obtain ⟨t', ht', rfl⟩ := hmem
  rw [h.hostTag t' ht'] at htag
  rwa [← htag]

theorem Sound.failCommand (h : Sound cfg base ch readLog (t₁ ++ t :: t₂)) :
    Sound cfg base (failCommand cfg ch (.command t)) readLog (t₁ ++ t₂) :=
  (h.complete .error).congr rfl fun hr => (h.readLogExt hr).1

/-- Parsing the answer of READ LOG EXT does nothing, or fails a command of the current port. -/
theorem parseReadLogExtOutPut_cases (cfg : ChannelConfig) (hw : Hardware) (ch : Channel) :
    parseReadLogExtOutPut cfg hw ch = (false, ch) ∨
      ∃ t, getHostTagByDeviceTag cfg ch hw.readLogExt.tag ch.currPort = some t ∧
        parseReadLogExtOutPut cfg hw ch = (true, failCommand cfg ch (.command t)) := by
  unfold parseReadLogExtOutPut
  cases hfound : getHostTagByDeviceTag cfg ch hw.readLogExt.tag ch.currPort with
  | none =>
    left
    split_ifs
    · rfl
    · rfl
    · rfl
  | some t =>
    dsimp only
    split_ifs
    · exact Or.inl rfl
    · exact Or.inl rfl
    · exact Or.inl rfl
    · exact Or.inr ⟨t, rfl, rfl⟩
    · exact Or.inl rfl
    · exact Or.inl rfl

/-- Parsing the answer of READ LOG EXT fails at most one command. -/
theorem parseReadLogExtOutPut_sound (h : Sound cfg base ch false tags) :
    ∃ tags', Sound cfg base (parseReadLogExtOutPut cfg hw ch).2 false tags' ∧
      (parseReadLogExtOutPut cfg hw ch).2.state = ch.state := by
  rcases parseReadLogExtOutPut_cases cfg hw ch with hparse | ⟨t, hfound, hparse⟩
  · rw [hparse]
    exact ⟨tags, h, rfl⟩
  · rw [hparse]
    obtain ⟨t₁, t₂, htags⟩ := List.append_of_mem (getHostTagByDeviceTag_mem h.toAccounted hfound)
    rw [htags] at h
    exact ⟨t₁ ++ t₂, h.failCommand, rfl⟩

/-- An error of the EDMA fails at most one command. -/
theorem handleEdmaFailedCommand_cases (cfg : ChannelConfig) (hw : Hardware) (ch : Channel) :
    handleEdmaFailedCommand cfg hw ch = ch ∨
      ∃ t deviceTag pmPort, getHostTagByDeviceTag cfg ch deviceTag pmPort = some t ∧
        handleEdmaFailedCommand cfg hw ch = failCommand cfg ch (.command t) := by
  unfold handleEdmaFailedCommand
  dsimp only
  cases failedDeviceTag cfg hw ch (if cfg.pmSupported = true then hw.ifStatusPort else 0) with
  | none => exact Or.inl rfl
  | some deviceTag =>
    dsimp only
    cases hfound : getHostTagByDeviceTag cfg ch deviceTag
        ((if cfg.pmSupported = true then hw.ifStatusPort else 0 : Fin 16) : ℕ) with
    | none => exact Or.inl rfl
    | some t =>
      dsimp only
      split_ifs
      · exact Or.inl rfl
      · exact Or.inr ⟨t, deviceTag, _, hfound, rfl⟩

theorem handleEdmaFailedCommand_sound (h : Sound cfg base ch false tags) :
    ∃ tags', Sound cfg base (handleEdmaFailedCommand cfg hw ch) false tags' := by
  rcases handleEdmaFailedCommand_cases cfg hw ch with hfail | ⟨t, _, _, hfound, hfail⟩
  · rw [hfail]
    exact ⟨tags, h⟩
  · rw [hfail]
    obtain ⟨t₁, t₂, htags⟩ := List.append_of_mem (getHostTagByDeviceTag_mem h.toAccounted hfound)
    rw [htags] at h
    exact ⟨t₁ ++ t₂, h.failCommand⟩

/-! ### Recovering from errors -/

/-- The host tag of a command is not the one of READ LOG EXT. -/
theorem Accounted.hostTag_ne (h : Accounted cfg ch readLog tags) (ht : t ∈ tags) :
    (ch.commandsQueue (.command t)).hostTag ≠ 0xff := by
  have hmem : t ∈ tags ++ ch.hostTagsPool.free := List.mem_append_left _ ht
  rw [h.hostTags.mem_iff, List.mem_range] at hmem
  have hsmall := (hostTagsNum_le cfg).1
  rw [h.hostTag t ht]
  omega

/-- READ LOG EXT is taken out of the queue. -/
theorem Sound.removeReadLogExt (h : Sound cfg base ch true tags) :
    Sound cfg base { ch with queue := commandsQueueRemove ch.queue .readLogExt } false tags := by
  have hlinks : (commandsQueueRemove ch.queue .readLogExt).Lists (queueRefs false tags) :=
    @commandsQueueRemove_lists _ _ [] _ h.links
  exact { h with
    links := hlinks
    readLogExt := fun hr => by cases hr }

theorem finishPIOCommand_readLogExt (h : Sound cfg base ch true tags) :
    Sound cfg base (finishPIOCommand cfg ch .readLogExt failed) false tags ∧
      (finishPIOCommand cfg ch .readLogExt failed).state = .requestSense := by
  obtain ⟨hstate, htag, -⟩ := h.readLogExt rfl
  unfold finishPIOCommand
  simp only [htag, if_true]
  cases failed with
  | false => exact ⟨h.removeReadLogExt.congr rfl (fun hr => by cases hr), hstate⟩
  | true => exact ⟨h.removeReadLogExt.congr rfl (fun hr => by cases hr), hstate⟩

theorem finishPIOCommand_command (h : Sound cfg base ch readLog (t₁ ++ t :: t₂)) :
    Sound cfg base (finishPIOCommand cfg ch (.command t) failed) readLog (t₁ ++ t₂) := by
  have htag := h.hostTag_ne (t := t) (by simp)
  unfold finishPIOCommand
  simp only [htag, if_false]
  cases failed with
  | false =>
    have hquiet : Quiet ch { ch with recoveredErrorsCounter := 0 } := ⟨rfl, id⟩
    exact (h.quiet hquiet).complete .normal
  | true =>
    have hquiet : Quiet ch { ch with queueCommandsEnabled := false } := ⟨rfl, id⟩
    exact (h.quiet hquiet).complete .error

/-- READ LOG EXT is put in front of the queue. -/
def addReadLogExt (ch : Channel) : Channel :=
  { ch.updateEntry .readLogExt fun _ =>
      { isFreeEntry := false
        hostTag := 0xff
        deviceTag := 0xff
        isCommandInEdma := false
        commandAborted := false
        info := ⟨Fin.ofNat 16 ch.currPort, 0, .noneUdma .pioDataIn 256⟩ } with
    queue := commandsQueueAddHead ch.queue .readLogExt }

theorem insertReadLogExtCmnd_eq (cfg : ChannelConfig) (hw : Hardware) (ch : Channel) :
    insertReadLogExtCmnd cfg hw ch =
      if ch.useVendorUniqGen2WA then addReadLogExt ch
      else if (sendNoneUdmaCommand cfg hw (addReadLogExt ch) .readLogExt).1 then
        (sendNoneUdmaCommand cfg hw (addReadLogExt ch) .readLogExt).2
      else finishPIOCommand cfg (sendNoneUdmaCommand cfg hw (addReadLogExt ch) .readLogExt).2
        .readLogExt true :=
  rfl

theorem addReadLogExt_sound (h : Sound cfg base ch false tags) (hstate : ch.state = .requestSense) :
    Sound cfg base (addReadLogExt ch) true tags := by
  have hlinks : (commandsQueueAddHead ch.queue .readLogExt).Lists (queueRefs true tags) :=
    commandsQueueAddHead_lists h.links readLogExt_notMem_queueRefs
  exact { h with
    links := hlinks
    readLogExt := fun _ => ⟨hstate, rfl, rfl⟩ }

theorem insertReadLogExtCmnd_good (h : Sound cfg base ch false tags)
    (hstate : ch.state = .requestSense) : Good cfg base (insertReadLogExtCmnd cfg hw ch) := by
  have hqueue := addReadLogExt_sound h hstate
  have hsent := hqueue.quiet (sendNoneUdmaCommand_quiet cfg hw _ .readLogExt)
  rw [insertReadLogExtCmnd_eq]
  split_ifs
  · exact ⟨true, tags, hqueue⟩
  · exact ⟨true, tags, hsent⟩
  · exact ⟨false, tags, (finishPIOCommand_readLogExt hsent).1⟩

section

variable {insert : Channel → Channel} (hinsert : ∀ ch, Good cfg base ch → Good cfg base (insert ch))

include hinsert

theorem finishErrorHandling_good (h : Sound cfg base ch false tags) :
    Good cfg base (finishErrorHandling insert ch) := by
  apply hinsert
  exact ⟨false, tags, h.congr rfl fun hr => by cases hr⟩

theorem handlePortError_good (h : Sound cfg base ch false tags)
    (hstate : ch.state = .requestSense) : Good cfg base (handlePortError cfg hw insert ch) := by
  unfold handlePortError
  dsimp only
  split_ifs
  · exact finishErrorHandling_good hinsert (h.congr rfl fun hr => by cases hr)
  · exact insertReadLogExtCmnd_good (h.congr rfl fun hr => by cases hr) hstate

theorem readLogExtCompletionCB_good (h : Sound cfg base ch false tags)
    (hstate : ch.state = .requestSense) :
    Good cfg base (readLogExtCompletionCB cfg hw insert ch) := by
  obtain ⟨tags', hparse, hs⟩ := @parseReadLogExtOutPut_sound _ hw _ _ _ h
  unfold readLogExtCompletionCB
  dsimp only
  split_ifs
  · exact handlePortError_good hinsert (hparse.congr rfl fun hr => by cases hr)
      (hs.trans hstate)
  · exact ⟨false, tags', hparse⟩

theorem doDevErrorRecoveryWith_good (h : Good cfg base ch) {e : Option EntryRef} :
    Good cfg base (doDevErrorRecoveryWith cfg hw insert ch e) := by
  unfold doDevErrorRecoveryWith
  split_ifs
  · exact h
  · exact hinsert _ (h.quiet ⟨rfl, id⟩)

/-- Completing the head of the queue. -/
theorem completePIOCommandWith_good (h : Sound cfg base ch readLog tags)
    (he : e ∈ queueRefs readLog tags) :
    Good cfg base (completePIOCommandWith cfg hw insert ch e failed) := by
  unfold completePIOCommandWith
  dsimp only
  cases e with
  | readLogExt =>
    cases readLog with
    | false => exact absurd he readLogExt_notMem_queueRefs
    | true =>
      obtain ⟨-, htag, -⟩ := h.readLogExt rfl
      obtain ⟨hfinish, hstate⟩ := @finishPIOCommand_readLogExt _ _ _ failed _ h
      rw [if_pos htag]
      split_ifs
      · exact ⟨false, tags, hfinish⟩
      · exact readLogExtCompletionCB_good hinsert hfinish hstate
  | command t =>
    have ht := command_mem_queueRefs.mp he
    rw [if_neg (h.hostTag_ne ht)]
    obtain ⟨t₁, t₂, rfl⟩ := List.append_of_mem ht
    have hfinish : Good cfg base (finishPIOCommand cfg ch (.command t) failed) :=
      ⟨readLog, t₁ ++ t₂, finishPIOCommand_command h⟩
    split_ifs
    · exact doDevErrorRecoveryWith_good hinsert hfinish
    · exact hinsert _ hfinish

end

end Mv88fxx81.Sata.Core
