import Mv88fxx81.Sata.ChannelRuns

/-!
# The commands in the EDMA stand in front

The commands that have been put in the request queue stand in front of all PIO
commands in the queue of the channel, and where no recovery fails they are the
first ones. Each is put in the request queue once, until the queues are reset.
-/

namespace Mv88fxx81.Sata.Core

variable {cfg : ChannelConfig} {hw : Hardware} {ch ch' ch₁ ch₂ : Channel} {e : EntryRef}
  {tags tags₁ tags₂ t₁ t₂ started : List ℕ} {readLog : Bool} {t : ℕ} {base : Ledger}
  {strict : Prop}

/-- The command with a host tag is in the EDMA. -/
def Channel.inEdma (ch : Channel) (t : ℕ) : Bool := (ch.commandsQueue (.command t)).isCommandInEdma

/-- The command with a host tag is a UDMA command. -/
def Channel.isUdma (ch : Channel) (t : ℕ) : Bool := (ch.commandsQueue (.command t)).info.isUdma

/-- The call that queued the command with a host tag. -/
def Channel.callOf (ch : Channel) (t : ℕ) : ℕ := (ch.commandsQueue (.command t)).info.commandId

/-- The calls whose commands have been put in the request queue since it was reset. -/
def Channel.requested (ch : Channel) : List ℕ := ch.log.requests.map (·.commandId)

/-- What putting a command in the request queue writes to the log. -/
def Channel.request (cfg : ChannelConfig) (ch : Channel) (t : ℕ) : EdmaRequest where
  commandId := ch.callOf t
  pioBefore := ((ch.commands cfg).takeWhile (· ≠ .command t)).filter fun e =>
    ¬ (ch.commandsQueue e).info.isUdma

/-- PIO commands other than READ LOG EXT have been sent from the head of the queue, while no command
of the queue was in the EDMA. -/
def SentAlone (ch : Channel) : Prop :=
  ∀ x ∈ ch.log.sent, x.entry ≠ .readLogExt → x.head = some x.entry ∧ x.inEdma = []

/-- The request queue since it was reset. -/
structure Requested (cfg : ChannelConfig) (base : Ledger) (ch : Channel) (tags : List ℕ) :
    Prop where
  inPtr : ch.reqInPtr = ch.log.requests.length % cfg.edmaQueueLength
  /-- No command is in it twice. -/
  once : ch.requested.Nodup
  /-- A command that is still in the queue of the channel is marked. -/
  marked : ∀ t ∈ tags, ch.callOf t ∈ ch.requested → ch.inEdma t = true
  known : ∀ c ∈ ch.requested, c ∈ base.accepted ++ base.pending
  /-- No PIO command was waiting before it. -/
  behind : ∀ x ∈ ch.log.requests, x.pioBefore = []

/-- The commands in the EDMA stand in front. -/
structure Fronted (cfg : ChannelConfig) (base : Ledger) (strict : Prop) (ch : Channel)
    (tags : List ℕ) : Prop extends Requested cfg base ch tags where
  udma : ∀ t ∈ tags, ch.inEdma t = true → ch.isUdma t = true
  front : tags.Pairwise fun a b => ch.inEdma b = true → ch.isUdma a = true
  prefixed : strict → tags.Pairwise fun a b => ch.inEdma b = true → ch.inEdma a = true
  alone : SentAlone ch

/-- No UDMA command waits without reason. -/
structure Ordered (cfg : ChannelConfig) (base : Ledger) (strict : Prop) (ch : Channel)
    (tags : List ℕ) : Prop extends Fronted cfg base strict ch tags where
  complete : strict → ch.state = .idle → ∀ t ∈ tags.takeWhile ch.isUdma, ch.inEdma t = true

/-- The accounts and the order hold for some list of commands. -/
def InOrder (cfg : ChannelConfig) (base : Ledger) (strict : Prop) (ch : Channel) : Prop :=
  ∃ readLog tags, Sound cfg base ch readLog tags ∧ Ordered cfg base strict ch tags

/-- A part of a call that neither puts commands in the request queue nor resets it. -/
structure Passes (ch ch₁ : Channel) (tags tags₁ : List ℕ) : Prop where
  sub : tags₁.Sublist tags
  inEdma : ∀ t ∈ tags₁, ch₁.inEdma t = ch.inEdma t
  isUdma : ∀ t ∈ tags₁, ch₁.isUdma t = ch.isUdma t
  callOf : ∀ t ∈ tags₁, ch₁.callOf t = ch.callOf t
  requests : ch₁.log.requests = ch.log.requests
  reqInPtr : ch₁.reqInPtr = ch.reqInPtr
  idle : ch₁.state = .idle → ch.state = .idle
  alone : SentAlone ch → SentAlone ch₁

/-! ### Lists -/

theorem takeWhile_congr {p q : ℕ → Bool} {l : List ℕ} (hsame : ∀ t ∈ l, p t = q t) :
    l.takeWhile p = l.takeWhile q := by
  induction l with
  | nil => rfl
  | cons a l ih =>
    rw [List.takeWhile_cons, List.takeWhile_cons, hsame a List.mem_cons_self,
      ih fun t ht => hsame t (List.mem_cons_of_mem a ht)]

/-- The elements in front when one of them is removed. -/
theorem takeWhile_remove {p : ℕ → Bool} (hp : p t = true) :
    ∀ x ∈ (t₁ ++ t₂).takeWhile p, x ∈ (t₁ ++ t :: t₂).takeWhile p := by
  induction t₁ with
  | nil =>
    intro x hx
    rw [List.nil_append, List.takeWhile_cons_of_pos hp]
    exact List.mem_cons_of_mem t hx
  | cons a t₁ ih =>
    intro x hx
    rw [List.cons_append] at hx ⊢
    by_cases ha : p a = true
    · rw [List.takeWhile_cons_of_pos ha] at hx ⊢
      rcases List.mem_cons.mp hx with rfl | hx
      · exact List.mem_cons_self
      · exact List.mem_cons_of_mem a (ih x hx)
    · rw [List.takeWhile_cons_of_neg ha] at hx
      cases hx

/-- What stands before one of the elements in front is in front, too. -/
theorem pairwise_takeWhile {p : ℕ → Bool} {l : List ℕ} (hnodup : l.Nodup) :
    l.Pairwise fun a b => b ∈ l.takeWhile p → a ∈ l.takeWhile p := by
  have hsplit := List.takeWhile_append_dropWhile (p := p) (l := l)
  rw [← hsplit] at hnodup
  have hapart := List.disjoint_of_nodup_append hnodup
  have hall : (l.takeWhile p ++ l.dropWhile p).Pairwise
      fun a b => b ∈ l.takeWhile p → a ∈ l.takeWhile p := by
    rw [List.pairwise_append]
    refine ⟨List.pairwise_of_forall_mem_list fun a ha b _ _ => ha, ?_, fun a ha b _ _ => ha⟩
    exact List.pairwise_of_forall_mem_list fun a _ b hb hin => absurd hb (hapart hin)
  rwa [hsplit] at hall

theorem before_takeWhile {p : ℕ → Bool} {l : List ℕ} (ht : t ∈ l.takeWhile p) :
    ∀ a ∈ l.takeWhile (· ≠ t), p a = true := by
  induction l with
  | nil => cases ht
  | cons b l ih =>
    intro a ha
    by_cases hb : p b = true
    · rw [List.takeWhile_cons_of_pos hb] at ht
      by_cases htb : b = t
      · rw [List.takeWhile_cons_of_neg (by simpa using htb)] at ha
        cases ha
      · rw [List.takeWhile_cons_of_pos (by simpa using htb)] at ha
        rcases List.mem_cons.mp ha with rfl | ha
        · exact hb
        · exact ih ((List.mem_cons.mp ht).resolve_left (Ne.symm htb)) a ha
    · rw [List.takeWhile_cons_of_neg hb] at ht
      cases ht

/-! ### Parts that pass -/

theorem SentAlone.of_sent (h : SentAlone ch) (hsent : ch₁.log.sent = ch.log.sent) :
    SentAlone ch₁ := by
  rwa [SentAlone, hsent]

/-- The entries, the requests and the PIO commands that were sent stay. -/
theorem Passes.of_entries (tags : List ℕ) (hentries : ch₁.commandsQueue = ch.commandsQueue)
    (hrequests : ch₁.log.requests = ch.log.requests) (hreq : ch₁.reqInPtr = ch.reqInPtr)
    (hsent : ch₁.log.sent = ch.log.sent) (hidle : ch₁.state = .idle → ch.state = .idle) :
    Passes ch ch₁ tags tags := by
  have hentry : ∀ t, ch₁.commandsQueue (.command t) = ch.commandsQueue (.command t) := by
    intro t
    rw [hentries]
  exact {
    sub := List.Sublist.refl tags
    inEdma := fun t _ => congrArg QueuedCommandEntry.isCommandInEdma (hentry t)
    isUdma := fun t _ => congrArg (fun entry => entry.info.isUdma) (hentry t)
    callOf := fun t _ => congrArg (fun entry => entry.info.commandId) (hentry t)
    requests := hrequests
    reqInPtr := hreq
    idle := hidle
    alone := fun halone => halone.of_sent hsent }

/-- What the order reads of a channel. -/
def Channel.order (ch : Channel) :
    (EntryRef → QueuedCommandEntry) × List EdmaRequest × ℕ × List SentCommand ×
      ErrorHandlingState :=
  (ch.commandsQueue, ch.log.requests, ch.reqInPtr, ch.log.sent, ch.state)

/-- What the order reads stays. -/
theorem Passes.of_order (tags : List ℕ) (hsame : ch₁.order = ch.order) :
    Passes ch ch₁ tags tags := by
  simp only [Channel.order, Prod.mk.injEq] at hsame
  obtain ⟨hentries, hrequests, hreq, hsent, hstate⟩ := hsame
  refine Passes.of_entries tags hentries hrequests hreq hsent fun hidle => ?_
  rwa [hstate] at hidle

theorem Passes.trans (h : Passes ch ch₁ tags tags₁) (h' : Passes ch₁ ch₂ tags₁ tags₂) :
    Passes ch ch₂ tags tags₂ where
  sub := h'.sub.trans h.sub
  inEdma := fun t ht => (h'.inEdma t ht).trans (h.inEdma t (h'.sub.subset ht))
  isUdma := fun t ht => (h'.isUdma t ht).trans (h.isUdma t (h'.sub.subset ht))
  callOf := fun t ht => (h'.callOf t ht).trans (h.callOf t (h'.sub.subset ht))
  requests := h'.requests.trans h.requests
  reqInPtr := h'.reqInPtr.trans h.reqInPtr
  idle := fun hidle => h.idle (h'.idle hidle)
  alone := fun halone => h'.alone (h.alone halone)

/-- A part of an entry is changed that is not read here. -/
theorem Passes.of_update {f : QueuedCommandEntry → QueuedCommandEntry} (tags : List ℕ)
    (hin : (f (ch.commandsQueue e)).isCommandInEdma = (ch.commandsQueue e).isCommandInEdma)
    (hudma : (f (ch.commandsQueue e)).info.isUdma = (ch.commandsQueue e).info.isUdma)
    (hcall : (f (ch.commandsQueue e)).info.commandId = (ch.commandsQueue e).info.commandId) :
    Passes ch (ch.updateEntry e f) tags tags := by
  have hentry : ∀ t, (ch.updateEntry e f).commandsQueue (.command t) =
      if .command t = e then f (ch.commandsQueue e) else ch.commandsQueue (.command t) := fun t =>
    Function.update_apply _ _ _ _
  have hsame : Passes ch ch tags tags := Passes.of_order tags rfl
  refine { hsame with inEdma := ?_, isUdma := ?_, callOf := ?_ }
  · intro t _
    rw [Channel.inEdma, hentry]
    by_cases he : EntryRef.command t = e
    · rw [if_pos he, hin, ← he]
      rfl
    · rw [if_neg he]
      rfl
  · intro t _
    rw [Channel.isUdma, hentry]
    by_cases he : EntryRef.command t = e
    · rw [if_pos he, hudma, ← he]
      rfl
    · rw [if_neg he]
      rfl
  · intro t _
    rw [Channel.callOf, hentry]
    by_cases he : EntryRef.command t = e
    · rw [if_pos he, hcall, ← he]
      rfl
    · rw [if_neg he]
      rfl

theorem Requested.passes (h : Requested cfg base ch tags) (hp : Passes ch ch₁ tags tags₁) :
    Requested cfg base ch₁ tags₁ := by
  have hrequested : ch₁.requested = ch.requested := by
    rw [Channel.requested, hp.requests]
    rfl
  constructor
  case inPtr =>
    rw [hp.reqInPtr, hp.requests]
    exact h.inPtr
  case once =>
    rw [hrequested]
    exact h.once
  case marked =>
    intro t ht
    rw [hrequested, hp.callOf t ht, hp.inEdma t ht]
    exact h.marked t (hp.sub.subset ht)
  case known =>
    rw [hrequested]
    exact h.known
  case behind =>
    rw [hp.requests]
    exact h.behind

theorem Fronted.passes (h : Fronted cfg base strict ch tags) (hp : Passes ch ch₁ tags tags₁) :
    Fronted cfg base strict ch₁ tags₁ := by
  refine { h.toRequested.passes hp with udma := ?_, front := ?_, prefixed := ?_, alone := ?_ }
  · intro t ht
    rw [hp.inEdma t ht, hp.isUdma t ht]
    exact h.udma t (hp.sub.subset ht)
  · refine (h.front.sublist hp.sub).imp_of_mem ?_
    intro a b ha hb hfront
    rwa [hp.isUdma a ha, hp.inEdma b hb]
  · intro hstrict
    refine ((h.prefixed hstrict).sublist hp.sub).imp_of_mem ?_
    intro a b ha hb hfront
    rwa [hp.inEdma a ha, hp.inEdma b hb]
  · exact hp.alone h.alone

/-- A part that passes and keeps the commands. -/
theorem Ordered.passes (h : Ordered cfg base strict ch tags) (hp : Passes ch ch₁ tags tags) :
    Ordered cfg base strict ch₁ tags := by
  refine { h.toFronted.passes hp with complete := ?_ }
  intro hstrict hidle t ht
  rw [takeWhile_congr hp.isUdma] at ht
  rw [hp.inEdma t (List.takeWhile_subset _ ht)]
  exact h.complete hstrict (hp.idle hidle) t ht

/-- A UDMA command is removed. -/
theorem Ordered.remove (h : Ordered cfg base strict ch (t₁ ++ t :: t₂)) (hudma : ch.isUdma t = true)
    (hp : Passes ch ch₁ (t₁ ++ t :: t₂) (t₁ ++ t₂)) : Ordered cfg base strict ch₁ (t₁ ++ t₂) := by
  refine { h.toFronted.passes hp with complete := ?_ }
  intro hstrict hidle x hx
  rw [takeWhile_congr hp.isUdma] at hx
  rw [hp.inEdma x (List.takeWhile_subset _ hx)]
  exact h.complete hstrict (hp.idle hidle) x (takeWhile_remove hudma x hx)

/-- The request queue is empty after a reset. -/
theorem Requested.empty (hrequests : ch.log.requests = []) (hreq : ch.reqInPtr = 0) :
    Requested cfg base ch tags := by
  have hrequested : ch.requested = [] := by
    rw [Channel.requested, hrequests]
    rfl
  constructor
  case inPtr =>
    rw [hreq, hrequests]
    exact (Nat.zero_mod _).symm
  case once =>
    rw [hrequested]
    exact List.nodup_nil
  case marked => simp [hrequested]
  case known => simp [hrequested]
  case behind => simp [hrequests]

theorem Fronted.reset (h : Fronted cfg base strict ch tags)
    (hentries : ch₁.commandsQueue = ch.commandsQueue) (hrequests : ch₁.log.requests = [])
    (hreq : ch₁.reqInPtr = 0) (hsent : ch₁.log.sent = ch.log.sent) :
    Fronted cfg base strict ch₁ tags := by
  have hin : ch₁.inEdma = ch.inEdma := by
    funext t
    rw [Channel.inEdma, hentries]
    rfl
  have hudma : ch₁.isUdma = ch.isUdma := by
    funext t
    rw [Channel.isUdma, hentries]
    rfl
  constructor
  case toRequested => exact Requested.empty hrequests hreq
  case udma =>
    rw [hin, hudma]
    exact h.udma
  case front =>
    rw [hin, hudma]
    exact h.front
  case prefixed =>
    rw [hin]
    exact h.prefixed
  case alone => exact h.alone.of_sent hsent

/-- A channel without commands is in order. -/
theorem Ordered.nil (h : Requested cfg base ch []) (halone : SentAlone ch) :
    Ordered cfg base strict ch [] :=
  { h with
    udma := by simp
    front := List.Pairwise.nil
    prefixed := fun _ => List.Pairwise.nil
    alone := halone
    complete := by simp }

/-- Nothing waits while an error is handled. -/
theorem Fronted.ordered_of_state (ho : Fronted cfg base strict ch tags)
    (hstate : ch.state ≠ .idle) : Ordered cfg base strict ch tags :=
  { ho with complete := fun _ hidle => absurd hidle hstate }

/-- The commands in the EDMA are among the UDMA commands in front. -/
theorem Fronted.mem_takeWhile (h : Fronted cfg base strict ch tags) (ht : t ∈ tags)
    (hin : ch.inEdma t = true) : t ∈ tags.takeWhile ch.isUdma := by
  have hudma := h.udma t ht hin
  obtain ⟨t₁, t₂, rfl⟩ := List.append_of_mem ht
  have hfront := (List.pairwise_append.mp h.front).2.2
  have hbefore : ∀ a ∈ t₁, ch.isUdma a = true := fun a ha =>
    hfront a ha t List.mem_cons_self hin
  rw [List.takeWhile_append_of_pos hbefore, List.takeWhile_cons_of_pos hudma]
  simp

/-- Behind a PIO command no command is in the EDMA. -/
theorem Fronted.none_inEdma {rest : List ℕ} (ho : Fronted cfg base strict ch (t :: rest))
    (hpio : ch.isUdma t = false) : ∀ x ∈ t :: rest, ch.inEdma x = false := by
  intro x hx
  cases hin : ch.inEdma x with
  | false => rfl
  | true =>
    have hmem := ho.mem_takeWhile hx hin
    rw [List.takeWhile_cons_of_neg (by rw [hpio]; simp)] at hmem
    cases hmem

/-- A command that is not in the EDMA has not been requested. -/
theorem Requested.notMem (h : Requested cfg base ch tags) (ht : t ∈ tags)
    (hin : ch.inEdma t = false) : ch.callOf t ∉ ch.requested := by
  intro hmem
  rw [h.marked t ht hmem] at hin
  cases hin

/-! ### Putting commands in the request queue -/

theorem request_congr (hsame : ch'.account = ch.account) : ch'.request cfg = ch.request cfg := by
  have hqueue : ch'.queue = ch.queue := congrArg ChannelAccount.queue hsame
  have hudma : ∀ e, (ch'.commandsQueue e).info.isUdma = (ch.commandsQueue e).info.isUdma := fun e =>
    congrArg EntryAccount.isUdma (account_entry hsame e)
  have hcall : ch'.callOf = ch.callOf := by
    funext t
    exact congrArg EntryAccount.commandId (account_entry hsame (.command t))
  funext t
  unfold Channel.request Channel.commands
  rw [hqueue, hcall]
  simp only [hudma]

/-- What putting commands in the request queue changes. -/
structure Inserted (cfg : ChannelConfig) (ch ch' : Channel) (started : List ℕ) : Prop where
  quiet : Quiet ch ch'
  inEdma : ∀ t, ch'.inEdma t = (ch.inEdma t || decide (t ∈ started))
  requests : ch'.log.requests = ch.log.requests ++ started.map (ch.request cfg)
  reqInPtr : ch'.reqInPtr = (ch.reqInPtr + started.length) % cfg.edmaQueueLength
  sent : ch'.log.sent = ch.log.sent

theorem edmaReqQueueInsert_inserted (cfg : ChannelConfig) (ch : Channel) (t : ℕ) :
    Inserted cfg ch (edmaReqQueueInsert cfg ch (.command t)) [t] := by
  constructor
  case quiet => exact edmaReqQueueInsert_quiet cfg ch (.command t)
  case inEdma =>
    intro t'
    by_cases ht : t' = t
    · subst ht
      simp [Channel.inEdma, edmaReqQueueInsert, Channel.updateEntry]
    · simp [Channel.inEdma, edmaReqQueueInsert, Channel.updateEntry, ht]
  case requests => rfl
  case reqInPtr => rfl
  case sent => rfl

theorem insertAll_inserted (cfg : ChannelConfig) (started : List ℕ) (ch : Channel)
    (hptr : ch.reqInPtr < cfg.edmaQueueLength) :
    Inserted cfg ch ((started.map EntryRef.command).foldl (edmaReqQueueInsert cfg) ch) started := by
  induction started generalizing ch with
  | nil =>
    exact {
      quiet := Quiet.refl ch
      inEdma := by simp
      requests := (List.append_nil _).symm
      reqInPtr := (Nat.mod_eq_of_lt hptr).symm
      sent := rfl }
  | cons t started ih =>
    have hfirst := edmaReqQueueInsert_inserted cfg ch t
    have hrest := ih (edmaReqQueueInsert cfg ch (.command t))
      (Nat.mod_lt _ (Nat.zero_lt_of_lt hptr))
    constructor
    case quiet => exact hfirst.quiet.trans hrest.quiet
    case inEdma =>
      intro t'
      refine (hrest.inEdma t').trans ?_
      rw [hfirst.inEdma, Bool.or_assoc]
      simp
    case requests =>
      refine hrest.requests.trans ?_
      rw [hfirst.requests, request_congr hfirst.quiet.account, List.append_assoc]
      rfl
    case reqInPtr =>
      refine hrest.reqInPtr.trans ?_
      rw [hfirst.reqInPtr, Nat.mod_add_mod, List.length_singleton, List.length_cons, Nat.add_assoc,
        Nat.add_comm 1]
    case sent => exact hrest.sent.trans hfirst.sent

theorem ChannelConfig.edmaQueueLength_pos (cfg : ChannelConfig) : 0 < cfg.edmaQueueLength := by
  unfold ChannelConfig.edmaQueueLength
  split_ifs
  · exact Nat.zero_lt_succ 127
  · exact Nat.zero_lt_succ 31

theorem Requested.inPtr_lt (h : Requested cfg base ch tags) :
    ch.reqInPtr < cfg.edmaQueueLength := by
  rw [h.inPtr]
  exact Nat.mod_lt _ cfg.edmaQueueLength_pos

/-- The calls that queued the commands differ. -/
theorem Sound.callOf_nodup (h : Sound cfg base ch readLog tags)
    (hbase : (base.accepted ++ base.pending).Nodup) : (tags.map ch.callOf).Nodup := by
  have hall := (List.nodup_append.mp (h.ledger.nodup_iff.mpr hbase)).2.1
  rwa [Channel.entriesOf, List.map_map] at hall

theorem Sound.callOf_known (h : Sound cfg base ch readLog tags) (ht : t ∈ tags) :
    ch.callOf t ∈ base.accepted ++ base.pending := by
  refine h.ledger.subset (List.mem_append_right _ ?_)
  rw [Channel.entriesOf, List.map_map]
  exact List.mem_map_of_mem ht

/-- No PIO command waits before the commands in front. -/
theorem Accounted.pioBefore_eq_nil (h : Accounted cfg ch false tags)
    (ht : t ∈ tags.takeWhile ch.isUdma) : (ch.request cfg t).pioBefore = [] := by
  have hbefore := before_takeWhile ht
  unfold Channel.request
  dsimp only
  rw [h.commands_eq, queueRefs, if_neg Bool.false_ne_true, List.nil_append, List.takeWhile_map,
    List.filter_eq_nil_iff]
  intro e he
  obtain ⟨a, ha, rfl⟩ := List.mem_map.mp he
  have hmem : a ∈ tags.takeWhile (· ≠ t) := by
    simpa [Function.comp_def] using ha
  simpa [Channel.isUdma] using hbefore a hmem

/-- Commands in front that have not been requested enter the EDMA. -/
theorem Fronted.inserted (ho : Fronted cfg base strict ch tags) (h : Sound cfg base ch false tags)
    (hbase : (base.accepted ++ base.pending).Nodup) (hin : Inserted cfg ch ch' started)
    (hnodup : started.Nodup) (hfront : ∀ t ∈ started, t ∈ tags.takeWhile ch.isUdma)
    (hnew : ∀ t ∈ started, ch.callOf t ∉ ch.requested)
    (hall : strict → ∀ t ∈ tags.takeWhile ch.isUdma, ch.inEdma t = true ∨ t ∈ started) :
    Ordered cfg base strict ch' tags := by
  have hsub : ∀ t ∈ started, t ∈ tags := fun t ht => List.takeWhile_subset _ (hfront t ht)
  have hudma : ch'.isUdma = ch.isUdma := by
    funext t
    exact congrArg EntryAccount.isUdma (account_entry hin.quiet.account (.command t))
  have hcall : ch'.callOf = ch.callOf := by
    funext t
    exact congrArg EntryAccount.commandId (account_entry hin.quiet.account (.command t))
  have hrequested : ch'.requested = ch.requested ++ started.map ch.callOf := by
    unfold Channel.requested
    rw [hin.requests, List.map_append, List.map_map]
    rfl
  have hinEdma : ∀ t, ch'.inEdma t = true ↔ ch.inEdma t = true ∨ t ∈ started := by
    intro t
    rw [hin.inEdma, Bool.or_eq_true, decide_eq_true_iff]
  have hmem : ∀ t ∈ tags, ch'.inEdma t = true → t ∈ tags.takeWhile ch.isUdma := fun t ht hold =>
    ((hinEdma t).mp hold).elim (ho.mem_takeWhile ht) (hfront t)
  have hcalls := h.callOf_nodup hbase
  have hpairs := @pairwise_takeWhile ch.isUdma _ h.nodup
  have hcomplete : strict → ∀ t ∈ tags.takeWhile ch.isUdma, ch'.inEdma t = true :=
    fun hstrict t ht => (hinEdma t).mpr (hall hstrict t ht)
  constructor
  case toFronted =>
    constructor
    case toRequested =>
      constructor
      case inPtr =>
        rw [hin.reqInPtr, ho.inPtr, hin.requests, List.length_append, List.length_map,
          Nat.mod_add_mod]
      case once =>
        rw [hrequested, List.nodup_append']
        refine ⟨ho.once, ?_, ?_⟩
        · exact List.Nodup.map_on (fun a ha b hb heq =>
            List.inj_on_of_nodup_map hcalls (hsub a ha) (hsub b hb) heq) hnodup
        · intro c hold hmem
          obtain ⟨t, ht, rfl⟩ := List.mem_map.mp hmem
          exact hnew t ht hold
      case marked =>
        intro t ht hmem
        rw [hcall, hrequested, List.mem_append] at hmem
        rw [hinEdma]
        rcases hmem with hold | hstarted
        · exact Or.inl (ho.marked t ht hold)
        · obtain ⟨a, ha, heq⟩ := List.mem_map.mp hstarted
          exact Or.inr (List.inj_on_of_nodup_map hcalls (hsub a ha) ht heq ▸ ha)
      case known =>
        intro c hmem
        rw [hrequested, List.mem_append] at hmem
        rcases hmem with hold | hstarted
        · exact ho.known c hold
        · obtain ⟨t, ht, rfl⟩ := List.mem_map.mp hstarted
          exact h.callOf_known (hsub t ht)
      case behind =>
        intro x hmem
        rw [hin.requests, List.mem_append] at hmem
        rcases hmem with hold | hstarted
        · exact ho.behind x hold
        · obtain ⟨t, ht, rfl⟩ := List.mem_map.mp hstarted
          exact h.pioBefore_eq_nil (hfront t ht)
    case udma =>
      intro t ht hold
      rw [hudma]
      exact List.mem_takeWhile_imp (hmem t ht hold)
    case front =>
      rw [hudma]
      refine hpairs.imp_of_mem ?_
      intro a b _ hb hbefore hold
      exact List.mem_takeWhile_imp (hbefore (hmem b hb hold))
    case prefixed =>
      intro hstrict
      refine hpairs.imp_of_mem ?_
      intro a b _ hb hbefore hold
      exact hcomplete hstrict a (hbefore (hmem b hb hold))
    case alone => exact ho.alone.of_sent hin.sent
  case complete =>
    rw [hudma]
    exact fun hstrict _ => hcomplete hstrict

end Mv88fxx81.Sata.Core
