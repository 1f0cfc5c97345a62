import Mathlib.Data.List.Perm.Basic
import Mv88fxx81.Sata.ChannelStep

/-!
# The accounts of a channel

The entries in use, the list that links them, the counters and the free tags all
describe one sequence of commands. Adding and removing a command keep them in
agreement.
-/

namespace Mv88fxx81.Sata.Core

open DoublyLinked

variable {cfg : ChannelConfig} {hw : Hardware} {ch ch' : Channel} {q : CommandsQueue}
  {e : EntryRef} {l l₁ l₂ : List EntryRef} {tags t₁ t₂ : List ℕ} {readLog : Bool} {t n : ℕ}
  {info : CommandInfo}

/-- The free tags of a stack. -/
def TagsStack.free (stack : TagsStack) : List ℕ := (List.range stack.top).map stack.tagsArray

theorem TagsStack.free_length (stack : TagsStack) : stack.free.length = stack.top := by
  simp [TagsStack.free]

/-- At first all tags are free. -/
theorem initTagsStack_free (n : ℕ) : (initTagsStack n).free.Perm (List.range n) := by
  have hreverse : (List.range n).reverse = (initTagsStack n).free := by
    rw [List.range_eq_range', List.reverse_range', Nat.zero_add]
    rfl
  rw [← hreverse]
  exact List.reverse_perm _

/-- Taking the last free tag. -/
theorem popTag_free {stack : TagsStack} (hpos : 0 < stack.top) (hsmall : stack.top < 256) :
    (popTag stack).2.free ++ [(popTag stack).1] = stack.free := by
  have hdecr : decr8 stack.top = stack.top - 1 := by
    unfold decr8
    omega
  have hrange : List.range stack.top = List.range (stack.top - 1) ++ [stack.top - 1] := by
    rw [← List.range_succ, Nat.succ_eq_add_one, Nat.sub_add_cancel hpos]
  simp only [popTag, TagsStack.free, hdecr]
  rw [hrange, List.map_append]
  rfl

/-- Putting a tag back. -/
theorem pushTag_free {stack : TagsStack} (hsmall : stack.top < 255) (tag : ℕ) :
    (pushTag stack tag).free = stack.free ++ [tag] := by
  have hincr : incr8 stack.top = stack.top + 1 := by
    unfold incr8
    omega
  have hkept : (List.range stack.top).map (Function.update stack.tagsArray stack.top tag) =
      (List.range stack.top).map stack.tagsArray := by
    apply List.map_congr_left
    intro i hi
    exact Function.update_of_ne (List.mem_range.mp hi).ne _ _
  simp only [pushTag, TagsStack.free, hincr, List.range_succ, List.map_append, hkept,
    List.map_cons, Function.update_self, List.map_nil]

/-- The list of the queue. -/
def CommandsQueue.Lists (q : CommandsQueue) (l : List EntryRef) : Prop :=
  Queued q.next q.prev q.head q.tail l

theorem commandsQueueAddTail_lists (hl : q.Lists l) (he : e ∉ l) :
    (commandsQueueAddTail q e).Lists (l ++ [e]) := by
  have htail := hl.tail_eq
  have hne : ∀ b ∈ l, b ≠ e := fun b hb => ne_of_mem_of_not_mem hb he
  unfold CommandsQueue.Lists commandsQueueAddTail
  cases hlast : q.tail with
  | none =>
    apply Queued.addTail hl
    · exact Function.update_self _ _ _
    · intro b hb
      rw [hlast] at hb
      cases hb
    · intro b hb _
      exact Function.update_of_ne (hne b hb) _ _
    · rw [hlast]
      exact Function.update_self _ _ _
    · intro b hb
      exact Function.update_of_ne (hne b hb) _ _
    · rfl
  | some last =>
    have hmem : last ∈ l := List.mem_of_getLast? (htail.symm.trans hlast)
    apply Queued.addTail hl
    · dsimp only
      rw [Function.update_of_ne (hne last hmem).symm, Function.update_self]
    · intro b hb
      obtain rfl := Option.some.inj (hlast.symm.trans hb)
      exact Function.update_self _ _ _
    · intro b hb hother
      have hb' : b ≠ last := fun h => hother (by rw [hlast, h])
      dsimp only
      rw [Function.update_of_ne hb', Function.update_of_ne (hne b hb)]
    · rw [hlast]
      exact Function.update_self _ _ _
    · intro b hb
      exact Function.update_of_ne (hne b hb) _ _
    · rfl

/-- The head is the tail of the queue that is read backwards. -/
theorem commandsQueueAddHead_lists (hl : q.Lists l) (he : e ∉ l) :
    (commandsQueueAddHead q e).Lists (e :: l) := by
  have hqueue : (commandsQueueAddTail ⟨q.prev, q.next, q.tail, q.head⟩ e).Lists
      (l.reverse ++ [e]) := commandsQueueAddTail_lists hl.reverse (by simpa using he)
  have hback := Queued.reverse hqueue
  rw [List.reverse_append, List.reverse_reverse] at hback
  exact hback

theorem update_some (f : EntryRef → Option EntryRef) (a b : EntryRef) (v : Option EntryRef) :
    Function.update f a v b = if some a = some b then v else f b := by
  rw [Function.update_apply]
  simp only [Option.some.injEq, eq_comm]

/-- The links of the other entries when an entry is removed. -/
theorem commandsQueueRemove_next (hn : q.next e ≠ some e) (hp : q.prev e ≠ some e) {b : EntryRef}
    (hb : b ≠ e) :
    (commandsQueueRemove q e).next b = if q.prev e = some b then q.next e else q.next b := by
  cases hnext : q.next e with
  | none =>
    cases hprev : q.prev e with
    | none =>
      simp only [commandsQueueRemove, unlinkPrev, unlinkNext, hnext, hprev,
        Function.update_of_ne hb, reduceCtorEq, if_false]
    | some p =>
      have hpe : e ≠ p := fun h => hp (by rw [hprev, h])
      simp only [commandsQueueRemove, unlinkPrev, unlinkNext, hnext, hprev,
        Function.update_of_ne hb, Function.update_idem, Function.update_of_ne hpe, update_some]
  | some n =>
    have hne : e ≠ n := fun h => hn (by rw [hnext, h])
    cases hprev : q.prev e with
    | none =>
      simp only [commandsQueueRemove, unlinkPrev, unlinkNext, hnext, hprev,
        Function.update_of_ne hb, Function.update_of_ne hne, reduceCtorEq, if_false]
    | some p =>
      simp only [commandsQueueRemove, unlinkPrev, unlinkNext, hnext, hprev,
        Function.update_of_ne hb, Function.update_of_ne hne, update_some]

theorem commandsQueueRemove_prev (hn : q.next e ≠ some e) {b : EntryRef} (hb : b ≠ e) :
    (commandsQueueRemove q e).prev b = if q.next e = some b then q.prev e else q.prev b := by
  cases hnext : q.next e with
  | none =>
    cases hprev : q.prev e with
    | none =>
      simp only [commandsQueueRemove, unlinkPrev, unlinkNext, hnext, hprev,
        Function.update_of_ne hb, reduceCtorEq, if_false]
    | some p =>
      simp only [commandsQueueRemove, unlinkPrev, unlinkNext, hnext, hprev,
        Function.update_of_ne hb, reduceCtorEq, if_false]
  | some n =>
    have hne : e ≠ n := fun h => hn (by rw [hnext, h])
    cases hprev : q.prev e with
    | none =>
      simp only [commandsQueueRemove, unlinkPrev, unlinkNext, hnext, hprev,
        Function.update_of_ne hb, Function.update_of_ne hne, Function.update_idem, update_some]
    | some p =>
      simp only [commandsQueueRemove, unlinkPrev, unlinkNext, hnext, hprev,
        Function.update_of_ne hb, Function.update_of_ne hne, update_some]

theorem commandsQueueRemove_ends (hn : q.next e ≠ some e) :
    (commandsQueueRemove q e).head = (if q.prev e = none then q.next e else q.head) ∧
      (commandsQueueRemove q e).tail = if q.next e = none then q.prev e else q.tail := by
  cases hnext : q.next e with
  | none =>
    cases hprev : q.prev e with
    | none => simp [commandsQueueRemove, unlinkPrev, unlinkNext, hnext, hprev]
    | some p => simp [commandsQueueRemove, unlinkPrev, unlinkNext, hnext, hprev]
  | some n =>
    have hne : e ≠ n := fun h => hn (by rw [hnext, h])
    cases hprev : q.prev e with
    | none => simp [commandsQueueRemove, unlinkPrev, unlinkNext, hnext, hprev, hne]
    | some p => simp [commandsQueueRemove, unlinkPrev, unlinkNext, hnext, hprev, hne]

theorem commandsQueueRemove_lists (hl : q.Lists (l₁ ++ e :: l₂)) :
    (commandsQueueRemove q e).Lists (l₁ ++ l₂) := by
  have hnodup := hl.nodup
  rw [List.nodup_middle, List.nodup_cons] at hnodup
  have hne : ∀ b ∈ l₁ ++ l₂, b ≠ e := fun b hb => ne_of_mem_of_not_mem hb hnodup.1
  have hnext := hl.next_eq
  have hprev := hl.prev_eq
  have hn : q.next e ≠ some e := by
    intro h
    have hmem : e ∈ l₂ := List.mem_of_mem_head? (hnext.symm.trans h)
    exact hnodup.1 (List.mem_append_right _ hmem)
  have hp : q.prev e ≠ some e := by
    intro h
    have hmem : e ∈ l₁ := List.mem_of_getLast? (hprev.symm.trans h)
    exact hnodup.1 (List.mem_append_left _ hmem)
  obtain ⟨hhead, htail⟩ := commandsQueueRemove_ends hn
  refine Queued.remove hl ?_ ?_ ?_ ?_ hhead htail
  · intro b hb
    have hmem : b ∈ l₁ := List.mem_of_getLast? (hprev.symm.trans hb)
    rw [commandsQueueRemove_next hn hp (hne b (List.mem_append_left _ hmem)), if_pos hb]
  · intro b hb hother
    rw [commandsQueueRemove_next hn hp (hne b hb), if_neg hother]
  · intro b hb
    have hmem : b ∈ l₂ := List.mem_of_mem_head? (hnext.symm.trans hb)
    rw [commandsQueueRemove_prev hn (hne b (List.mem_append_right _ hmem)), if_pos hb]
  · intro b hb hother
    rw [commandsQueueRemove_prev hn (hne b hb), if_neg hother]

/-- The entries of the queue: READ LOG EXT may stand in front of the commands. -/
def queueRefs (readLog : Bool) (tags : List ℕ) : List EntryRef :=
  (if readLog then [.readLogExt] else []) ++ tags.map .command

theorem command_mem_queueRefs : .command t ∈ queueRefs readLog tags ↔ t ∈ tags := by
  cases readLog with
  | false => simp [queueRefs]
  | true => simp [queueRefs]

theorem readLogExt_notMem_queueRefs : EntryRef.readLogExt ∉ queueRefs false tags := by
  simp [queueRefs]

theorem queueRefs_append :
    queueRefs readLog (t₁ ++ t₂) = queueRefs readLog t₁ ++ t₂.map .command := by
  unfold queueRefs
  rw [List.map_append, List.append_assoc]

/-- The entries of commands. -/
def Channel.entriesOf (ch : Channel) (tags : List ℕ) : List QueuedCommandEntry :=
  tags.map fun t => ch.commandsQueue (.command t)

/-- The command of an entry is a PIO command. -/
def QueuedCommandEntry.isPio (entry : QueuedCommandEntry) : Bool := ¬ entry.info.isUdma

/-- The command of an entry is for a port. -/
def QueuedCommandEntry.onPort (p : Fin 16) (entry : QueuedCommandEntry) : Bool :=
  entry.info.pmPort = p

/-- The device tag of an entry is from a pool. -/
def QueuedCommandEntry.fromPool (cfg : ChannelConfig) (pool : Fin 16)
    (entry : QueuedCommandEntry) : Bool :=
  tagPool cfg entry.info.pmPort = pool

/-- The list, the entries in use, the tags and the counters describe the commands `tags`. -/
structure Accounted (cfg : ChannelConfig) (ch : Channel) (readLog : Bool) (tags : List ℕ) :
    Prop where
  links : ch.queue.Lists (queueRefs readLog tags)
  inUse : ∀ t, t ∈ tags ↔
    t < cfg.commandsQueueSize ∧ (ch.commandsQueue (.command t)).isFreeEntry = false
  hostTag : ∀ t ∈ tags, (ch.commandsQueue (.command t)).hostTag = t
  hostTags : (tags ++ ch.hostTagsPool.free).Perm (List.range cfg.hostTagsNum)
  deviceTags : ∀ pool,
    (((ch.entriesOf tags).filter (·.fromPool cfg pool)).map (·.deviceTag) ++
      (ch.deviceTagsPool pool).free).Perm (List.range tagsPerPool)
  outstanding : ch.outstandingCommands = (ch.entriesOf tags).length
  noneUdma : ch.noneUdmaOutstandingCommands = (ch.entriesOf tags).countP (·.isPio)
  ports : ∀ p, ch.portQueuedCommands p = (ch.entriesOf tags).countP (·.onPort p)

namespace Accounted

theorem nodup (h : Accounted cfg ch readLog tags) : tags.Nodup :=
  (List.nodup_append.mp (h.hostTags.nodup_iff.mpr List.nodup_range)).1

theorem length_add_top (h : Accounted cfg ch readLog tags) :
    tags.length + ch.hostTagsPool.top = cfg.hostTagsNum := by
  have hlength := h.hostTags.length_eq
  rw [List.length_append, TagsStack.free_length, List.length_range] at hlength
  exact hlength

theorem poolTop_le (h : Accounted cfg ch readLog tags) (pool : Fin 16) :
    (ch.deviceTagsPool pool).top ≤ tagsPerPool := by
  have hlength := (h.deviceTags pool).length_eq
  rw [List.length_append, TagsStack.free_length, List.length_range] at hlength
  omega

end Accounted

/-- There are at most 127 host tags, and an entry for each of them. -/
theorem hostTagsNum_le (cfg : ChannelConfig) :
    cfg.hostTagsNum ≤ 127 ∧ cfg.hostTagsNum ≤ cfg.commandsQueueSize := by
  unfold ChannelConfig.hostTagsNum ChannelConfig.commandsQueueSize
  by_cases huse : cfg.use128Entries = true
  · simp [huse, cfg.entries huse]
  · rw [if_neg huse]
    split_ifs
    · omega
    · omega

/-- Changing the entry of another command. -/
theorem entriesOf_congr (hsame : ∀ t ∈ tags,
    ch'.commandsQueue (.command t) = ch.commandsQueue (.command t)) :
    ch'.entriesOf tags = ch.entriesOf tags := by
  apply List.map_congr_left
  exact hsame

theorem removeCommand_entry (t' : ℕ) :
    (removeCommand cfg ch (.command t)).commandsQueue (.command t') =
      if t' = t then { ch.commandsQueue (.command t) with isFreeEntry := true }
      else ch.commandsQueue (.command t') := by
  by_cases ht : t' = t
  · rw [if_pos ht, ht]
    exact Function.update_self _ _ _
  · rw [if_neg ht]
    exact Function.update_of_ne (fun hsame => ht (EntryRef.command.inj hsame)) _ _

/-- The entries of the other commands stay. -/
theorem removeCommand_entriesOf (ht : t ∉ tags) :
    (removeCommand cfg ch (.command t)).entriesOf tags = ch.entriesOf tags := by
  apply entriesOf_congr
  intro t' ht'
  rw [removeCommand_entry, if_neg (ne_of_mem_of_not_mem ht' ht)]

theorem decr8_succ (hn : n < 255) : decr8 (n + 1) = n := by
  unfold decr8
  omega

theorem incr8_eq (hn : n < 255) : incr8 n = n + 1 := by
  unfold incr8
  omega

/-- Removing a command keeps the accounts. -/
theorem removeCommand_accounted (h : Accounted cfg ch readLog (t₁ ++ t :: t₂)) :
    Accounted cfg (removeCommand cfg ch (.command t)) readLog (t₁ ++ t₂) := by
  have hnodup := h.nodup
  rw [List.nodup_middle, List.nodup_cons] at hnodup
  have hmem : t ∈ t₁ ++ t :: t₂ := by simp
  have hlength := h.length_add_top
  have hsmall := (hostTagsNum_le cfg).1
  rw [List.length_append, List.length_cons] at hlength
  have hentries := @removeCommand_entriesOf cfg ch _ _ hnodup.1
  have hsplit : ch.entriesOf (t₁ ++ t :: t₂) =
      ch.entriesOf t₁ ++ ch.commandsQueue (.command t) :: ch.entriesOf t₂ := by
    simp [Channel.entriesOf]
  have hrest : ch.entriesOf (t₁ ++ t₂) = ch.entriesOf t₁ ++ ch.entriesOf t₂ := by
    simp [Channel.entriesOf]
  have hcount : ∀ p : QueuedCommandEntry → Bool,
      (ch.entriesOf (t₁ ++ t :: t₂)).countP p =
        (ch.entriesOf (t₁ ++ t₂)).countP p +
          if p (ch.commandsQueue (.command t)) then 1 else 0 := by
    intro p
    rw [hsplit, hrest, List.countP_append, List.countP_append, List.countP_cons]
    omega
  have hbound : ∀ p : QueuedCommandEntry → Bool, (ch.entriesOf (t₁ ++ t₂)).countP p < 255 := by
    intro p
    have hle := List.countP_le_length (p := p) (l := ch.entriesOf (t₁ ++ t₂))
    rw [Channel.entriesOf, List.length_map, List.length_append] at hle
    rw [Channel.entriesOf]
    omega
  constructor
  case links =>
    have hlinks := h.links
    rw [queueRefs_append, List.map_cons] at hlinks
    have hremoved := commandsQueueRemove_lists hlinks
    rw [← queueRefs_append] at hremoved
    exact hremoved
  case inUse =>
    intro t'
    rw [removeCommand_entry]
    by_cases ht : t' = t
    · rw [if_pos ht, ht]
      simp [hnodup.1]
    · rw [if_neg ht, ← h.inUse t']
      simp [ht]
  case hostTag =>
    intro t' ht'
    rw [removeCommand_entry, if_neg (ne_of_mem_of_not_mem ht' hnodup.1)]
    apply h.hostTag t'
    rw [List.mem_append] at ht' ⊢
    exact ht'.imp_right (List.mem_cons_of_mem t)
  case hostTags =>
    have hfree : (removeCommand cfg ch (.command t)).hostTagsPool.free =
        ch.hostTagsPool.free ++ [t] := by
      have hpush := @pushTag_free ch.hostTagsPool (by omega)
        (ch.commandsQueue (.command t)).hostTag
      rw [h.hostTag t hmem] at hpush
      rw [← hpush, ← h.hostTag t hmem]
      simp [removeCommand, releaseTag, Channel.updateEntry, h.hostTag t hmem]
    rw [hfree]
    refine List.Perm.trans ?_ h.hostTags
    rw [← List.append_assoc]
    refine (List.perm_append_singleton t _).trans ?_
    rw [← List.cons_append]
    exact List.Perm.append_right _ List.perm_middle.symm
  case deviceTags =>
    intro pool
    rw [hentries]
    have hpool := h.deviceTags pool
    have htop := h.poolTop_le pool
    unfold tagsPerPool at htop
    rw [hsplit, List.filter_append, List.filter_cons] at hpool
    rw [hrest, List.filter_append]
    have hstack : (removeCommand cfg ch (.command t)).deviceTagsPool =
        Function.update ch.deviceTagsPool (tagPool cfg (ch.commandsQueue (.command t)).info.pmPort)
          (pushTag (ch.deviceTagsPool (tagPool cfg (ch.commandsQueue (.command t)).info.pmPort))
            (ch.commandsQueue (.command t)).deviceTag) := rfl
    by_cases hfrom : tagPool cfg (ch.commandsQueue (.command t)).info.pmPort = pool
    · rw [if_pos (by simp [QueuedCommandEntry.fromPool, hfrom])] at hpool
      rw [hstack, hfrom, Function.update_self, pushTag_free (by omega)]
      refine List.Perm.trans ?_ hpool
      rw [← List.append_assoc]
      refine (List.perm_append_singleton _ _).trans ?_
      rw [← List.cons_append, List.map_append, List.map_append, List.map_cons]
      exact List.Perm.append_right _ List.perm_middle.symm
    · rw [if_neg (by simp [QueuedCommandEntry.fromPool, hfrom])] at hpool
      rw [hstack, Function.update_of_ne (Ne.symm hfrom)]
      exact hpool
  case outstanding =>
    rw [hentries]
    have hout : ch.outstandingCommands = (ch.entriesOf (t₁ ++ t₂)).length + 1 := by
      rw [h.outstanding]
      simp [Channel.entriesOf]
      omega
    have hle : (ch.entriesOf (t₁ ++ t₂)).length < 255 := by
      simp only [Channel.entriesOf, List.length_map, List.length_append]
      omega
    calc (removeCommand cfg ch (.command t)).outstandingCommands
        = decr8 ch.outstandingCommands := rfl
      _ = (ch.entriesOf (t₁ ++ t₂)).length := by rw [hout, decr8_succ hle]
  case noneUdma =>
    rw [hentries]
    have hnone := h.noneUdma
    rw [hcount] at hnone
    have hvalue : (removeCommand cfg ch (.command t)).noneUdmaOutstandingCommands =
        if (ch.commandsQueue (.command t)).info.isUdma then ch.noneUdmaOutstandingCommands
        else decr8 ch.noneUdmaOutstandingCommands := rfl
    rw [hvalue, hnone]
    by_cases hudma : (ch.commandsQueue (.command t)).info.isUdma = true
    · simp [hudma, QueuedCommandEntry.isPio]
    · rw [if_neg hudma, if_pos (by simp [QueuedCommandEntry.isPio, hudma]), decr8_succ (hbound _)]
  case ports =>
    intro p
    rw [hentries]
    have hport := h.ports p
    rw [hcount] at hport
    have hvalue : (removeCommand cfg ch (.command t)).portQueuedCommands =
        Function.update ch.portQueuedCommands (ch.commandsQueue (.command t)).info.pmPort
          (decr8 (ch.portQueuedCommands (ch.commandsQueue (.command t)).info.pmPort)) := rfl
    rw [hvalue]
    by_cases hon : (ch.commandsQueue (.command t)).info.pmPort = p
    · rw [if_pos (by simp [QueuedCommandEntry.onPort, hon])] at hport
      rw [hon, Function.update_self, hport, decr8_succ (hbound _)]
    · rw [if_neg (by simp [QueuedCommandEntry.onPort, hon])] at hport
      rw [Function.update_of_ne (Ne.symm hon), hport]
      rfl

/-- What `getTag` does where a tag is free. -/
theorem getTag_some {p : Fin 16} {d : ℕ} (hget : getTag cfg ch p = some (t, d, ch')) :
    0 < ch.hostTagsPool.top ∧ 0 < (ch.deviceTagsPool (tagPool cfg p)).top ∧
      t = (popTag ch.hostTagsPool).1 ∧ d = (popTag (ch.deviceTagsPool (tagPool cfg p))).1 ∧
      ch' = { ch with
        hostTagsPool := (popTag ch.hostTagsPool).2
        deviceTagsPool := Function.update ch.deviceTagsPool (tagPool cfg p)
          (popTag (ch.deviceTagsPool (tagPool cfg p))).2 } := by
  unfold getTag at hget
  by_cases htop : ch.hostTagsPool.top = 0 ∨ (ch.deviceTagsPool (tagPool cfg p)).top = 0
  · rw [if_pos htop] at hget
    cases hget
  · rw [if_neg htop] at hget
    simp only [Option.some.injEq, Prod.mk.injEq] at hget
    push Not at htop
    obtain ⟨rfl, rfl, rfl⟩ := hget
    exact ⟨Nat.pos_of_ne_zero htop.1, Nat.pos_of_ne_zero htop.2, rfl, rfl, rfl⟩

/-- A command with the tags that have been taken. -/
def newEntry (hostTag deviceTag : ℕ) (info : CommandInfo) : QueuedCommandEntry :=
  { isFreeEntry := false
    hostTag := hostTag
    deviceTag := deviceTag
    isCommandInEdma := false
    commandAborted := false
    info := info }

theorem addCommand_entry {d : ℕ} (t' : ℕ) :
    (addCommand (ch.prepareEntry t d) (.command t) info).commandsQueue (.command t') =
      if t' = t then newEntry t d info else ch.commandsQueue (.command t') := by
  by_cases ht : t' = t
  · rw [if_pos ht, ht]
    simp [addCommand, Channel.prepareEntry, Channel.updateEntry, newEntry]
  · rw [if_neg ht]
    simp [addCommand, Channel.prepareEntry, Channel.updateEntry, Function.update_of_ne, ht]

/-- Adding a command with the tags that have been taken keeps the accounts. -/
theorem addCommand_accounted {d : ℕ} (h : Accounted cfg ch readLog tags)
    (hget : getTag cfg ch info.pmPort = some (t, d, ch')) :
    t ∉ tags ∧
      Accounted cfg (addCommand (ch'.prepareEntry t d) (.command t) info) readLog
        (tags ++ [t]) := by
  obtain ⟨hhost, hdevice, ht, hd, hch⟩ := getTag_some hget
  have hlength := h.length_add_top
  have hsmall := hostTagsNum_le cfg
  have hfree : (popTag ch.hostTagsPool).2.free ++ [t] = ch.hostTagsPool.free := by
    rw [ht]
    exact popTag_free hhost (by omega)
  have hall : (tags ++ ((popTag ch.hostTagsPool).2.free ++ [t])).Perm
      (List.range cfg.hostTagsNum) := by
    rw [hfree]
    exact h.hostTags
  have hnew : t ∉ tags := by
    have hnodup := hall.nodup_iff.mpr List.nodup_range
    intro hmem
    exact (List.disjoint_of_nodup_append hnodup) hmem (by simp)
  have hlt : t < cfg.hostTagsNum := by
    rw [← List.mem_range, ← hall.mem_iff]
    simp
  have hentry : ∀ t', (addCommand (ch'.prepareEntry t d) (.command t) info).commandsQueue
      (.command t') = if t' = t then newEntry t d info else ch.commandsQueue (.command t') := by
    intro t'
    rw [addCommand_entry, hch]
  have hentries : (addCommand (ch'.prepareEntry t d) (.command t) info).entriesOf (tags ++ [t]) =
      ch.entriesOf tags ++ [newEntry t d info] := by
    have hold : ∀ t' ∈ tags, (addCommand (ch'.prepareEntry t d) (.command t) info).commandsQueue
        (.command t') = ch.commandsQueue (.command t') := by
      intro t' ht'
      rw [hentry, if_neg (ne_of_mem_of_not_mem ht' hnew)]
    have hlast := hentry t
    rw [if_pos rfl] at hlast
    rw [← entriesOf_congr hold]
    simp [Channel.entriesOf, hlast]
  have hbound : ∀ p : QueuedCommandEntry → Bool, (ch.entriesOf tags).countP p < 255 := by
    intro p
    have hle := List.countP_le_length (p := p) (l := ch.entriesOf tags)
    rw [Channel.entriesOf, List.length_map] at hle
    rw [Channel.entriesOf]
    omega
  refine ⟨hnew, ?_⟩
  constructor
  case links =>
    have hqueue : (addCommand (ch'.prepareEntry t d) (.command t) info).queue =
        commandsQueueAddTail ch.queue (.command t) := by
      rw [hch]
      rfl
    rw [hqueue, queueRefs_append]
    exact commandsQueueAddTail_lists h.links (fun hmem => hnew (command_mem_queueRefs.mp hmem))
  case inUse =>
    intro t'
    rw [hentry]
    by_cases htt : t' = t
    · rw [if_pos htt, htt]
      simp only [List.mem_append, List.mem_singleton, or_true, true_iff]
      exact ⟨by omega, rfl⟩
    · rw [if_neg htt, ← h.inUse t']
      simp [htt]
  case hostTag =>
    intro t' ht'
    rw [hentry]
    by_cases htt : t' = t
    · rw [if_pos htt, htt]
      rfl
    · rw [if_neg htt]
      apply h.hostTag t'
      simpa [htt] using ht'
  case hostTags =>
    have hpool : (addCommand (ch'.prepareEntry t d) (.command t) info).hostTagsPool =
        (popTag ch.hostTagsPool).2 := by
      rw [hch]
      rfl
    rw [hpool]
    refine List.Perm.trans ?_ hall
    rw [List.append_assoc]
    exact List.Perm.append_left _ List.perm_append_comm
  case deviceTags =>
    intro pool
    have hpool := h.deviceTags pool
    have hstack : (addCommand (ch'.prepareEntry t d) (.command t) info).deviceTagsPool =
        Function.update ch.deviceTagsPool (tagPool cfg info.pmPort)
          (popTag (ch.deviceTagsPool (tagPool cfg info.pmPort))).2 := by
      rw [hch]
      rfl
    rw [hentries, hstack, List.filter_append]
    by_cases hfrom : tagPool cfg info.pmPort = pool
    · have htop := h.poolTop_le pool
      unfold tagsPerPool at htop
      rw [hfrom] at hdevice hd
      have hpop := popTag_free hdevice (by omega)
      rw [← hpop, ← hd] at hpool
      rw [hfrom, Function.update_self]
      refine List.Perm.trans ?_ hpool
      simp only [List.filter_cons, QueuedCommandEntry.fromPool, newEntry, hfrom, decide_true,
        if_true, List.filter_nil, List.map_append, List.map_cons, List.map_nil, List.append_assoc]
      exact List.Perm.append_left _ List.perm_append_comm
    · rw [Function.update_of_ne (Ne.symm hfrom)]
      simpa [QueuedCommandEntry.fromPool, newEntry, hfrom] using hpool
  case outstanding =>
    have hout : (addCommand (ch'.prepareEntry t d) (.command t) info).outstandingCommands =
        incr8 ch.outstandingCommands := by
      rw [hch]
      rfl
    have hle : (ch.entriesOf tags).length < 255 := by
      rw [Channel.entriesOf, List.length_map]
      omega
    rw [hentries, hout, h.outstanding, incr8_eq hle, List.length_append]
    rfl
  case noneUdma =>
    have hnone : (addCommand (ch'.prepareEntry t d) (.command t) info).noneUdmaOutstandingCommands =
        if info.isUdma then ch.noneUdmaOutstandingCommands
        else incr8 ch.noneUdmaOutstandingCommands := by
      rw [hch]
      rfl
    rw [hentries, hnone, h.noneUdma, List.countP_append, List.countP_singleton]
    by_cases hudma : info.isUdma = true
    · simp [hudma, QueuedCommandEntry.isPio, newEntry]
    · rw [if_neg hudma, if_pos (by simp [QueuedCommandEntry.isPio, newEntry, hudma]),
        incr8_eq (hbound _)]
  case ports =>
    intro p
    have hport : (addCommand (ch'.prepareEntry t d) (.command t) info).portQueuedCommands =
        Function.update ch.portQueuedCommands info.pmPort
          (incr8 (ch.portQueuedCommands info.pmPort)) := by
      rw [hch]
      rfl
    rw [hentries, hport, List.countP_append, List.countP_singleton]
    by_cases hon : info.pmPort = p
    · rw [hon, Function.update_self, h.ports p, incr8_eq (hbound _),
        if_pos (by simp [QueuedCommandEntry.onPort, newEntry, hon])]
    · rw [Function.update_of_ne (Ne.symm hon), h.ports p,
        if_neg (by simp [QueuedCommandEntry.onPort, newEntry, hon])]
      rfl

end Mv88fxx81.Sata.Core
