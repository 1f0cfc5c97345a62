import Mathlib.Data.List.Induction
import Mv88fxx81.Lib.LinkedChain
import Mv88fxx81.Lib.Run
import Mv88fxx81.Sata.Scsi

/-!
# The pending SCSI commands of a channel

While a channel is not ready its SCSI commands wait in a list that is linked
through the command blocks themselves. The functions of the list are modelled on
a memory of blocks, and compared with a queue that is a list.

The functions that walk along the links take a number of steps that the walk may
make, and answer `none` when it is used up.
-/

namespace Mv88fxx81.Sata

open LinkedChain TransitionSystem

variable {α : Type*}

/-- What the queue functions use of `MV_SATA_SCSI_CMD_BLOCK`. Of the callback they see whether
there is one. -/
structure CmdBlock (α : Type*) where
  pNext : Option α
  completionCallBack : Bool
  scsiStatus : UInt8
  dataTransfered : UInt32
  scsiCommandCompletion : ScsiCompletion

/-- `MV_SCSI_STATUS_BUSY`. -/
def scsiStatusBusy : UInt8 := 0x08

/-- The queue of a channel, `IALChannelPendingCmdQueue`, and the memory of the command blocks. -/
structure PendingQueue (α : Type*) where
  head : Option α
  blocks : α → CmdBlock α

namespace PendingQueue

/-- The links of the blocks. -/
def links (q : PendingQueue α) (b : α) : Option α := (q.blocks b).pNext

/-- The assignment `b->pNext = link`. -/
def setNext [DecidableEq α] (q : PendingQueue α) (b : α) (link : Option α) : PendingQueue α :=
  { q with blocks := Function.update q.blocks b { q.blocks b with pNext := link } }

/-- The loop of `mvAddToSCSICommandQueue`: the last block. -/
def lastBlock (q : PendingQueue α) : ℕ → α → Option α
  | 0, _ => none
  | fuel + 1, cmdBlock =>
    match q.links cmdBlock with
    | none => some cmdBlock
    | some nextBlock => lastBlock q fuel nextBlock

variable [DecidableEq α]

/-- `mvAddToSCSICommandQueue`. -/
def mvAddToSCSICommandQueue (fuel : ℕ) (q : PendingQueue α) (pScb : α) :
    Option (PendingQueue α) :=
  let q := q.setNext pScb none
  match q.head with
  | some cmdBlock => (q.lastBlock fuel cmdBlock).map fun last => q.setNext last (some pScb)
  | none => some { q with head := some pScb }

/-- The loop of `mvRemoveFromSCSICommandQueue`: the block that links to `pScb`, or the last one. -/
def blockBefore (q : PendingQueue α) (pScb : α) : ℕ → α → Option α
  | 0, _ => none
  | fuel + 1, cmdBlock =>
    match q.links cmdBlock with
    | none => some cmdBlock
    | some nextBlock =>
      if nextBlock = pScb then some cmdBlock else blockBefore q pScb fuel nextBlock

/-- `mvRemoveFromSCSICommandQueue`. The link of the block is cleared before the queue is searched
for it. -/
def mvRemoveFromSCSICommandQueue (fuel : ℕ) (q : PendingQueue α) (pScb : α) :
    Option (Bool × PendingQueue α) :=
  let q := q.setNext pScb none
  match q.head with
  | some cmdBlock =>
    if cmdBlock = pScb then some (true, { q with head := q.links cmdBlock })
    else
      (q.blockBefore pScb fuel cmdBlock).map fun cmdBlock =>
        match q.links cmdBlock with
        | none => (false, q)
        | some nextBlock => (true, q.setNext cmdBlock (q.links nextBlock))
  | none => some (false, q)

/-- The results that `mvFlushSCSICommandQueue` writes before it calls the callback. -/
def busyBlock (block : CmdBlock α) : CmdBlock α :=
  { block with
    scsiStatus := scsiStatusBusy
    dataTransfered := 0
    scsiCommandCompletion := .queueFull }

/-- The loop of `mvFlushSCSICommandQueue`, with the blocks whose callback it calls. -/
def flushFrom : ℕ → (α → CmdBlock α) → Option α → Option (List α × (α → CmdBlock α))
  | _, blocks, none => some ([], blocks)
  | 0, _, some _ => none
  | fuel + 1, blocks, some cmdBlock =>
    let nextBlock := (blocks cmdBlock).pNext
    if (blocks cmdBlock).completionCallBack then
      (flushFrom fuel (Function.update blocks cmdBlock (busyBlock (blocks cmdBlock)))
        nextBlock).map fun (called, blocks) => (cmdBlock :: called, blocks)
    else flushFrom fuel blocks nextBlock

/-- `mvFlushSCSICommandQueue`. -/
def mvFlushSCSICommandQueue (fuel : ℕ) (q : PendingQueue α) : Option (List α × PendingQueue α) :=
  (flushFrom fuel q.blocks q.head).map fun (called, blocks) => (called, ⟨none, blocks⟩)

end PendingQueue

/-- The calls of the queue functions. -/
inductive PendingEvent (α : Type*)
  | add (pScb : α)
  | remove (pScb : α)
  | flush
  deriving DecidableEq, Repr

/-- What a call returns, and for a flush the blocks whose callback has been called. -/
inductive PendingAnswer (α : Type*)
  | added
  | removed (found : Bool)
  | flushed (called : List α)
  deriving DecidableEq, Repr

variable [DecidableEq α]

/-- One call of a queue function. -/
def pendingStep (fuel : ℕ) (q : PendingQueue α) :
    PendingEvent α → Option (PendingAnswer α × PendingQueue α)
  | .add pScb => (q.mvAddToSCSICommandQueue fuel pScb).map fun q => (.added, q)
  | .remove pScb =>
    (q.mvRemoveFromSCSICommandQueue fuel pScb).map fun (found, q) => (.removed found, q)
  | .flush => (q.mvFlushSCSICommandQueue fuel).map fun (called, q) => (.flushed called, q)

/-- The first-in first-out queue that the functions are to implement: its answer to a call and
the blocks it holds afterwards. -/
def fifoStep (hasCallback : α → Bool) (l : List α) : PendingEvent α → PendingAnswer α × List α
  | .add pScb => (.added, l ++ [pScb])
  | .remove pScb => (.removed (decide (pScb ∈ l)), l.erase pScb)
  | .flush => (.flushed (l.filter hasCallback), [])

/-- The blocks added and not removed or flushed by a sequence of calls, oldest first. -/
def fifoQueue (es : List (PendingEvent α)) : List α :=
  es.foldl (fun l e => (fifoStep (fun _ => true) l e).2) []

namespace PendingQueue

variable {q q' : PendingQueue α} {b c : α} {l l₁ l₂ : List α} {fuel : ℕ}

/-- The queue links the blocks of the list in their order. -/
def Holds (q : PendingQueue α) (l : List α) : Prop := Chained q.links q.head l

omit [DecidableEq α] in
/-- The walk to the end of the queue stops at its last block. -/
theorem lastBlock_eq (hchain : Chained q.links (some b) (l ++ [c])) (hfuel : l.length < fuel) :
    q.lastBlock fuel b = some c := by
  induction l generalizing b fuel with
  | nil =>
    obtain ⟨fuel, rfl⟩ := Nat.exists_eq_add_of_lt hfuel
    obtain ⟨hb, hend⟩ := hchain
    obtain rfl := Option.some.inj hb
    simp only [lastBlock, chained_nil.mp hend]
  | cons a l ih =>
    obtain ⟨hb, htail⟩ := hchain
    obtain rfl := Option.some.inj hb
    cases fuel with
    | zero => exact absurd hfuel (Nat.not_lt_zero _)
    | succ fuel =>
      cases hnext : q.links b with
      | none =>
        rw [hnext] at htail
        have hnil := htail.unique (chained_nil.mpr rfl)
        simp at hnil
      | some nextBlock =>
        rw [hnext] at htail
        simp only [lastBlock, hnext]
        exact ih htail (Nat.lt_of_succ_lt_succ hfuel)

@[simp] theorem head_setNext {link : Option α} : (q.setNext b link).head = q.head := rfl

@[simp] theorem links_setNext {link : Option α} :
    (q.setNext b link).links = Function.update q.links b link := by
  funext c
  by_cases hc : c = b
  · subst hc
    simp [links, setNext]
  · simp [links, setNext, hc]

@[simp] theorem completionCallBack_setNext {link : Option α} :
    ((q.setNext b link).blocks c).completionCallBack = (q.blocks c).completionCallBack := by
  by_cases hc : c = b
  · subst hc
    simp [setNext]
  · simp [setNext, hc]

/-- A block is added at the end. -/
theorem mvAdd_holds (hq : q.Holds l) (hb : b ∉ l) (hfuel : l.length < fuel) :
    ∃ q', q.mvAddToSCSICommandQueue fuel b = some q' ∧ q'.Holds (l ++ [b]) ∧
      ∀ c, (q'.blocks c).completionCallBack = (q.blocks c).completionCallBack := by
  have hclear : Chained (q.setNext b none).links q.head l := by
    rw [links_setNext]
    exact hq.update_of_notMem hb
  cases hhead : q.head with
  | none =>
    rw [hhead] at hclear
    obtain rfl : l = [] := hclear.unique (chained_nil.mpr rfl)
    refine ⟨{ q.setNext b none with head := some b }, ?_, ?_, fun c => by simp⟩
    · simp only [mvAddToSCSICommandQueue, head_setNext, hhead]
    · refine ⟨rfl, ?_⟩
      change (q.setNext b none).links b = none
      rw [links_setNext, Function.update_self]
  | some first =>
    rw [hhead] at hclear
    rcases List.eq_nil_or_concat l with rfl | ⟨l, last, rfl⟩
    · cases hclear
    · rw [List.concat_eq_append] at hclear hb hfuel ⊢
      have hlast : (q.setNext b none).lastBlock fuel first = some last :=
        lastBlock_eq hclear (by simp at hfuel; omega)
      refine ⟨(q.setNext b none).setNext last (some b), ?_, ?_, fun c => by simp⟩
      · simp only [mvAddToSCSICommandQueue, head_setNext, hhead, hlast, Option.map_some]
      · have hblock : Chained (q.setNext b none).links (some b) [b] := by simp
        have hne : last ∉ [b] := by
          intro hmem
          obtain rfl := List.mem_singleton.mp hmem
          exact hb (by simp)
        unfold Holds
        rw [links_setNext, head_setNext, head_setNext, hhead]
        simpa using hclear.relink hblock hne

/-- The search for a block that is not in the queue ends at the last block, which has no link. -/
theorem blockBefore_of_notMem (hchain : Chained q.links (some b) l) (hc : c ∉ l)
    (hfuel : l.length < fuel) :
    ∃ last, q.blockBefore c fuel b = some last ∧ q.links last = none := by
  induction l generalizing b fuel with
  | nil => cases hchain
  | cons a l ih =>
    obtain ⟨hb, htail⟩ := hchain
    obtain rfl := Option.some.inj hb
    cases fuel with
    | zero => exact absurd hfuel (Nat.not_lt_zero _)
    | succ fuel =>
      cases hnext : q.links b with
      | none => exact ⟨b, by simp [blockBefore, hnext], hnext⟩
      | some nextBlock =>
        rw [hnext] at htail
        have hne : nextBlock ≠ c := by
          rintro rfl
          cases l with
          | nil => cases htail
          | cons d l =>
            obtain rfl := Option.some.inj htail.1
            exact hc (by simp)
        simp only [blockBefore, hnext, if_neg hne]
        exact ih htail (fun hmem => hc (List.mem_cons_of_mem b hmem))
          (Nat.lt_of_succ_lt_succ hfuel)

/-- The search for a block behind the first one stops at the block before it. -/
theorem blockBefore_eq {p : α} (hchain : Chained q.links (some b) (l₁ ++ p :: c :: l₂))
    (hfuel : l₁.length < fuel) : q.blockBefore c fuel b = some p ∧ q.links p = some c := by
  have hnodup := hchain.nodup
  induction l₁ generalizing b fuel with
  | nil =>
    obtain ⟨fuel, rfl⟩ := Nat.exists_eq_add_of_lt hfuel
    obtain ⟨hb, hnext, -⟩ := hchain
    obtain rfl := Option.some.inj hb
    simp [blockBefore, hnext]
  | cons a l₁ ih =>
    obtain ⟨hb, htail⟩ := hchain
    obtain rfl := Option.some.inj hb
    cases fuel with
    | zero => exact absurd hfuel (Nat.not_lt_zero _)
    | succ fuel =>
      cases hnext : q.links b with
      | none =>
        rw [hnext] at htail
        have hnil := htail.unique (chained_nil.mpr rfl)
        simp at hnil
      | some nextBlock =>
        rw [hnext] at htail
        have hne : nextBlock ≠ c := by
          rintro rfl
          have hfirst : (l₁ ++ p :: nextBlock :: l₂).head? = some nextBlock := by
            cases l₁ with
            | nil => exact htail.1.symm
            | cons d l₁ => exact htail.1.symm
          have htailNodup := (List.nodup_cons.mp hnodup).2
          cases l₁ with
          | nil =>
            simp only [List.nil_append, List.head?_cons, Option.some.injEq] at hfirst
            subst hfirst
            simp at htailNodup
          | cons d l₁ =>
            simp only [List.cons_append, List.head?_cons, Option.some.injEq] at hfirst
            subst hfirst
            simp at htailNodup
        simp only [blockBefore, hnext, if_neg hne]
        exact ih htail (Nat.lt_of_succ_lt_succ hfuel) hnodup.tail

/-- A block that is not queued is not found, and the queue stays. -/
theorem mvRemove_of_notMem (hq : q.Holds l) (hb : b ∉ l) (hfuel : l.length < fuel) :
    ∃ q', q.mvRemoveFromSCSICommandQueue fuel b = some (false, q') ∧ q'.Holds l ∧
      ∀ c, (q'.blocks c).completionCallBack = (q.blocks c).completionCallBack := by
  have hclear : Chained (q.setNext b none).links q.head l := by
    rw [links_setNext]
    exact hq.update_of_notMem hb
  refine ⟨q.setNext b none, ?_, hclear, fun c => by simp⟩
  cases hhead : q.head with
  | none => simp only [mvRemoveFromSCSICommandQueue, head_setNext, hhead]
  | some first =>
    rw [hhead] at hclear
    have hne : first ≠ b := by
      rintro rfl
      cases l with
      | nil => cases hclear
      | cons a l =>
        obtain rfl := Option.some.inj hclear.1
        exact hb List.mem_cons_self
    obtain ⟨last, hlast, hend⟩ := blockBefore_of_notMem hclear hb hfuel
    simp only [mvRemoveFromSCSICommandQueue, head_setNext, hhead, if_neg hne, hlast,
      Option.map_some, hend]

/-- A queued block is found, and the queue is cut off before it: the link that would keep the
blocks behind it has been cleared. -/
theorem mvRemove_of_mem (hq : q.Holds (l₁ ++ b :: l₂)) (hfuel : l₁.length < fuel) :
    ∃ q', q.mvRemoveFromSCSICommandQueue fuel b = some (true, q') ∧ q'.Holds l₁ ∧
      ∀ c, (q'.blocks c).completionCallBack = (q.blocks c).completionCallBack := by
  have hcut : Chained (q.setNext b none).links q.head (l₁ ++ [b]) := by
    rw [links_setNext]
    exact hq.relink (chained_nil.mpr rfl) List.not_mem_nil
  have hlink : (q.setNext b none).links b = none := by
    rw [links_setNext, Function.update_self]
  rcases List.eq_nil_or_concat l₁ with rfl | ⟨l₁, p, rfl⟩
  · have hhead : q.head = some b := hcut.1
    refine ⟨{ q.setNext b none with head := none }, ?_, rfl, fun c => by simp⟩
    simp only [mvRemoveFromSCSICommandQueue, head_setNext, hhead, if_true, hlink]
  · rw [List.concat_eq_append] at hcut hfuel ⊢
    rw [List.append_assoc] at hcut
    have hnodup := hcut.nodup
    cases hhead : q.head with
    | none =>
      rw [hhead] at hcut
      have hnil := hcut.unique (chained_nil.mpr rfl)
      simp at hnil
    | some first =>
      have hne : first ≠ b := by
        rintro rfl
        rw [hhead] at hcut
        cases l₁ with
        | nil =>
          obtain rfl := Option.some.inj hcut.1
          simp at hnodup
        | cons a l₁ =>
          obtain rfl := Option.some.inj hcut.1
          simp at hnodup
      obtain ⟨hbefore, hnext⟩ := blockBefore_eq
        (hhead ▸ hcut : Chained (q.setNext b none).links (some first) (l₁ ++ p :: b :: []))
        (by simp at hfuel; omega : l₁.length < fuel)
      refine ⟨(q.setNext b none).setNext p none, ?_, ?_, fun c => by simp⟩
      · simp only [mvRemoveFromSCSICommandQueue, head_setNext, hhead, if_neg hne, hbefore,
          Option.map_some, hnext, hlink]
      · unfold Holds
        rw [links_setNext, head_setNext, head_setNext]
        exact hcut.relink (chained_nil.mpr rfl) List.not_mem_nil

/-- The flush calls the callbacks of the blocks in their order. -/
theorem flushFrom_eq {hasCallback : α → Bool} {blocks : α → CmdBlock α} {head : Option α}
    (hback : ∀ c, (blocks c).completionCallBack = hasCallback c)
    (hchain : Chained (fun b => (blocks b).pNext) head l) (hfuel : l.length ≤ fuel) :
    ∃ blocks', flushFrom fuel blocks head = some (l.filter hasCallback, blocks') ∧
      ∀ c, (blocks' c).completionCallBack = hasCallback c := by
  have hnodup := hchain.nodup
  induction l generalizing blocks head fuel with
  | nil =>
    obtain rfl := chained_nil.mp hchain
    exact ⟨blocks, by simp [flushFrom], hback⟩
  | cons b l ih =>
    obtain ⟨rfl, htail⟩ := hchain
    obtain ⟨hb, hnodup⟩ := List.nodup_cons.mp hnodup
    cases fuel with
    | zero => simp at hfuel
    | succ fuel =>
      have hfuel' : l.length ≤ fuel := by simpa using hfuel
      by_cases hcall : hasCallback b
      · let marked := Function.update blocks b (busyBlock (blocks b))
        have hmarked : ∀ c, (marked c).completionCallBack = hasCallback c := by
          intro c
          by_cases hc : c = b
          · subst hc
            simp [marked, busyBlock, hback]
          · simp [marked, hc, hback]
        -- the link has been read before the callback, and the blocks behind are untouched
        have hrest : Chained (fun c => (marked c).pNext) (blocks b).pNext l := by
          apply htail.congr
          intro c hc
          simp [marked, ne_of_mem_of_not_mem hc hb]
        obtain ⟨blocks', hflush, hkept⟩ := ih hmarked hrest hfuel' hnodup
        refine ⟨blocks', ?_, hkept⟩
        simp only [flushFrom, hback b, if_pos hcall, List.filter_cons_of_pos hcall]
        change (flushFrom fuel marked _).map _ = _
        rw [hflush]
        rfl
      · obtain ⟨blocks', hflush, hkept⟩ := ih hback htail hfuel' hnodup
        refine ⟨blocks', ?_, hkept⟩
        simp only [flushFrom, hback b, if_neg hcall, List.filter_cons_of_neg hcall]
        exact hflush

/-- The queue holds the blocks of the list, and the callbacks are those of the start. -/
structure Represents (q : PendingQueue α) (hasCallback : α → Bool) (l : List α) : Prop where
  holds : q.Holds l
  callback : ∀ b, (q.blocks b).completionCallBack = hasCallback b

/-- The queue after a call: as the list queue has it, apart from the blocks behind a removed one. -/
def codeQueue (l : List α) : PendingEvent α → List α
  | .remove pScb => l.takeWhile (· ≠ pScb)
  | e => (fifoStep (fun _ => true) l e).2

/-- One call of a queue function. -/
theorem pendingStep_represents {hasCallback : α → Bool} {e : PendingEvent α}
    (hq : q.Represents hasCallback l) (hadd : ∀ b, e = .add b → b ∉ l) (hfuel : l.length < fuel) :
    ∃ q', pendingStep fuel q e = some ((fifoStep hasCallback l e).1, q') ∧
      q'.Represents hasCallback (codeQueue l e) := by
  cases e with
  | add b =>
    obtain ⟨q', hstep, hholds, hback⟩ := mvAdd_holds hq.holds (hadd b rfl) hfuel
    refine ⟨q', ?_, hholds, fun c => (hback c).trans (hq.callback c)⟩
    simp [pendingStep, hstep, fifoStep]
  | remove b =>
    by_cases hb : b ∈ l
    · obtain ⟨l₁, l₂, rfl⟩ := List.append_of_mem hb
      have hbefore : ∀ a ∈ l₁, a ≠ b := by
        rintro a ha rfl
        have hnodup := hq.holds.nodup
        simp [List.nodup_append, List.nodup_cons] at hnodup
        exact (hnodup.2.2 a ha).1 rfl
      have hlength : l₁.length < fuel := by
        rw [List.length_append] at hfuel
        omega
      obtain ⟨q', hstep, hholds, hback⟩ := mvRemove_of_mem hq.holds hlength
      refine ⟨q', ?_, ?_, fun c => (hback c).trans (hq.callback c)⟩
      · simp [pendingStep, hstep, fifoStep]
      · have hcut : codeQueue (l₁ ++ b :: l₂) (.remove b) = l₁ := by
          have hpos : ∀ a ∈ l₁, decide (a ≠ b) = true := by simpa using hbefore
          change List.takeWhile (· ≠ b) (l₁ ++ b :: l₂) = l₁
          rw [List.takeWhile_append_of_pos hpos]
          simp
        rwa [hcut]
    · obtain ⟨q', hstep, hholds, hback⟩ := mvRemove_of_notMem hq.holds hb hfuel
      refine ⟨q', ?_, ?_, fun c => (hback c).trans (hq.callback c)⟩
      · simp [pendingStep, hstep, fifoStep, hb]
      · have hcut : codeQueue l (.remove b) = l := by
          change List.takeWhile (· ≠ b) l = l
          rw [List.takeWhile_eq_self_iff]
          intro a ha
          simpa using ne_of_mem_of_not_mem ha hb
        rwa [hcut]
  | flush =>
    obtain ⟨blocks', hflush, hback⟩ := flushFrom_eq hq.callback hq.holds (Nat.le_of_lt hfuel)
    refine ⟨⟨none, blocks'⟩, ?_, rfl, hback⟩
    simp [pendingStep, mvFlushSCSICommandQueue, hflush, fifoStep]

/-- Cutting a queue off before a block is removing it exactly when it is not queued or the last
one. -/
theorem codeQueue_eq_iff (hasCallback : α → Bool) (hnodup : l.Nodup) (e : PendingEvent α) :
    codeQueue l e = (fifoStep hasCallback l e).2 ↔
      ∀ b, e = .remove b → b ∉ l ∨ l.getLast? = some b := by
  cases e with
  | add b => simp [codeQueue, fifoStep]
  | flush => simp [codeQueue, fifoStep]
  | remove b =>
    simp only [codeQueue, fifoStep, PendingEvent.remove.injEq, forall_eq']
    by_cases hb : b ∈ l
    · obtain ⟨l₁, l₂, rfl⟩ := List.append_of_mem hb
      have hbefore : b ∉ l₁ := by
        intro hmem
        exact (List.nodup_append.mp hnodup).2.2 b hmem b List.mem_cons_self rfl
      have hpos : ∀ a ∈ l₁, decide (a ≠ b) = true := by
        intro a ha
        simpa using ne_of_mem_of_not_mem ha hbefore
      rw [List.takeWhile_append_of_pos hpos, List.erase_append_right _ hbefore]
      cases l₂ with
      | nil => simp
      | cons c l₂ =>
        have hne : (c :: l₂).getLast? ≠ some b := by
          intro hlast
          have hmem := List.mem_of_getLast? hlast
          have hcons := (List.nodup_append.mp hnodup).2.1
          exact (List.nodup_cons.mp hcons).1 hmem
        simpa using hne
    · have hself : l.takeWhile (· ≠ b) = l := by
        rw [List.takeWhile_eq_self_iff]
        intro a ha
        simpa using ne_of_mem_of_not_mem ha hb
      rw [hself, List.erase_of_not_mem hb]
      exact ⟨fun _ => Or.inl hb, fun _ => rfl⟩

end PendingQueue

open PendingQueue

variable {α : Type*} [DecidableEq α] {es es₁ : List (PendingEvent α)} {e : PendingEvent α}
  {fuel : ℕ} {hasCallback : α → Bool}

/-- A block is added only while it is not queued. -/
def AddedOnce (es : List (PendingEvent α)) : Prop :=
  Throughout (fun past e => ∀ b, e = .add b → b ∉ fifoQueue past) es

/-- A removed block is not queued, or it is the last one of the queue. -/
def RemovesLast (es : List (PendingEvent α)) : Prop :=
  Throughout (fun past e => ∀ b, e = .remove b →
    b ∉ fifoQueue past ∨ (fifoQueue past).getLast? = some b) es

/-- The calls with the answers of the list queue. -/
def fifoTrace (hasCallback : α → Bool) :
    List α → List (PendingEvent α) → List (PendingEvent α × PendingAnswer α)
  | _, [] => []
  | l, e :: es =>
    (e, (fifoStep hasCallback l e).1) :: fifoTrace hasCallback (fifoStep hasCallback l e).2 es

/-- A sequence of calls is answered as by the list queue, and leaves a queue of the blocks that
the list queue holds. -/
def FollowsFifo (fuel : ℕ) (blocks : α → CmdBlock α) (es : List (PendingEvent α)) : Prop :=
  ∃ q, exec (pendingStep fuel) (fun _ _ => True) ⟨none, blocks⟩ es =
      some (fifoTrace (fun b => (blocks b).completionCallBack) [] es, q) ∧
    q.Holds (fifoQueue es)

theorem fifoQueue_concat (hasCallback : α → Bool) :
    fifoQueue (es ++ [e]) = (fifoStep hasCallback (fifoQueue es) e).2 := by
  unfold fifoQueue
  rw [List.foldl_append]
  cases e <;> rfl

theorem fifoQueue_length_le : (fifoQueue es).length ≤ es.length := by
  induction es using List.reverseRecOn with
  | nil => exact Nat.le_refl 0
  | append_singleton es e ih =>
    rw [fifoQueue_concat fun _ => true, List.length_append]
    cases e with
    | add b => simpa [fifoStep] using ih
    | remove b =>
      have hlength := List.length_erase_le (a := b) (l := fifoQueue es)
      simp only [fifoStep, List.length_singleton]
      omega
    | flush => simp [fifoStep]

theorem fifoTrace_concat :
    fifoTrace hasCallback [] (es ++ [e]) =
      fifoTrace hasCallback [] es ++ [(e, (fifoStep hasCallback (fifoQueue es) e).1)] := by
  have hfrom : ∀ l : List α, fifoTrace hasCallback l (es ++ [e]) = fifoTrace hasCallback l es ++
      [(e, (fifoStep hasCallback
        (es.foldl (fun l e => (fifoStep (fun _ => true) l e).2) l) e).1)] := by
    induction es with
    | nil => exact fun l => rfl
    | cons e₁ es ih =>
      intro l
      have hsame : (fifoStep hasCallback l e₁).2 = (fifoStep (fun _ => true) l e₁).2 := by
        cases e₁ <;> rfl
      simp only [List.cons_append, fifoTrace, ih, List.foldl_cons, hsame]
  exact hfrom []

/-- A call after a sequence that is answered as by the list queue: its answer, and the queue it
leaves. -/
theorem exec_concat_represents {blocks : α → CmdBlock α} {q : PendingQueue α}
    (hexec : exec (pendingStep fuel) (fun _ _ => True) ⟨none, blocks⟩ es =
      some (fifoTrace (fun b => (blocks b).completionCallBack) [] es, q))
    (hq : q.Represents (fun b => (blocks b).completionCallBack) (fifoQueue es))
    (hadd : ∀ b, e = .add b → b ∉ fifoQueue es) (hfuel : es.length < fuel) :
    ∃ q', exec (pendingStep fuel) (fun _ _ => True) ⟨none, blocks⟩ (es ++ [e]) =
        some (fifoTrace (fun b => (blocks b).completionCallBack) [] (es ++ [e]), q') ∧
      q'.Represents (fun b => (blocks b).completionCallBack) (codeQueue (fifoQueue es) e) := by
  have hlength : (fifoQueue es).length < fuel := Nat.lt_of_le_of_lt fifoQueue_length_le hfuel
  obtain ⟨q', hstep, hq'⟩ := pendingStep_represents hq hadd hlength
  refine ⟨q', ?_, hq'⟩
  rw [fifoTrace_concat]
  exact TransitionSystem.exec_concat hexec trivial hstep

/-- While only last blocks are removed the queue is the list queue. -/
theorem exec_represents (blocks : α → CmdBlock α) (hadd : AddedOnce es) (hremove : RemovesLast es)
    (hfuel : es.length < fuel) :
    ∃ q, exec (pendingStep fuel) (fun _ _ => True) ⟨none, blocks⟩ es =
        some (fifoTrace (fun b => (blocks b).completionCallBack) [] es, q) ∧
      q.Represents (fun b => (blocks b).completionCallBack) (fifoQueue es) := by
  induction es using List.reverseRecOn with
  | nil => exact ⟨⟨none, blocks⟩, rfl, rfl, fun b => rfl⟩
  | append_singleton es e ih =>
    obtain ⟨hadd, haddLast⟩ := throughout_concat.mp hadd
    obtain ⟨hremove, hremoveLast⟩ := throughout_concat.mp hremove
    rw [List.length_append] at hfuel
    obtain ⟨q, hexec, hq⟩ := ih hadd hremove (by omega)
    obtain ⟨q', hexec', hq'⟩ := exec_concat_represents hexec hq haddLast (by omega)
    refine ⟨q', hexec', ?_⟩
    have hsame : codeQueue (fifoQueue es) e = fifoQueue (es ++ [e]) := by
      rw [fifoQueue_concat fun b => (blocks b).completionCallBack]
      exact (codeQueue_eq_iff _ hq.holds.nodup e).mpr hremoveLast
    rwa [← hsame]

/-- A queue that is the list queue after each call has had only last blocks removed: at the first
other removal the blocks behind the removed one are missing. -/
theorem removesLast_of_follows {blocks : α → CmdBlock α} (hadd : AddedOnce es)
    (hfuel : es.length < fuel)
    (hfollows : ∀ es₁ es₂, es = es₁ ++ es₂ → FollowsFifo fuel blocks es₁) : RemovesLast es := by
  induction es using List.reverseRecOn with
  | nil => exact throughout_nil
  | append_singleton es e ih =>
    obtain ⟨hadd, haddLast⟩ := throughout_concat.mp hadd
    rw [List.length_append] at hfuel
    have hremove : RemovesLast es := by
      apply ih hadd (by omega)
      intro es₁ es₂ hes
      exact hfollows es₁ (es₂ ++ [e]) (by simp [hes])
    refine throughout_concat.mpr ⟨hremove, ?_⟩
    obtain ⟨q, hexec, hq⟩ := exec_represents blocks hadd hremove (by omega : es.length < fuel)
    obtain ⟨q', hexec', hq'⟩ := exec_concat_represents hexec hq haddLast (by omega)
    obtain ⟨q'', hexec'', hholds⟩ := hfollows (es ++ [e]) [] (by simp)
    obtain rfl : q' = q'' := by
      rw [hexec'] at hexec''
      exact (Prod.mk.inj (Option.some.inj hexec'')).2
    apply (codeQueue_eq_iff (fun _ => true) hq.holds.nodup e).mp
    rw [← fifoQueue_concat]
    exact hq'.holds.unique hholds

/-- The pending queue of a channel. A sequence of calls is answered as by a first-in first-out
queue, and the queue is that list after each of its calls, exactly when every removed block is
the last one of the queue or not queued. -/
theorem pendingQueue_fifo_iff (blocks : α → CmdBlock α) (hadd : AddedOnce es)
    (hfuel : es.length < fuel) :
    (∀ es₁ es₂, es = es₁ ++ es₂ → FollowsFifo fuel blocks es₁) ↔ RemovesLast es := by
  constructor
  · exact removesLast_of_follows hadd hfuel
  · rintro hremove es₁ es₂ rfl
    rw [List.length_append] at hfuel
    obtain ⟨q, hexec, hq⟩ := exec_represents blocks hadd.left hremove.left
      (by omega : es₁.length < fuel)
    exact ⟨q, hexec, hq.holds⟩

/-- A command block with a callback that is in no queue. -/
def freshBlock : CmdBlock ℕ := ⟨none, true, 0, 0, .invalidStatus⟩

/-- Two blocks are added, the second one is removed, and the first one is flushed. -/
theorem pendingQueue_fifo_remove_last :
    FollowsFifo 5 (fun _ => freshBlock) [.add 0, .add 1, .remove 1, .flush] ∧
      fifoTrace (fun _ => true) [] [.add 0, .add 1, .remove 1, .flush] =
        [(.add 0, .added), (.add 1, .added), (.remove 1, .removed true),
          (.flush, .flushed [0])] := by
  have hadd : AddedOnce [.add 0, .add 1, PendingEvent.remove 1, .flush] := by
    refine throughout_concat.mpr ⟨throughout_concat.mpr ⟨throughout_concat.mpr
      ⟨throughout_concat.mpr ⟨throughout_nil, ?_⟩, ?_⟩, ?_⟩, ?_⟩ <;> simp [fifoQueue, fifoStep]
  have hremove : RemovesLast [.add 0, .add 1, PendingEvent.remove 1, .flush] := by
    refine throughout_concat.mpr ⟨throughout_concat.mpr ⟨throughout_concat.mpr
      ⟨throughout_concat.mpr ⟨throughout_nil, ?_⟩, ?_⟩, ?_⟩, ?_⟩ <;> simp [fifoQueue, fifoStep]
  constructor
  · exact (pendingQueue_fifo_iff _ hadd (by decide)).mpr hremove _ [] (List.append_nil _).symm
  · decide

/-- Two blocks are added and the first one is removed: the second one is lost, and the flush that
follows does not call its callback. -/
theorem pendingQueue_loses_block :
    AddedOnce [.add 0, .add 1, PendingEvent.remove 0, .flush] ∧
      ¬ FollowsFifo 5 (fun _ => freshBlock) [.add 0, .add 1, PendingEvent.remove 0] ∧
      (∃ q, exec (pendingStep 5) (fun _ _ => True) ⟨none, fun _ => freshBlock⟩
        [.add 0, .add 1, .remove 0, .flush] =
          some ([(.add 0, .added), (.add 1, .added), (.remove 0, .removed true),
            (.flush, .flushed [])], q)) ∧
      fifoTrace (fun _ => true) [] [.add 0, .add 1, .remove 0, .flush] =
        [(.add 0, .added), (.add 1, .added), (.remove 0, .removed true),
          (.flush, .flushed [1])] := by
  refine ⟨?_, ?_, ⟨_, rfl⟩, by decide⟩
  · refine throughout_concat.mpr ⟨throughout_concat.mpr ⟨throughout_concat.mpr
      ⟨throughout_concat.mpr ⟨throughout_nil, ?_⟩, ?_⟩, ?_⟩, ?_⟩ <;> simp [fifoQueue, fifoStep]
  · rintro ⟨q, hexec, hholds⟩
    obtain rfl := (Prod.mk.inj (Option.some.inj hexec)).2
    cases hholds.1

end Mv88fxx81.Sata
