import Mv88fxx81.Lib.LinkedChain
import Mv88fxx81.Lib.Run
import Mv88fxx81.Sata.Deferred
import Mv88fxx81.Sata.ScsiCompletion

/-!
# The walk over the deferred blocks

As long as the core driver accepts the look-ahead command of every waiting MODE SELECT, the walk
continues each waiting block once and reads only blocks that are there. Where it refuses one, the
callback frees the block and the walk then reads its link.
-/

namespace Mv88fxx81.Sata.Deferred

open TransitionSystem LinkedChain

variable {m m' : Memory} {block : ℕ} {results : ℕ → QueueCommandResult}
  {garbage : ℕ → BlockMemory} {log : List Access}

/-- The link of a block, as far as the block is there. -/
def Memory.link (m : Memory) (block : ℕ) : Option ℕ := (m.blocks block).bind (·.pNext)

/-- The blocks that a call continues. -/
def Access.continued : Access → Option ℕ
  | .continues block => some block
  | _ => none

/-- The blocks that a call puts on the list. -/
def Access.deferred : Access → Option ℕ
  | .defers block => some block
  | _ => none

/-- Every read is of a block that is there. -/
def ReadsLive (log : List Access) : Prop := ∀ block, Access.reads block false ∉ log

/-- Each block is there and waits for a follow-up command. -/
def Waiting (m : Memory) (waiting : List ℕ) : Prop :=
  ∀ block ∈ waiting, ∃ cell, m.blocks block = some cell ∧
    cell.scb.opcode.any ScsiOpcode.isSplit = true

/-- No look-ahead command of a MODE SELECT is refused. -/
def NoneRefused (results : ℕ → QueueCommandResult) (m : Memory) (waiting : List ℕ) : Prop :=
  ∀ block ∈ waiting, ∀ cell, m.blocks block = some cell →
    cell.scb.opcode = some .modeSelect6 → results block = .ok

/-- What is read of a block that is there. -/
theorem Memory.read_live (m : Memory) (garbage : ℕ → BlockMemory) {cell : BlockMemory}
    (hcell : m.blocks block = some cell) :
    m.read garbage block = cell ∧ m.live block = true := by
  unfold Memory.read Memory.live
  rw [hcell]
  exact ⟨rfl, rfl⟩

/-- Memory after a follow-up command that left its block with these fields. -/
def Memory.sent (m : Memory) (block : ℕ) (cell : BlockMemory) (result : QueueCommandResult) :
    Memory :=
  { m with
    blocks := Function.update m.blocks block (some cell)
    commands := m.commands ++ if result = .ok then [block] else [] }

/-- A follow-up command that does not call the callback. -/
theorem Memory.followUp_sent {pNext : Option ℕ} {followUp : FollowUp} {result : QueueCommandResult}
    (hlive : m.live block = true) (hcalled : followUp.completions = [])
    (hqueued : followUp.queued.isSome = true ↔ result = .ok) :
    m.followUp block pNext followUp =
      ([.continues block], m.sent block ⟨followUp.scb, pNext⟩ result) := by
  have hcommands : (followUp.queued.toList.map fun _ => block) =
      if result = .ok then [block] else [] := by
    cases hinfo : followUp.queued with
    | none => rw [if_neg (fun hok => by simpa [hinfo] using hqueued.2 hok)]; rfl
    | some info => rw [if_pos (hqueued.1 (by rw [hinfo]; rfl))]; rfl
  unfold Memory.followUp Memory.write Memory.sent
  rw [hcalled, if_pos rfl, if_pos hlive, hcommands]
  rfl

/-- The follow-up command of a waiting block. -/
theorem serviceBlock_accepted {result : QueueCommandResult} {cell : BlockMemory}
    (hcell : m.blocks block = some cell) (hsplit : cell.scb.opcode.any ScsiOpcode.isSplit = true)
    (haccepted : cell.scb.opcode = some .modeSelect6 → result = .ok) :
    ∃ scb, serviceBlock result block cell m =
      ([.continues block], m.sent block ⟨scb, cell.pNext⟩ result) := by
  have hlive := (m.read_live (fun _ => cell) hcell).2
  have hverify : (mvScsiAtaSendSplittedVerifyCommand cell.scb result).completions = [] ∧
      ((mvScsiAtaSendSplittedVerifyCommand cell.scb result).queued.isSome = true ↔
        result = .ok) := by
    unfold mvScsiAtaSendSplittedVerifyCommand
    by_cases hok : result = .ok <;> simp [hok]
  unfold serviceBlock
  cases hop : cell.scb.opcode with
  | none => simp [hop] at hsplit
  | some op =>
    cases op with
    | verify10 => exact ⟨_, Memory.followUp_sent hlive hverify.1 hverify.2⟩
    | verify6 => exact ⟨_, Memory.followUp_sent hlive hverify.1 hverify.2⟩
    | modeSelect6 =>
      have hok := haccepted hop
      have hahead : (mvScsiAtaSendReadLookAhead cell.scb result).completions = [] ∧
          ((mvScsiAtaSendReadLookAhead cell.scb result).queued.isSome = true ↔
            result = .ok) := by
        unfold mvScsiAtaSendReadLookAhead
        simp [hok]
      exact ⟨_, Memory.followUp_sent hlive hahead.1 hahead.2⟩
    | _ => simp [hop, ScsiOpcode.isSplit] at hsplit

/-- A refused look-ahead command frees its block. -/
theorem serviceBlock_refused (m : Memory) (block : ℕ) {result : QueueCommandResult}
    {cell : BlockMemory}
    (hop : cell.scb.opcode = some .modeSelect6) (hresult : result ≠ .ok) :
    (serviceBlock result block cell m).2.live block = false := by
  unfold serviceBlock
  rw [hop]
  unfold mvScsiAtaSendReadLookAhead Memory.followUp
  simp [hresult, Memory.free, Memory.live]

/-- One round of the walk over a waiting block. -/
theorem serviceLoop_cons {fuel : ℕ} {cell : BlockMemory} (hcell : m.blocks block = some cell)
    {now : List Access} (hservice : serviceBlock (results block) block cell m = (now, m')) :
    serviceLoop results garbage (fuel + 1) (some block) m =
      match serviceLoop results garbage fuel (m'.read garbage block).pNext m' with
      | none => none
      | some (rest, m'') =>
        some (.reads block true :: now ++ .reads block (m'.live block) :: rest, m'') := by
  obtain ⟨hread, hlive⟩ := m.read_live garbage hcell
  cases hrest : serviceLoop results garbage fuel (m'.read garbage block).pNext m' with
  | none => simp only [serviceLoop, hread, hservice, hrest]
  | some rest => simp only [serviceLoop, hread, hservice, hlive, hrest]

/-- What the walk over the waiting blocks has done. -/
structure Continued (results : ℕ → QueueCommandResult) (m m' : Memory) (waiting : List ℕ)
    (log : List Access) : Prop where
  continued : log.filterMap Access.continued = waiting
  deferred : log.filterMap Access.deferred = []
  live : ReadsLive log
  pHead : m'.pHead = m.pHead
  blocks : ∀ block, m'.live block = m.live block
  commands : m'.commands = m.commands ++ waiting.filter fun block => results block = .ok

/-- The walk goes on behind a waiting block. -/
theorem Continued.cons {cell : BlockMemory} {scb : Scb} {waiting : List ℕ}
    (hcell : m.blocks block = some cell)
    (hrest : Continued results (m.sent block ⟨scb, cell.pNext⟩ (results block)) m' waiting log) :
    Continued results m m' (block :: waiting)
      (.reads block true :: [.continues block] ++ .reads block true :: log) where
  continued := congrArg (block :: ·) hrest.continued
  deferred := hrest.deferred
  live := by
    intro other hmem
    simp only [List.mem_cons, List.mem_append] at hmem
    have hlog := hrest.live other
    simp_all
  pHead := hrest.pHead
  blocks := by
    intro other
    rw [hrest.blocks other]
    unfold Memory.live Memory.sent
    dsimp only
    by_cases hsame : other = block
    · rw [hsame, Function.update_self, hcell]
      rfl
    · rw [Function.update_of_ne hsame]
  commands := by
    rw [hrest.commands, Memory.sent, List.append_assoc]
    by_cases hok : results block = .ok
    · simp [hok]
    · simp [hok]

/-- Writing the fields of a block leaves the other blocks as they are. -/
theorem Memory.sent_blocks {cell : BlockMemory} {result : QueueCommandResult} {other : ℕ}
    {waiting : List ℕ} (hnotMem : block ∉ waiting) (hmem : other ∈ waiting) :
    (m.sent block cell result).blocks other = m.blocks other := by
  have hne : other ≠ block := ne_of_mem_of_not_mem hmem hnotMem
  exact Function.update_of_ne hne _ _

/-- The other blocks wait as before. -/
theorem Waiting.tail {cell : BlockMemory} {waiting : List ℕ}
    (hwaiting : Waiting m (block :: waiting)) (hnotMem : block ∉ waiting)
    (result : QueueCommandResult) : Waiting (m.sent block cell result) waiting := by
  intro other hmem
  rw [Memory.sent_blocks hnotMem hmem]
  exact hwaiting other (List.mem_cons_of_mem _ hmem)

/-- None is refused if the first is not, nor any of the others. -/
theorem noneRefused_cons {cell cell' : BlockMemory} {waiting : List ℕ}
    {result : QueueCommandResult} (hcell : m.blocks block = some cell)
    (hnotMem : block ∉ waiting) :
    NoneRefused results m (block :: waiting) ↔
      (cell.scb.opcode = some .modeSelect6 → results block = .ok) ∧
        NoneRefused results (m.sent block cell' result) waiting := by
  constructor
  · intro hnone
    refine ⟨hnone block List.mem_cons_self cell hcell, fun other hmem cell' hcell' => ?_⟩
    rw [Memory.sent_blocks hnotMem hmem] at hcell'
    exact hnone other (List.mem_cons_of_mem _ hmem) cell' hcell'
  · rintro ⟨hfirst, hrest⟩ other hmem cell' hcell'
    rcases List.mem_cons.1 hmem with rfl | hmem
    · obtain rfl := Option.some.inj (hcell.symm.trans hcell')
      exact hfirst
    · rw [← Memory.sent_blocks hnotMem hmem] at hcell'
      exact hrest other hmem cell' hcell'

/-- Writing the fields of a block leaves all links as they are. -/
theorem Memory.sent_link {cell : BlockMemory} {scb : Scb} {result : QueueCommandResult}
    (hcell : m.blocks block = some cell) :
    (m.sent block ⟨scb, cell.pNext⟩ result).link = m.link := by
  funext other
  unfold Memory.link Memory.sent
  dsimp only
  by_cases hsame : other = block
  · rw [hsame, hcell, Function.update_self]
    rfl
  · rw [Function.update_of_ne hsame]

/-- The walk over a waiting block that is not refused, and what is then still to do. -/
theorem serviceLoop_sent (results : ℕ → QueueCommandResult) (garbage : ℕ → BlockMemory)
    {waiting : List ℕ} {head : Option ℕ}
    (hchain : Chained m.link head (block :: waiting)) {cell : BlockMemory}
    (hcell : m.blocks block = some cell)
    (hsplit : cell.scb.opcode.any ScsiOpcode.isSplit = true)
    (haccepted : cell.scb.opcode = some .modeSelect6 → results block = .ok) :
    ∃ scb,
      Chained (m.sent block ⟨scb, cell.pNext⟩ (results block)).link cell.pNext waiting ∧
      ∀ fuel, serviceLoop results garbage (fuel + 1) head m =
        match serviceLoop results garbage fuel cell.pNext
            (m.sent block ⟨scb, cell.pNext⟩ (results block)) with
        | none => none
        | some (rest, m'') =>
          some (.reads block true :: [.continues block] ++ .reads block true :: rest, m'') := by
  obtain ⟨rfl, htail⟩ := hchain
  obtain ⟨scb, hservice⟩ := serviceBlock_accepted hcell hsplit haccepted
  have hcell' : (m.sent block ⟨scb, cell.pNext⟩ (results block)).blocks block =
      some ⟨scb, cell.pNext⟩ := Function.update_self _ _ _
  obtain ⟨hread', hlive'⟩ := Memory.read_live _ garbage hcell'
  have hlink : m.link block = cell.pNext := by
    unfold Memory.link
    rw [hcell]
    rfl
  refine ⟨scb, ?_, fun fuel => ?_⟩
  · rw [Memory.sent_link hcell, ← hlink]
    exact htail
  · rw [serviceLoop_cons hcell hservice, hread', hlive']

/-- A waiting block is not waiting twice. -/
theorem notMem_of_chained {waiting : List ℕ} {head : Option ℕ}
    (hchain : Chained m.link head (block :: waiting)) : block ∉ waiting :=
  (List.nodup_cons.1 hchain.nodup).1

/-- The walk over blocks of which none is refused. -/
theorem serviceLoop_accepted {waiting : List ℕ} {fuel : ℕ} {head : Option ℕ}
    (hchain : Chained m.link head waiting) (hwaiting : Waiting m waiting)
    (hnone : NoneRefused results m waiting)
    (hloop : serviceLoop results garbage fuel head m = some (log, m')) :
    Continued results m m' waiting log := by
  induction waiting generalizing fuel head m log with
  | nil =>
    obtain rfl : head = none := hchain
    rw [serviceLoop] at hloop
    obtain ⟨rfl, rfl⟩ := Prod.mk.inj (Option.some.inj hloop)
    exact ⟨rfl, rfl, by simp [ReadsLive], rfl, fun _ => rfl, by simp⟩
  | cons block waiting ih =>
    have hnotMem := notMem_of_chained hchain
    obtain ⟨cell, hcell, hsplit⟩ := hwaiting block List.mem_cons_self
    obtain ⟨scb, htail, hstep⟩ := serviceLoop_sent results garbage
      hchain hcell hsplit (hnone block List.mem_cons_self cell hcell)
    cases fuel with
    | zero =>
      obtain ⟨rfl, -⟩ := hchain
      cases hloop
    | succ fuel =>
      rw [hstep] at hloop
      cases hrest : serviceLoop results garbage fuel cell.pNext
          (m.sent block ⟨scb, cell.pNext⟩ (results block)) with
      | none =>
        rw [hrest] at hloop
        cases hloop
      | some answer =>
        obtain ⟨rest, m''⟩ := answer
        rw [hrest] at hloop
        obtain ⟨rfl, rfl⟩ := Prod.mk.inj (Option.some.inj hloop)
        exact Continued.cons hcell (ih htail (hwaiting.tail hnotMem _)
          ((noneRefused_cons hcell hnotMem).1 hnone).2 hrest)

/-- The walk over blocks of which none is refused comes to its end. -/
theorem serviceLoop_ends (garbage : ℕ → BlockMemory) {waiting : List ℕ} {fuel : ℕ}
    {head : Option ℕ}
    (hchain : Chained m.link head waiting) (hwaiting : Waiting m waiting)
    (hnone : NoneRefused results m waiting) (hfuel : waiting.length ≤ fuel) :
    (serviceLoop results garbage fuel head m).isSome = true := by
  induction waiting generalizing fuel head m with
  | nil =>
    obtain rfl : head = none := hchain
    rw [serviceLoop]
    rfl
  | cons block waiting ih =>
    have hnotMem := notMem_of_chained hchain
    obtain ⟨cell, hcell, hsplit⟩ := hwaiting block List.mem_cons_self
    obtain ⟨scb, htail, hstep⟩ := serviceLoop_sent results garbage
      hchain hcell hsplit (hnone block List.mem_cons_self cell hcell)
    obtain ⟨fuel, rfl⟩ : ∃ n, fuel = n + 1 := ⟨fuel - 1, by simp at hfuel; omega⟩
    have hrest := ih htail (hwaiting.tail hnotMem _)
      ((noneRefused_cons hcell hnotMem).1 hnone).2 (Nat.le_of_succ_le_succ hfuel)
    rw [hstep]
    obtain ⟨answer, hanswer⟩ := Option.isSome_iff_exists.1 hrest
    rw [hanswer]
    rfl

/-- Where the look-ahead command of a waiting block is refused, the walk reads a block that is
not there any more. -/
theorem serviceLoop_refused {waiting : List ℕ} {fuel : ℕ} {head : Option ℕ}
    (hchain : Chained m.link head waiting) (hwaiting : Waiting m waiting)
    (hrefused : ¬NoneRefused results m waiting)
    (hloop : serviceLoop results garbage fuel head m = some (log, m')) : ¬ReadsLive log := by
  induction waiting generalizing fuel head m log with
  | nil => exact absurd (by simp [NoneRefused]) hrefused
  | cons block waiting ih =>
    have hnotMem := notMem_of_chained hchain
    obtain ⟨cell, hcell, hsplit⟩ := hwaiting block List.mem_cons_self
    cases fuel with
    | zero =>
      obtain ⟨rfl, -⟩ := hchain
      cases hloop
    | succ fuel =>
      by_cases haccepted : cell.scb.opcode = some .modeSelect6 → results block = .ok
      · obtain ⟨scb, htail, hstep⟩ := serviceLoop_sent results garbage
          hchain hcell hsplit haccepted
        have hlater : ¬NoneRefused results
            (m.sent block ⟨scb, cell.pNext⟩ (results block)) waiting := fun hnone =>
          hrefused ((noneRefused_cons hcell hnotMem).2 ⟨haccepted, hnone⟩)
        rw [hstep] at hloop
        cases hrest : serviceLoop results garbage fuel cell.pNext
            (m.sent block ⟨scb, cell.pNext⟩ (results block)) with
        | none =>
          rw [hrest] at hloop
          cases hloop
        | some answer =>
          obtain ⟨rest, m''⟩ := answer
          rw [hrest] at hloop
          obtain ⟨rfl, rfl⟩ := Prod.mk.inj (Option.some.inj hloop)
          have hdead := ih htail (hwaiting.tail hnotMem _) hlater hrest
          exact fun hlive => hdead fun other hmem => hlive other (by simp [hmem])
      · obtain ⟨rfl, -⟩ := hchain
        obtain ⟨hop, hresult⟩ := Classical.not_imp.1 haccepted
        have hfreed := serviceBlock_refused m block hop hresult
        obtain ⟨now, m₁, hservice⟩ : ∃ now m₁, serviceBlock (results block) block cell m =
            (now, m₁) := ⟨_, _, rfl⟩
        rw [serviceLoop_cons hcell hservice] at hloop
        rw [hservice] at hfreed
        generalize serviceLoop results garbage fuel (m₁.read garbage block).pNext m₁ = answer
          at hloop
        cases answer with
        | none => cases hloop
        | some answer =>
          obtain ⟨rfl, -⟩ := Prod.mk.inj (Option.some.inj hloop)
          rw [hfreed]
          exact fun hlive => hlive block (by simp)

/-- The callback is called only where no command is left with the core driver. -/
def OneSided (reply : Reply) : Prop := reply.completions ≠ [] → reply.queued = none

variable {drive : DriveData} {scb : Scb} {result : QueueCommandResult}

/-- A call that has called the callback leaves no command with the core driver. -/
theorem mvSataExecuteScsiCommand_oneSided (ext : SalAdapterExtension) (scb : Scb)
    (result : QueueCommandResult) : OneSided (mvSataExecuteScsiCommand ext scb result) := by
  intro hcalled
  have honce := mvSataExecuteScsiCommand_atMostOnce ext scb result
  have hpos := List.length_pos_iff.2 hcalled
  cases hqueued : (mvSataExecuteScsiCommand ext scb result).queued with
  | none => rfl
  | some info =>
    rw [hqueued] at honce
    simp only [Option.toList_some, List.length_cons, List.length_nil] at honce
    omega

/-- The blocks that wait after a call, for those that waited before it. -/
def deferredAfter (waiting : List ℕ) : Event × List Access → List ℕ
  | (.postIntService .., _) => []
  | (_, log) => (log.filterMap Access.deferred).reverse ++ waiting

/-- The blocks that were put on the list since the last `mvSataScsiPostIntService`, the last one
first. -/
def deferredBlocks (trace : List (Event × List Access)) : List ℕ := trace.foldl deferredAfter []

/-- A call of `mvSataScsiPostIntService`. -/
def Event.isService : Event → Bool
  | .postIntService .. => true
  | _ => false

/-- The core driver accepts the look-ahead command of every waiting MODE SELECT. -/
def AcceptsLookAhead (m : Memory) : Event → Prop
  | .postIntService results _ _ =>
    ∀ waiting, Chained m.link m.pHead waiting → NoneRefused results m waiting
  | _ => True

/-- The blocks are in order between two calls. -/
structure InOrder (trace : List (Event × List Access)) (m : Memory) : Prop where
  chained : Chained m.link m.pHead (deferredBlocks trace)
  waiting : Waiting m (deferredBlocks trace)
  commandsNodup : m.commands.Nodup
  commandsLive : ∀ block ∈ m.commands, m.live block = true
  apart : ∀ block ∈ deferredBlocks trace, block ∉ m.commands

/-- What a call has done as it should: each deferred block is continued once, in a list that is
empty afterwards, and every block that is read is there. -/
structure CallRight (trace : List (Event × List Access)) (e : Event) (log : List Access)
    (m' : Memory) : Prop where
  continued : e.isService = true → log.filterMap Access.continued = deferredBlocks trace
  nodup : (deferredBlocks trace).Nodup
  emptied : e.isService = true → m'.pHead = none
  live : ReadsLive log

variable {trace : List (Event × List Access)} {e : Event}

theorem deferredBlocks_concat :
    deferredBlocks (trace ++ [(e, log)]) = deferredAfter (deferredBlocks trace) (e, log) := by
  unfold deferredBlocks
  rw [List.foldl_append]
  rfl

/-- The blocks that wait are still in order when another one is written. -/
theorem InOrder.update (m' : Memory) {waiting : List ℕ} {cell : Option BlockMemory}
    (hchained : Chained m.link m.pHead waiting) (hwaiting : Waiting m waiting)
    (hnotMem : block ∉ waiting) (hblocks : m'.blocks = Function.update m.blocks block cell) :
    Chained m'.link m.pHead waiting ∧ Waiting m' waiting := by
  have hother : ∀ other ∈ waiting, m'.blocks other = m.blocks other := by
    intro other hmem
    have hne : other ≠ block := ne_of_mem_of_not_mem hmem hnotMem
    rw [hblocks, Function.update_of_ne hne]
  constructor
  · refine hchained.congr fun other hmem => ?_
    unfold Memory.link
    rw [hother other hmem]
  · intro other hmem
    rw [hother other hmem]
    exact hwaiting other hmem

/-- A block that waits is there. -/
theorem Waiting.live {waiting : List ℕ} (hwaiting : Waiting m waiting) (hmem : block ∈ waiting) :
    m.live block = true := by
  obtain ⟨cell, hcell, -⟩ := hwaiting block hmem
  unfold Memory.live
  rw [hcell]
  rfl

theorem InOrder.execute {pNext : Option ℕ} {ext : SalAdapterExtension} {scb : Scb}
    {result : QueueCommandResult} (h : InOrder trace m)
    (hstep : deferredStep m (.execute block pNext ext scb result) = some (log, m')) :
    InOrder (trace ++ [(.execute block pNext ext scb result, log)]) m' ∧
      CallRight trace (.execute block pNext ext scb result) log m' := by
  obtain ⟨hchained, hwaiting, hnodup, hlive, hapart⟩ := h
  unfold deferredStep at hstep
  dsimp only at hstep
  by_cases hused : m.live block = true
  · rw [if_pos hused] at hstep
    cases hstep
  rw [if_neg hused] at hstep
  obtain ⟨rfl, rfl⟩ := Prod.mk.inj (Option.some.inj hstep)
  have hnotWaiting : block ∉ deferredBlocks trace := fun hmem => hused (hwaiting.live hmem)
  have hnotCommands : block ∉ m.commands := fun hmem => hused (hlive block hmem)
  have hcalled := mvSataExecuteScsiCommand_oneSided ext scb result
  generalize mvSataExecuteScsiCommand ext scb result = reply at hcalled ⊢
  have hdeferred : (reply.completions.map fun _ => Access.callsBack block).filterMap
      Access.deferred = [] := by
    simp [Access.deferred]
  have hreads : ReadsLive (reply.completions.map fun _ => Access.callsBack block) := by
    simp [ReadsLive]
  have hcall : CallRight trace (.execute block pNext ext scb result)
      (reply.completions.map fun _ => Access.callsBack block) (m.executed block pNext reply) :=
    ⟨fun h => (Bool.false_ne_true h).elim, hchained.nodup,
      fun h => (Bool.false_ne_true h).elim, hreads⟩
  refine ⟨?_, hcall⟩
  have hsame : deferredBlocks
      (trace ++ [(.execute block pNext ext scb result,
        reply.completions.map fun _ => Access.callsBack block)]) = deferredBlocks trace := by
    rw [deferredBlocks_concat]
    change List.reverse (List.filterMap Access.deferred _) ++ _ = _
    rw [hdeferred]
    rfl
  by_cases hnone : reply.completions = []
  · have hblocks : (m.executed block pNext reply).blocks =
        Function.update m.blocks block (some ⟨reply.scb, pNext⟩) := if_pos hnone
    obtain ⟨hchained', hwaiting'⟩ := InOrder.update _ hchained hwaiting hnotWaiting hblocks
    have hcommands : ∀ other ∈ (m.executed block pNext reply).commands,
        other ∈ m.commands ∨ other = block := by
      intro other hmem
      rcases List.mem_append.1 hmem with hmem | hmem
      · exact Or.inl hmem
      · obtain ⟨-, -, rfl⟩ := List.mem_map.1 hmem
        exact Or.inr rfl
    refine ⟨hsame ▸ hchained', hsame ▸ hwaiting', ?_, ?_, ?_⟩
    · cases hqueued : reply.queued with
      | none => simpa [Memory.executed, hqueued] using hnodup
      | some info =>
        simpa [Memory.executed, hqueued, List.nodup_append] using
          ⟨hnodup, fun other hmem => ne_of_mem_of_not_mem hmem hnotCommands⟩
    · intro other hmem
      unfold Memory.live
      rw [hblocks]
      by_cases hself : other = block
      · rw [hself, Function.update_self]
        rfl
      · rw [Function.update_of_ne hself]
        exact hlive other ((hcommands other hmem).resolve_right hself)
    · intro other hmem hcommand
      rw [hsame] at hmem
      rcases hcommands other hcommand with hcommand | rfl
      · exact hapart other hmem hcommand
      · exact hnotWaiting hmem
  · have hqueued := hcalled hnone
    have hexecuted : m.executed block pNext reply = m := by
      unfold Memory.executed
      rw [if_neg hnone, hqueued]
      simp
    rw [hexecuted]
    exact ⟨hsame ▸ hchained, hsame ▸ hwaiting, hnodup, hlive, hsame ▸ hapart⟩

/-- A completed block goes on if its operation may need more than one ATA command. -/
theorem continues_of_deferred {scb : Scb} {type : CompletionType}
    (hcompletion : Sata.salCommandCompletionCB scb type = none) :
    scb.opcode.any ScsiOpcode.isSplit = true := by
  unfold Sata.salCommandCompletionCB at hcompletion
  cases type with
  | normal =>
    by_cases hcontinues : scb.continues = true
    · unfold Scb.continues at hcontinues
      exact (Bool.and_eq_true _ _ ▸ hcontinues).1
    · simp only [if_neg hcontinues] at hcompletion
      split at hcompletion <;> cases hcompletion
  | abort => cases hcompletion
  | error responseFlags registers =>
    dsimp only at hcompletion
    split at hcompletion <;> cases hcompletion

theorem InOrder.completion {type : CompletionType} (h : InOrder trace m)
    (hstep : deferredStep m (.completion block type garbage) = some (log, m')) :
    InOrder (trace ++ [(.completion block type garbage, log)]) m' ∧
      CallRight trace (.completion block type garbage) log m' := by
  obtain ⟨hchained, hwaiting, hnodup, hlive, hapart⟩ := h
  unfold deferredStep at hstep
  dsimp only at hstep
  by_cases hcommand : block ∈ m.commands
  swap
  · rw [if_neg hcommand] at hstep
    cases hstep
  rw [if_pos hcommand] at hstep
  have hnotMem : block ∉ deferredBlocks trace := fun hmem => hapart block hmem hcommand
  obtain ⟨cell, hcell⟩ := Option.isSome_iff_exists.1 (hlive block hcommand)
  obtain ⟨hread, hthere⟩ := Memory.read_live
    { m with commands := m.commands.erase block } garbage hcell
  unfold salCommandCompletionCB at hstep
  rw [hread, hthere] at hstep
  dsimp only at hstep
  have herase : ∀ other ∈ m.commands.erase block, other ≠ block ∧ other ∈ m.commands :=
    fun other hmem => (List.Nodup.mem_erase_iff hnodup).1 hmem
  have hothers : ∀ (m₁ : Memory) {cell : Option BlockMemory},
      m₁.blocks = Function.update m.blocks block cell → m₁.commands = m.commands.erase block →
        ∀ other ∈ m₁.commands, m₁.live other = true := by
    intro m₁ cell hblocks hcommands other hmem
    obtain ⟨hne, hmem⟩ := herase other (hcommands ▸ hmem)
    unfold Memory.live
    rw [hblocks, Function.update_of_ne hne]
    exact hlive other hmem
  have hapart' : ∀ other ∈ deferredBlocks trace, other ∉ m.commands.erase block :=
    fun other hmem hcommand => hapart other hmem (herase other hcommand).2
  have hreads : ∀ access : Access, (∀ other, access ≠ .reads other false) →
      ReadsLive [.reads block true, access] := by
    intro access haccess other hmem
    rcases List.mem_cons.1 hmem with heq | hmem
    · cases heq
    · exact haccess other (List.mem_singleton.1 hmem).symm
  cases hcompletion : Sata.salCommandCompletionCB cell.scb type with
  | none =>
    rw [hcompletion] at hstep
    obtain ⟨rfl, hm'⟩ := Prod.mk.inj (Option.some.inj hstep)
    have hwrite : Memory.write { m with commands := m.commands.erase block } block
        ⟨cell.scb, m.pHead⟩ =
        { m with
          commands := m.commands.erase block
          blocks := Function.update m.blocks block (some ⟨cell.scb, m.pHead⟩) } :=
      if_pos hthere
    rw [hwrite] at hm'
    dsimp only at hm'
    subst hm'
    obtain ⟨hchained', hwaiting'⟩ := InOrder.update
      { m with
        pHead := some block
        commands := m.commands.erase block
        blocks := Function.update m.blocks block (some ⟨cell.scb, m.pHead⟩) }
      hchained hwaiting hnotMem rfl
    have hlist : deferredBlocks
        (trace ++ [(.completion block type garbage, [.reads block true, .defers block])]) =
          block :: deferredBlocks trace := deferredBlocks_concat
    refine ⟨⟨?_, ?_, hnodup.erase block, hothers _ rfl rfl, ?_⟩,
      fun h => (Bool.false_ne_true h).elim, hchained.nodup, fun h => (Bool.false_ne_true h).elim,
      hreads _ (by simp)⟩
    · rw [hlist]
      refine ⟨rfl, ?_⟩
      unfold Memory.link
      dsimp only
      rw [Function.update_self]
      exact hchained'
    · rw [hlist]
      intro other hmem
      rcases List.mem_cons.1 hmem with rfl | hmem
      · exact ⟨_, Function.update_self _ _ _, continues_of_deferred hcompletion⟩
      · exact hwaiting' other hmem
    · rw [hlist]
      intro other hmem hcommand
      rcases List.mem_cons.1 hmem with rfl | hmem
      · exact (herase _ hcommand).1 rfl
      · exact hapart' other hmem hcommand
  | some scb =>
    rw [hcompletion] at hstep
    obtain ⟨rfl, rfl⟩ := Prod.mk.inj (Option.some.inj hstep)
    obtain ⟨hchained', hwaiting'⟩ := InOrder.update
      (Memory.free { m with commands := m.commands.erase block } block)
      hchained hwaiting hnotMem rfl
    have hlist : deferredBlocks
        (trace ++ [(.completion block type garbage, [.reads block true, .callsBack block])]) =
          deferredBlocks trace := deferredBlocks_concat
    refine ⟨⟨?_, ?_, hnodup.erase block, hothers _ rfl rfl, ?_⟩,
      fun h => (Bool.false_ne_true h).elim, hchained.nodup, fun h => (Bool.false_ne_true h).elim,
      hreads _ (by simp)⟩
    · rw [hlist]
      exact hchained'
    · rw [hlist]
      exact hwaiting'
    · rw [hlist]
      exact hapart'

theorem InOrder.postIntService {fuel : ℕ} (h : InOrder trace m)
    (hnone : NoneRefused results m (deferredBlocks trace))
    (hstep : deferredStep m (.postIntService results garbage fuel) = some (log, m')) :
    InOrder (trace ++ [(.postIntService results garbage fuel, log)]) m' ∧
      CallRight trace (.postIntService results garbage fuel) log m' := by
  obtain ⟨hchained, hwaiting, hnodup, hlive, hapart⟩ := h
  unfold deferredStep mvSataScsiPostIntService at hstep
  dsimp only at hstep
  cases hloop : serviceLoop results garbage fuel m.pHead m with
  | none =>
    rw [hloop] at hstep
    cases hstep
  | some answer =>
    obtain ⟨log', m₁⟩ := answer
    rw [hloop] at hstep
    obtain ⟨rfl, rfl⟩ := Prod.mk.inj (Option.some.inj hstep)
    have hall := serviceLoop_accepted hchained hwaiting hnone hloop
    have hempty : deferredBlocks (trace ++ [(.postIntService results garbage fuel, log')]) =
        [] := deferredBlocks_concat
    have hlive' : ∀ other, Memory.live { m₁ with pHead := none } other = m.live other :=
      hall.blocks
    refine ⟨⟨?_, ?_, ?_, ?_, ?_⟩, fun _ => hall.continued, hchained.nodup, fun _ => rfl,
      hall.live⟩
    · rw [hempty]
      exact rfl
    · rw [hempty]
      simp [Waiting]
    · show m₁.commands.Nodup
      rw [hall.commands, List.nodup_append]
      refine ⟨hnodup, hchained.nodup.filter _, fun a ha b hb heq => ?_⟩
      exact hapart b (List.mem_of_mem_filter hb) (heq ▸ ha)
    · intro other hmem
      rw [hlive']
      have hmem : other ∈ m₁.commands := hmem
      rw [hall.commands] at hmem
      rcases List.mem_append.1 hmem with hmem | hmem
      · exact hlive other hmem
      · exact hwaiting.live (List.mem_of_mem_filter hmem)
    · rw [hempty]
      simp

/-- One call keeps the blocks in order and does what it should. -/
theorem InOrder.step (h : InOrder trace m) (haccepts : AcceptsLookAhead m e)
    (hstep : deferredStep m e = some (log, m')) :
    InOrder (trace ++ [(e, log)]) m' ∧ CallRight trace e log m' := by
  cases e with
  | execute block pNext ext scb result => exact h.execute hstep
  | completion block type garbage => exact h.completion hstep
  | postIntService results garbage fuel =>
    exact h.postIntService (haccepts _ h.chained) hstep

/-- A refused look-ahead command shows in the blocks that are read. -/
theorem InOrder.refused (h : InOrder trace m) (hrefused : ¬AcceptsLookAhead m e)
    (hstep : deferredStep m e = some (log, m')) : ¬ReadsLive log := by
  cases e with
  | execute block pNext ext scb result => exact absurd trivial hrefused
  | completion block type garbage => exact absurd trivial hrefused
  | postIntService results garbage fuel =>
    have hsome : ¬NoneRefused results m (deferredBlocks trace) := by
      intro hnone
      refine hrefused fun waiting hchained => ?_
      rw [hchained.unique h.chained]
      exact hnone
    unfold deferredStep mvSataScsiPostIntService at hstep
    dsimp only at hstep
    cases hloop : serviceLoop results garbage fuel m.pHead m with
    | none =>
      rw [hloop] at hstep
      cases hstep
    | some answer =>
      obtain ⟨log', m₁⟩ := answer
      rw [hloop] at hstep
      obtain ⟨rfl, -⟩ := Prod.mk.inj (Option.some.inj hstep)
      exact serviceLoop_refused h.chained h.waiting hsome hloop

/-- In a run, each `mvSataScsiPostIntService` has continued the blocks that were deferred since
the last one, each of them once, the list is empty behind it, and every block that was read was
there. -/
structure RunRight (trace : List (Event × List Access)) (m : Memory) : Prop where
  continued : ∀ before e log after, trace = before ++ (e, log) :: after → e.isService = true →
    log.filterMap Access.continued = deferredBlocks before ∧ (deferredBlocks before).Nodup
  emptied : ∀ before e log, trace = before ++ [(e, log)] → e.isService = true → m.pHead = none
  live : ∀ e log, (e, log) ∈ trace → ReadsLive log

theorem runRight_nil : RunRight [] noBlocks where
  continued before e log after htrace := by simp at htrace
  emptied before e log htrace := by simp at htrace
  live e log hmem := by simp at hmem

/-- One call more that does what it should. -/
theorem RunRight.concat (h : RunRight trace m) (hcall : CallRight trace e log m') :
    RunRight (trace ++ [(e, log)]) m' where
  continued before e₁ log₁ after htrace hservice := by
    rcases List.eq_nil_or_concat after with rfl | ⟨after, last, rfl⟩
    · obtain ⟨rfl, he⟩ := List.append_inj' htrace rfl
      obtain ⟨rfl, rfl⟩ := Prod.mk.inj (List.cons.inj he).1
      exact ⟨hcall.continued hservice, hcall.nodup⟩
    · rw [List.concat_eq_append, ← List.cons_append, ← List.append_assoc] at htrace
      obtain ⟨hbefore, -⟩ := List.append_inj' htrace rfl
      exact h.continued before e₁ log₁ after hbefore hservice
  emptied before e₁ log₁ htrace hservice := by
    obtain ⟨-, he⟩ := List.append_inj' htrace rfl
    obtain ⟨rfl, rfl⟩ := Prod.mk.inj (List.cons.inj he).1
    exact hcall.emptied hservice
  live e₁ log₁ hmem := by
    rcases List.mem_append.1 hmem with hmem | hmem
    · exact h.live e₁ log₁ hmem
    · obtain ⟨rfl, rfl⟩ := Prod.mk.inj (List.mem_singleton.1 hmem)
      exact hcall.live

/-- A run in which no look-ahead command is refused. -/
theorem deferredRun_inOrder (hrun : Run deferredStep AcceptsLookAhead noBlocks trace m) :
    InOrder trace m ∧ RunRight trace m := by
  refine hrun.invariant (I := fun trace m => InOrder trace m ∧ RunRight trace m) ⟨?_, ?_⟩ ?_
  · exact ⟨rfl, by simp [Waiting, deferredBlocks], List.nodup_nil, by simp [noBlocks],
      by simp [deferredBlocks]⟩
  · exact runRight_nil
  · rintro trace m e log m' ⟨horder, hright⟩ haccepts hstep
    obtain ⟨horder', hcall⟩ := horder.step haccepts hstep
    exact ⟨horder', hright.concat hcall⟩

/-- A run does what it should exactly if the core driver accepts the look-ahead command of every
waiting MODE SELECT, and then `mvSataScsiPostIntService` comes to its end. -/
theorem deferredRun_right_iff (hrun : Run deferredStep (fun _ _ => True) noBlocks trace m) :
    (RunRight trace m ↔ Run deferredStep AcceptsLookAhead noBlocks trace m) ∧
    (Run deferredStep AcceptsLookAhead noBlocks trace m →
      ∀ results garbage fuel, AcceptsLookAhead m (.postIntService results garbage fuel) →
        (deferredBlocks trace).length ≤ fuel →
          (deferredStep m (.postIntService results garbage fuel)).isSome = true) := by
  refine ⟨⟨fun hright => ?_, fun haccepted => (deferredRun_inOrder haccepted).2⟩, ?_⟩
  · have hlive := hright.live
    clear hright
    induction hrun with
    | start => exact .start
    | @next trace m e log m' hrun _ hstep ih =>
      have haccepted := ih fun e₁ log₁ hmem => hlive e₁ log₁ (List.mem_append_left _ hmem)
      refine .next haccepted ?_ hstep
      by_contra hrefused
      exact (deferredRun_inOrder haccepted).1.refused hrefused hstep
        (hlive e log (List.mem_append_right _ List.mem_cons_self))
  · intro haccepted results garbage fuel haccepts hfuel
    obtain ⟨horder, -⟩ := deferredRun_inOrder haccepted
    have hends := serviceLoop_ends garbage horder.chained horder.waiting
      (haccepts _ horder.chained) hfuel
    obtain ⟨⟨log, m'⟩, hloop⟩ := Option.isSome_iff_exists.1 hends
    unfold deferredStep mvSataScsiPostIntService
    dsimp only
    rw [hloop]
    rfl

/-- A drive with 28 bit addresses that is ready. -/
def readyDrive : SalAdapterExtension :=
  mvSataScsiSetDriveReady (mvSataScsiInitAdapterExt smallDriveMemory 1) 0 0 true

/-- A MODE SELECT that enables the write cache and the look-ahead. -/
def modeSelectScb : Scb :=
  { verifyScb with
    scsiCdb := [0x15, 0x10, 0, 0, 24, 0]
    scsiCdbLength := 6
    pDataBuffer := [0, 0, 0, 0, 0x08, 0x12, 0x04, 0, 0xff, 0xff, 0, 0, 0, 0x10, 0, 0x10, 0, 0x01,
      0xff, 0xff, 0, 0, 0, 0]
    dataBufferLength := 24 }

/-- What is left of a block that was freed. -/
def freedBlock : ℕ → BlockMemory := fun _ => ⟨modeSelectScb, none⟩

/-- A VERIFY in two parts and a MODE SELECT wait for their second commands, and both are
accepted. -/
theorem deferredRun_right_two : ∃ trace m,
    Run deferredStep (fun _ _ => True) noBlocks trace m ∧ RunRight trace m ∧
      deferredBlocks (trace.take 4) = [9, 7] := by
  have haccepts : ∀ m : Memory,
      AcceptsLookAhead m (.postIntService (fun _ => .ok) freedBlock 2) :=
    fun _ _ _ _ _ _ _ _ => rfl
  obtain ⟨trace, m, hrun, hwaiting⟩ : ∃ trace m,
      Run deferredStep AcceptsLookAhead noBlocks trace m ∧
        deferredBlocks (trace.take 4) = [9, 7] :=
    ⟨_, _, Run.next
      (Run.next (e := Event.completion 9 .normal freedBlock)
        (Run.next (e := Event.completion 7 .normal freedBlock)
          (Run.next (e := Event.execute 9 none readyDrive modeSelectScb .ok)
            (Run.next (e := Event.execute 7 none readyDrive verifyScb .ok) .start trivial rfl)
            trivial rfl)
          trivial rfl)
        trivial rfl)
      (haccepts _) rfl, rfl⟩
  have hany : Run deferredStep (fun _ _ => True) noBlocks trace m :=
    hrun.mono fun _ _ _ => trivial
  exact ⟨trace, m, hany, (deferredRun_right_iff hany).1.2 hrun, hwaiting⟩

/-- The second command of a MODE SELECT is refused: the walk reads the link of the block that
its callback has freed. -/
theorem deferredRun_readsFreed :
    ¬∀ trace m, Run deferredStep (fun _ _ => True) noBlocks trace m → RunRight trace m := by
  intro hclaim
  obtain ⟨m, hexec⟩ : ∃ m, exec deferredStep (fun _ _ => True) noBlocks
      [.execute 7 none readyDrive modeSelectScb .ok, .completion 7 .normal freedBlock,
        .postIntService (fun _ => .full) freedBlock 1] =
      some ([(.execute 7 none readyDrive modeSelectScb .ok, []),
        (.completion 7 .normal freedBlock, [.reads 7 true, .defers 7]),
        (.postIntService (fun _ => .full) freedBlock 1,
          [.reads 7 true, .continues 7, .callsBack 7, .reads 7 false])], m) := ⟨_, rfl⟩
  have hright := hclaim _ m (Run.of_exec _ hexec)
  exact hright.live _ _ (List.mem_cons_of_mem _ (List.mem_cons_of_mem _ List.mem_cons_self)) 7
    (by simp)

end Mv88fxx81.Sata.Deferred
