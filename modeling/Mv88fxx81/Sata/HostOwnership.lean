import Mathlib.Data.List.Basic
import Mathlib.Data.List.Count
import Mathlib.Data.List.FinRange
import Mathlib.Data.List.Nodup
import Mathlib.Data.List.Perm.Basic
import Mv88fxx81.Lib.Run
import Mv88fxx81.Sata.HostRuns

/-!
# When the ownership is right

Two calls break the ownership of the commands. A call whose table cannot be generated leaves its
block behind, and `mv_ial_ht_abort` returns `SUCCESS` whenever it finds any command on the done
list, whether or not the driver still refers to the one it was called for. In a run that avoids
both, every command is where it should be, and nothing that happens later mends the ownership once
it was broken.
-/

namespace Mv88fxx81.Sata.Ht

open TransitionSystem

variable {n : ℕ} {k : Fin n} {ch : HostChannel} {c : ℕ} {h h' : Host n}

/-- The block of a command is on no list. The core driver has refused a part of its VERIFY. -/
def Host.Stranded (h : Host n) (c : ℕ) : Prop :=
  ∃ k, c ∈ (h.channels k).blocks ∧ (h.channels k).waits c = 0

/-- What has to hold of a call. The table of a command is generated once its block is allocated.
When `mv_ial_ht_abort` returns `SUCCESS`, the block of its command is not stranded, and no other
call is about to give the command back. -/
def Meets (h : Host n) : HostEvent n → Prop
  | .queuecommand _ r => r.kmalloc = true → usesPrd r.scb = true →
    (mvIalLibGeneratePrd r.gen r.cmd r.pool).1.isSome = true
  | .doDone i => ∀ flight, h.flights[i]? = some flight → ∀ c, flight.abort = some c →
    ¬h.Stranded c ∧ ∀ other ∈ h.flights.eraseIdx i, c ∉ other.commands
  | _ => True

/-- The commands whose block is allocated. -/
def Host.liveBlocks (h : Host n) : List ℕ :=
  (List.finRange n).flatMap fun k => (h.channels k).blocks

/-- The commands that were accepted and have not been put on a done list, where they are completed
or dropped. -/
def Host.outstanding (h : Host n) : List ℕ :=
  h.accepted.filter fun c => decide (∀ k, c ∉ (h.channels k).listed)

/-- The ownership of the commands is as it should be. -/
structure Right (h : Host n) : Prop where
  /-- A command is put on the done list of its own channel, at most once. -/
  listed : ∀ k c, (h.channels k).listed.count c ≤ 1 ∧
    (c ∈ (h.channels k).listed → h.calls[c]? = some k)
  /-- A command gets `scsi_done` at most once, and not after it was dropped. -/
  called : ∀ c, h.called.count c ≤ 1 ∧ (c ∈ h.dropped → c ∉ h.called)
  /-- There are as many blocks as there are commands to complete. -/
  blocks : h.liveBlocks.length = h.outstanding.length
  /-- A call that returned something else than zero has left nothing. -/
  rejected : ∀ c ∉ h.accepted, ∀ k, c ∉ (h.channels k).blocks ∧ c ∉ (h.channels k).tables
  /-- The driver does not refer to a command that was aborted with success. -/
  aborts : ∀ c, (c, true) ∉ h.aborts

/-! ### Blocks that are left behind -/

/-- No block is left behind, and no command was aborted that the driver refers to. -/
structure Clean (h : Host n) : Prop where
  blocks : ∀ k, ∀ c ∈ (h.channels k).blocks, c ∈ h.accepted
  aborts : ∀ c, (c, true) ∉ h.aborts

/-- Blocks are freed only when their commands are put on a done list. -/
structure Frees (h h' : Host n) : Prop where
  blocks : ∀ k c, (h'.channels k).blocks.count c = (h.channels k).blocks.count c -
    ((h'.channels k).listed.count c - (h.channels k).listed.count c)
  accepted : h'.accepted = h.accepted
  aborts : h'.aborts = h.aborts

/-- Freeing blocks neither leaves one behind nor mends that one was. -/
theorem Frees.clean_iff (haccounted' : Accounted h') (hfrees : Frees h h') :
    Clean h' ↔ Clean h := by
  constructor
  · rintro ⟨hblocks, haborts⟩
    refine ⟨fun k c hmem => ?_, hfrees.aborts ▸ haborts⟩
    by_contra hnot
    have hunlisted : ¬ 0 < (h'.channels k).waits c + (h'.channels k).listed.count c := by
      intro hpos
      have hknown := (haccounted'.owned k).known c hpos
      rw [hfrees.accepted] at hknown
      exact hnot hknown
    have hcount := hfrees.blocks k c
    have hpos := List.count_pos_iff.2 hmem
    have hmem' := hblocks k c (List.count_pos_iff.1 (by omega))
    rw [hfrees.accepted] at hmem'
    exact hnot hmem'
  · rintro ⟨hblocks, haborts⟩
    refine ⟨fun k c hmem => ?_, hfrees.aborts.symm ▸ haborts⟩
    have hcount := hfrees.blocks k c
    have hpos := List.count_pos_iff.2 hmem
    rw [hfrees.accepted]
    exact hblocks k c (List.count_pos_iff.1 (by omega))

theorem Frees.of_handed {channels : Fin n → HostChannel}
    (hhanded : ∀ k, Handed [] (h.channels k) (channels k)) (adapterState : Ial.AdapterState) :
    Frees h { h with channels := channels, adapterState := adapterState } :=
  ⟨fun k c => (hhanded k).blocks c, rfl, rfl⟩

/-- A channel that hands commands over. -/
theorem handed_frees (h : Host n) (k : Fin n) {new : List ℕ} {ch' : HostChannel}
    (hhanded : Handed new ch ch') (calls : List (Fin n)) (accepted : List ℕ) :
    Frees ({ h.setChannel k ch with calls := calls, accepted := accepted } : Host n)
      { h.setChannel k ch' with calls := calls, accepted := accepted } := by
  refine ⟨fun j c => ?_, rfl, rfl⟩
  show (Function.update h.channels k ch' j).blocks.count c =
    (Function.update h.channels k ch j).blocks.count c -
      ((Function.update h.channels k ch' j).listed.count c -
        (Function.update h.channels k ch j).listed.count c)
  by_cases hj : j = k
  · rw [hj, Function.update_self, Function.update_self]
    exact hhanded.blocks c
  · rw [Function.update_of_ne hj, Function.update_of_ne hj]
    omega

theorem setChannel_frees {new : List ℕ} (hhanded : Handed new (h.channels k) ch) :
    Frees h (h.setChannel k ch) := by
  have hfrees := handed_frees h k hhanded h.calls h.accepted
  have hidle : h.setChannel k (h.channels k) = h := by
    unfold Host.setChannel
    rw [Function.update_eq_self]
  rw [hidle] at hfrees
  exact hfrees

/-- Taking the done list of a channel frees nothing. -/
theorem emptied_frees (h : Host n) (k j : Fin n) (c : ℕ) :
    ((h.emptied k).channels j).blocks.count c = (h.channels j).blocks.count c -
      (((h.emptied k).channels j).listed.count c - (h.channels j).listed.count c) := by
  rw [h.emptied_channel]
  show (h.channels j).blocks.count c = _ - ((h.channels j).listed.count c - _)
  omega

theorem takeDone_frees (h : Host n) (k : Fin n) (abort : Option ℕ) :
    Frees h (h.takeDone k abort).2 := by
  unfold Host.takeDone getFirstCmnd
  dsimp only
  split
  · exact ⟨emptied_frees h k, rfl, rfl⟩
  · exact ⟨emptied_frees h k, rfl, rfl⟩

/-! ### One step -/

/-- The block of the next call is not left behind if the call is accepted. -/
theorem allocated_clean (haccounted : Accounted h) {tables : List ℕ} :
    Clean ({ h.setChannel k { h.channels k with
        blocks := (h.channels k).blocks ++ [h.calls.length]
        tables := tables } with
      calls := h.calls ++ [k]
      accepted := h.accepted ++ [h.calls.length] } : Host n) ↔ Clean h := by
  have hchannel : ∀ j, ((h.setChannel k { h.channels k with
      blocks := (h.channels k).blocks ++ [h.calls.length]
      tables := tables }).channels j).blocks =
        if j = k then (h.channels j).blocks ++ [h.calls.length] else (h.channels j).blocks := by
    intro j
    unfold Host.setChannel
    dsimp only
    by_cases hj : j = k
    · rw [hj, Function.update_self, if_pos rfl]
    · rw [Function.update_of_ne hj, if_neg hj]
  constructor
  · rintro ⟨hblocks, haborts⟩
    refine ⟨fun j c hmem => ?_, haborts⟩
    have hin : c ∈ h.accepted ++ [h.calls.length] := by
      refine hblocks j c ?_
      show c ∈ ((h.setChannel k _).channels j).blocks
      rw [hchannel]
      split
      · exact List.mem_append_left _ hmem
      · exact hmem
    rcases List.mem_append.1 hin with hin | hin
    · exact hin
    · rw [List.mem_singleton.1 hin] at hmem
      have hfresh := (haccounted.owned j).fresh.1
      exact absurd (List.count_pos_iff.2 hmem) (by omega)
  · rintro ⟨hblocks, haborts⟩
    refine ⟨fun j c hmem => ?_, haborts⟩
    replace hmem : c ∈ ((h.setChannel k { h.channels k with
      blocks := (h.channels k).blocks ++ [h.calls.length]
      tables := tables }).channels j).blocks := hmem
    show c ∈ h.accepted ++ [h.calls.length]
    rw [hchannel] at hmem
    split at hmem
    · rcases List.mem_append.1 hmem with hmem | hmem
      · exact List.mem_append_left _ (hblocks j c hmem)
      · exact List.mem_append_right _ hmem
    · exact List.mem_append_left _ (hblocks j c hmem)

/-- A call leaves its block behind if and only if its table cannot be generated. -/
theorem queuecommand_clean (haccounted : Accounted h) (r : Request) {answer : HostAnswer}
    (hstep : hostStep h (.queuecommand k r) = some (answer, h')) :
    Clean h' ↔ Clean h ∧ Meets h (.queuecommand k r) := by
  have haccounted' := queuecommand_accounted haccounted k r hstep
  rw [hostStep_queuecommand] at hstep
  obtain ⟨-, rfl⟩ := Prod.mk.inj (Option.some.inj hstep)
  rcases queuecommand_cases h k r with
    ⟨hkmalloc, heq⟩ | ⟨tables, htables, hkmalloc, ⟨⟨huses, hfails⟩, heq⟩ | ⟨hok, heq⟩⟩
  · rw [heq]
    have hmeets : Meets h (.queuecommand k r) := fun hk => by rw [hkmalloc] at hk; cases hk
    constructor
    · rintro ⟨hblocks, haborts⟩
      exact ⟨⟨by simpa using hblocks, haborts⟩, hmeets⟩
    · rintro ⟨⟨hblocks, haborts⟩, -⟩
      exact ⟨by simpa using hblocks, haborts⟩
  · rw [heq]
    constructor
    · rintro ⟨hblocks, -⟩
      have hmem : h.calls.length ∈ h.accepted := by
        have hblock := hblocks k h.calls.length
        rw [show ({ h.setChannel k _ with calls := _ } : Host n).channels k = _ from
          setChannel_self h k _] at hblock
        simpa using hblock
      exact absurd (haccounted.submitted _ hmem) (Nat.lt_irrefl _)
    · rintro ⟨-, hmeets⟩
      rw [hmeets hkmalloc huses] at hfails
      cases hfails
  · rw [heq] at haccounted' ⊢
    dsimp only at haccounted' ⊢
    rw [if_pos rfl, takeDone_accepted] at haccounted' ⊢
    have htakes := executeCommand_takes h.adapterState k r
      { h.channels k with
        blocks := (h.channels k).blocks ++ [h.calls.length]
        tables := tables } h.calls.length
    rw [(takeDone_frees _ k none).clean_iff haccounted',
      (handed_frees h k htakes.toHanded _ _).clean_iff (accepted_accounted haccounted k r htables),
      allocated_clean haccounted]
    exact ⟨fun hclean => ⟨hclean, fun _ => hok⟩, And.left⟩

/-- The driver refers to a command whose abort goes on if and only if its block is stranded or
another call is about to give it back. -/
theorem refersTo_iff (haccounted : Accounted h) {i : ℕ} {flight : Flight}
    (hflight : h.flights[i]? = some flight) (habort : flight.abort = some c) :
    Host.RefersTo { h with
      flights := h.flights.eraseIdx i, called := h.called ++ flight.commands } c ↔
        h.Stranded c ∨ ∃ other ∈ h.flights.eraseIdx i, c ∈ other.commands := by
  obtain ⟨-, hnone⟩ := haccounted.aborting flight (List.mem_of_getElem? hflight) c habort
  constructor
  · rintro (⟨j, hblock | hdone⟩ | hother)
    · exact Or.inl ⟨j, hblock, (hnone j).1⟩
    · have hpos := List.count_pos_iff.2 (show c ∈ (h.channels j).done from hdone)
      have hzero := (hnone j).2
      omega
    · exact Or.inr hother
  · rintro (⟨j, hblock, -⟩ | hother)
    · exact Or.inl ⟨j, Or.inl hblock⟩
    · exact Or.inr hother

theorem doDone_clean (haccounted : Accounted h) {i : ℕ} {flight : Flight}
    (hflight : h.flights[i]? = some flight) :
    Clean (h.doDone i flight) ↔ Clean h ∧ Meets h (.doDone i) := by
  have hmeets : Meets h (.doDone i) ↔ ∀ c, flight.abort = some c →
      ¬h.Stranded c ∧ ∀ other ∈ h.flights.eraseIdx i, c ∉ other.commands := by
    constructor
    · intro hmeets
      exact hmeets flight hflight
    · intro hmeets flight' hflight'
      obtain rfl := Option.some.inj (hflight.symm.trans hflight')
      exact hmeets
  rw [hmeets]
  unfold Host.doDone
  dsimp only
  cases habort : flight.abort with
  | none =>
    constructor
    · rintro ⟨hblocks, haborts⟩
      exact ⟨⟨hblocks, haborts⟩, fun c hc => by cases hc⟩
    · rintro ⟨⟨hblocks, haborts⟩, -⟩
      exact ⟨hblocks, haborts⟩
  | some c =>
    have hrefers := refersTo_iff haccounted hflight habort
    constructor
    · rintro ⟨hblocks, haborts⟩
      refine ⟨⟨hblocks, fun c' hmem => haborts c' (List.mem_append_left _ hmem)⟩, fun c' hc' => ?_⟩
      obtain rfl := Option.some.inj hc'
      have hnot : ¬ Host.RefersTo { h with
          flights := h.flights.eraseIdx i, called := h.called ++ flight.commands } c := by
        intro hyes
        refine haborts c (List.mem_append_right _ ?_)
        rw [decide_eq_true hyes]
        exact List.mem_singleton_self _
      rw [hrefers, not_or] at hnot
      exact ⟨hnot.1, fun other hmem hc => hnot.2 ⟨other, hmem, hc⟩⟩
    · rintro ⟨⟨hblocks, haborts⟩, hright⟩
      refine ⟨hblocks, fun c' hmem => ?_⟩
      obtain ⟨hstranded, hothers⟩ := hright c rfl
      have hnot : ¬ Host.RefersTo { h with
          flights := h.flights.eraseIdx i, called := h.called ++ flight.commands } c := by
        rw [hrefers]
        rintro (hyes | ⟨other, hmem, hc⟩)
        · exact hstranded hyes
        · exact hothers other hmem hc
      rcases List.mem_append.1 hmem with hmem | hmem
      · exact haborts c' hmem
      · rw [decide_eq_false hnot, List.mem_singleton] at hmem
        cases hmem

theorem busReset_clean (haccounted : Accounted h) (k : Fin n) :
    Clean (h.busReset k).2 ↔ Clean h := by
  have haccounted' := busReset_accounted haccounted k
  rcases busReset_cases h k with ⟨-, heq⟩ | ⟨ch, hpasses, hsata, heq⟩
  · rw [heq]
  · rw [heq] at haccounted' ⊢
    have hset := haccounted.setChannel hpasses fun hinit =>
      hsata.trans (haccounted.unallocated hinit k)
    have hemptied : Frees (h.setChannel k ch)
        { (h.setChannel k ch).emptied k with dropped := h.dropped ++ ch.done } :=
      ⟨emptied_frees (h.setChannel k ch) k, rfl, rfl⟩
    rw [hemptied.clean_iff haccounted', (setChannel_frees hpasses.toHanded).clean_iff hset]

/-- A step leaves no block behind and aborts no command that the driver refers to if and only if
it is as it should be. -/
theorem hostStep_clean {e : HostEvent n} {answer : HostAnswer} (haccounted : Accounted h)
    (hstep : hostStep h e = some (answer, h')) : Clean h' ↔ Clean h ∧ Meets h e := by
  have haccounted' := hostStep_accounted haccounted hstep
  cases e with
  | queuecommand k r => exact queuecommand_clean haccounted r hstep
  | interrupt reports results =>
    obtain ⟨-, rfl⟩ := Prod.mk.inj (Option.some.inj hstep)
    have hall : ∀ k, Handed [] (h.channels k)
        (mvSataScsiPostIntService results (serviceRoutine reports h.channels k)) := fun k =>
      ((serviceRoutine_interrupts reports h.channels k).trans
        (mvSataScsiPostIntService_interrupts results _)).toHanded
    rw [(Frees.of_handed hall h.adapterState).clean_iff haccounted']
    exact (and_iff_left trivial).symm
  | tick hw errors =>
    obtain ⟨h₁, htick, heq⟩ := Option.map_eq_some_iff.1 hstep
    obtain ⟨-, rfl⟩ := Prod.mk.inj heq
    refine Iff.trans ?_ (and_iff_left trivial).symm
    rcases tick_cases haccounted htick with rfl | ⟨channels, adapterState, hall, -, rfl⟩
    · exact Iff.rfl
    · exact (Frees.of_handed (fun k => (hall k).toHanded) adapterState).clean_iff haccounted'
  | collect k =>
    obtain ⟨-, rfl⟩ := Prod.mk.inj (Option.some.inj hstep)
    rw [(takeDone_frees h k none).clean_iff haccounted']
    exact (and_iff_left trivial).symm
  | abort c =>
    cases hcall : h.calls[c]? with
    | none =>
      simp only [hostStep, hcall] at hstep
      cases hstep
    | some k =>
      simp only [hostStep, hcall] at hstep
      obtain ⟨-, rfl⟩ := Prod.mk.inj (Option.some.inj hstep)
      have hrestart := (mvRestartChannel_passes (h.channels k)).toHanded
      unfold Host.abort at haccounted' ⊢
      rw [(takeDone_frees _ k (some c)).clean_iff haccounted',
        (setChannel_frees hrestart).clean_iff (restart_accounted haccounted k)]
      exact (and_iff_left trivial).symm
  | busReset k =>
    obtain ⟨-, rfl⟩ := Prod.mk.inj (Option.some.inj hstep)
    exact (busReset_clean haccounted k).trans (and_iff_left trivial).symm
  | doDone i =>
    cases hflight : h.flights[i]? with
    | none =>
      simp only [hostStep, hflight] at hstep
      cases hstep
    | some flight =>
      simp only [hostStep, hflight] at hstep
      obtain ⟨-, rfl⟩ := Prod.mk.inj (Option.some.inj hstep)
      exact doDone_clean haccounted hflight

/-! ### Whole runs -/

/-- A command has one block at most, on its own channel. -/
theorem liveBlocks_nodup (haccounted : Accounted h) : h.liveBlocks.Nodup := by
  have howned := haccounted.owned
  unfold Host.liveBlocks
  rw [List.nodup_flatMap]
  refine ⟨fun k _ => ?_, (List.nodup_finRange n).imp fun {k j} hne => ?_⟩
  · rw [List.nodup_iff_count_le_one]
    intro c
    have honce := (howned k).once c
    omega
  · intro c hmem hmem'
    have hcall := (howned k).own c (Nat.add_pos_left (List.count_pos_iff.2 hmem) _)
    have hcall' := (howned j).own c (Nat.add_pos_left (List.count_pos_iff.2 hmem') _)
    exact hne (Option.some.inj (hcall.symm.trans hcall'))

/-- Where no block was left behind, the blocks are those of the commands to complete. -/
theorem Clean.liveBlocks_perm (hclean : Clean h) (haccounted : Accounted h) :
    h.liveBlocks.Perm h.outstanding := by
  have howned := haccounted.owned
  refine (List.perm_ext_iff_of_nodup (liveBlocks_nodup haccounted)
    (haccounted.nodup.filter _)).2 fun c => ?_
  unfold Host.liveBlocks
  rw [List.mem_flatMap, List.mem_filter, decide_eq_true_iff]
  constructor
  · rintro ⟨k, -, hblock⟩
    refine ⟨hclean.blocks k c hblock, fun j hlisted => ?_⟩
    have hpos := List.count_pos_iff.2 hblock
    have hpos' := List.count_pos_iff.2 hlisted
    have hcall := (howned k).own c (by omega)
    rw [(howned j).own c (by omega)] at hcall
    obtain rfl := Option.some.inj hcall
    have honce := (howned j).once c
    omega
  · rintro ⟨haccepted, hlisted⟩
    have hlt := haccounted.submitted c haccepted
    have hheld := (howned h.calls[c]).held c haccepted (List.getElem?_eq_getElem hlt)
    have hzero := List.count_eq_zero_of_not_mem (hlisted h.calls[c])
    exact ⟨h.calls[c], List.mem_finRange _, List.count_pos_iff.1 (by omega)⟩

/-- Where no block was left behind, the accounts are right. -/
theorem Clean.right (hclean : Clean h) (haccounted : Accounted h) : Right h := by
  have howned := haccounted.owned
  refine ⟨fun k c => ⟨?_, fun hmem => ?_⟩, fun c => ?_, ?_, fun c hmem k => ?_, hclean.aborts⟩
  · have honce := (howned k).once c
    omega
  · have hpos := List.count_pos_iff.2 hmem
    exact (howned k).own c (by omega)
  · have htaken : h.called.count c + h.dropped.count c ≤ 1 := by
      have hsum : h.taken.count c = (h.flights.flatMap Flight.commands).count c +
          h.called.count c + h.dropped.count c := by
        unfold Host.taken
        rw [List.count_append, List.count_append]
      cases hcall : h.calls[c]? with
      | none =>
        have hforeign := haccounted.foreign c hcall
        omega
      | some k =>
        have hback := haccounted.handedBack k c hcall
        have honce := (howned k).once c
        omega
    refine ⟨by omega, fun hdropped hcalled => ?_⟩
    have hdropped := List.count_pos_iff.2 hdropped
    have hcalled := List.count_pos_iff.2 hcalled
    omega
  · exact (hclean.liveBlocks_perm haccounted).length_eq
  · have hblock : c ∉ (h.channels k).blocks := fun hblock => hmem (hclean.blocks k c hblock)
    refine ⟨hblock, fun htable => ?_⟩
    have htables := (howned k).tables c
    have hpos := List.count_pos_iff.2 htable
    exact hblock (List.count_pos_iff.1 (by omega))

/-- The ownership is right if and only if no block was left behind and no command was aborted that
the driver refers to. -/
theorem right_iff (haccounted : Accounted h) : Right h ↔ Clean h := by
  constructor
  · intro hright
    refine ⟨fun k c hmem => ?_, hright.aborts⟩
    by_contra hnot
    exact (hright.rejected c hnot k).1 hmem
  · intro hclean
    exact hclean.right haccounted

theorem initialHost_clean (scb : ℕ → Scb) : Clean (initialHost scb : Host n) where
  blocks k c hmem := by cases hmem
  aborts c hmem := by cases hmem

theorem hostRun_accounted {scb : ℕ → Scb} {trace : List (HostEvent n × HostAnswer)}
    (hrun : Run hostStep (fun _ _ => True) (initialHost scb) trace h) : Accounted h :=
  Run.invariant (I := fun _ h => Accounted h) (initialHost_accounted scb)
    (fun _ _ _ _ _ haccounted _ hstep => hostStep_accounted haccounted hstep) hrun

/-- **Host command ownership.** At the end of every run of the calls, the ownership of the commands
is right if and only if every call was as it should be. -/
theorem hostRun_right_iff {scb : ℕ → Scb} {trace : List (HostEvent n × HostAnswer)}
    (hrun : Run hostStep (fun _ _ => True) (initialHost scb) trace h) :
    Right h ↔ Run hostStep Meets (initialHost scb) trace h := by
  rw [right_iff (hostRun_accounted hrun)]
  induction hrun with
  | start => exact ⟨fun _ => Run.start, fun _ => initialHost_clean scb⟩
  | next hrun hok hstep ih =>
    rw [hostStep_clean (hostRun_accounted hrun) hstep]
    constructor
    · rintro ⟨hclean, hmeets⟩
      exact Run.next (ih.1 hclean) hmeets hstep
    · intro hmet
      obtain ⟨s, hmet, hmeets, -⟩ := hmet.of_concat
      obtain rfl := hrun.unique hmet
      exact ⟨ih.2 hmet, hmeets⟩

/-- A call for a command block, with a data buffer of 512 bytes. -/
def request (scb : Scb) (bufferBus : UInt32) : Request where
  scb := scb
  ext := smallDriveMemory
  gen := .genII
  cmd :=
    { useSg := false
      sg := []
      requestBufflen := 512
      directionNone := false
      bufferBus := bufferBus
      tableBus := 0x2000 }
  pool := { prdPoolAligned := fun _ => 0x1000, freePRDsNum := 31 }
  kmalloc := true
  result := .ok

/-- A READ of one block. -/
def readScb : Scb := { verifyScb with scsiCdb := [0x08, 0, 0, 0, 1, 0], scsiCdbLength := 6 }

/-- A READ that waits for the channel is aborted, and the driver no longer refers to it. -/
theorem hostRun_right_aborted : ∃ trace h,
    Run hostStep (fun _ _ => True) (initialHost fun _ => verifyScb : Host 1) trace h ∧
      Right h ∧ h.accepted = [0] ∧ h.called = [0] ∧ h.aborts = [(0, false)] := by
  have hmeets : ∀ h : Host 1, h.flights = [⟨[0], some 0⟩] → (h.channels 0).blocks = [] →
      Meets h (.doDone 0) := by
    intro h hflights hblocks flight hflight c habort
    rw [hflights] at hflight ⊢
    refine ⟨?_, fun other hmem => by cases hmem⟩
    rintro ⟨k, hblock, -⟩
    rw [Subsingleton.elim k 0, hblocks] at hblock
    cases hblock
  obtain ⟨trace, h, hrun, heq⟩ : ∃ trace h,
      Run hostStep Meets (initialHost fun _ => verifyScb : Host 1) trace h ∧
        h.accepted = [0] ∧ h.called = [0] ∧ h.aborts = [(0, false)] := by
    exact ⟨_, _, Run.next (e := HostEvent.doDone 0)
      (Run.next (e := HostEvent.abort 0)
        (Run.next (e := HostEvent.queuecommand 0 (request readScb 0x8000)) .start
          (fun _ _ => rfl) rfl)
        trivial rfl)
      (hmeets _ rfl rfl) rfl, rfl, rfl, rfl⟩
  have hany : Run hostStep (fun _ _ => True) (initialHost fun _ => verifyScb : Host 1) trace h :=
    hrun.mono fun _ _ _ => trivial
  exact ⟨trace, h, hany, (hostRun_right_iff hany).2 hrun, heq⟩

/-- The table of a READ into an odd address cannot be generated: the call is answered with `-1`, and
its block and the table that it took stay behind. -/
theorem hostRun_leavesBlock :
    ¬∀ trace h, Run hostStep (fun _ _ => True) (initialHost fun _ => verifyScb : Host 1) trace h →
      Right h := by
  intro hclaim
  obtain ⟨h, hexec, hblock⟩ : ∃ h, exec hostStep (fun _ _ => True)
      (initialHost fun _ => verifyScb : Host 1) [.queuecommand 0 (request readScb 0x8001)] =
        some ([(.queuecommand 0 (request readScb 0x8001), .queued (-1))], h) ∧
      (h.channels 0).blocks = [0] ∧ (h.channels 0).tables = [0] ∧ h.accepted = [] :=
    ⟨_, rfl, rfl, rfl, rfl⟩
  have hright := hclaim _ h (Run.of_exec _ hexec)
  have hnone := (hright.rejected 0 (by simp [hblock.2.2]) 0).1
  rw [hblock.1] at hnone
  exact hnone List.mem_cons_self

end Mv88fxx81.Sata.Ht
