import Mathlib.Data.List.Basic
import Mathlib.Data.List.Count
import Mathlib.Data.List.Nodup
import Mathlib.Data.List.Perm.Basic
import Mv88fxx81.Sata.HostAccounts
import Mv88fxx81.Sata.IalPorts

/-!
# Who owns a command

Every command that a host has accepted has its block until it is put on the done list of its
channel, from which it is given back once or dropped. Every call keeps these accounts, also where
it fails.
-/

namespace Mv88fxx81.Sata.Ht

variable {n : ℕ} {calls : List (Fin n)} {accepted : List ℕ} {k : Fin n} {ch ch' : HostChannel}
  {c : ℕ} {h h' : Host n}

/-! ### The accounts of one channel -/

/-- The accounts of a channel: a command that waits has its block, a command has a block or is on
the done list at most once, and one of these if it was accepted. -/
structure Owned (calls : List (Fin n)) (accepted : List ℕ) (k : Fin n) (ch : HostChannel) :
    Prop where
  waits : ∀ c, ch.waits c ≤ ch.blocks.count c
  tables : ∀ c, ch.tables.count c ≤ ch.blocks.count c
  once : ∀ c, ch.blocks.count c + ch.listed.count c ≤ 1
  done : ∀ c, ch.done.count c ≤ ch.listed.count c
  own : ∀ c, 0 < ch.blocks.count c + ch.listed.count c → calls[c]? = some k
  held : ∀ c ∈ accepted, calls[c]? = some k → ch.blocks.count c + ch.listed.count c = 1
  known : ∀ c, 0 < ch.waits c + ch.listed.count c → c ∈ accepted

/-- A command that neither waits nor is on the done list does not come back. -/
theorem Handed.stays {new : List ℕ} (hhanded : Handed new ch ch') (hnew : new.count c = 0)
    (hwaits : ch.waits c = 0) (hdone : ch.done.count c = 0) :
    ch'.waits c = 0 ∧ ch'.done.count c = 0 := by
  have hkept := hhanded.kept c
  have hlisted := hhanded.listed c
  have hdone' := hhanded.done c
  omega

/-- Handing commands over keeps the accounts. -/
theorem Owned.handed (howned : Owned calls accepted k ch) (hhanded : Handed [] ch ch') :
    Owned calls accepted k ch' := by
  have hall : ∀ c, ch'.blocks.count c + ch'.listed.count c =
      ch.blocks.count c + ch.listed.count c ∧ ch'.waits c ≤ ch'.blocks.count c ∧
      ch'.waits c + ch'.listed.count c ≤ ch.waits c + ch.listed.count c := by
    intro c
    have hkept := hhanded.kept c
    have hlisted := hhanded.listed c
    have hblocks := hhanded.blocks c
    have hwaits := howned.waits c
    rw [List.count_nil] at hkept
    omega
  refine ⟨fun c => (hall c).2.1, fun c => ?_, fun c => ?_, fun c => ?_, fun c hpos => ?_,
    fun c hmem hcall => ?_, fun c hpos => howned.known c ?_⟩
  · have htables := howned.tables c
    rw [hhanded.tables, hhanded.blocks]
    omega
  · rw [(hall c).1]
    exact howned.once c
  · have hdone := hhanded.done c
    have hle := howned.done c
    omega
  · rw [(hall c).1] at hpos
    exact howned.own c hpos
  · rw [(hall c).1]
    exact howned.held c hmem hcall
  · exact Nat.lt_of_lt_of_le hpos (hall c).2.2

/-- The done list is taken. -/
theorem Owned.taken (howned : Owned calls accepted k ch) :
    Owned calls accepted k { ch with done := [] } :=
  { howned with done := fun _ => Nat.zero_le _ }

/-- A command that is not the channel's is nowhere in it. -/
theorem Owned.absent (howned : Owned calls accepted k ch) (hcall : calls[c]? ≠ some k) :
    ch.blocks.count c = 0 ∧ ch.listed.count c = 0 ∧ ch.waits c = 0 ∧ ch.done.count c = 0 := by
  have hzero : ¬ 0 < ch.blocks.count c + ch.listed.count c := fun hpos => hcall (howned.own c hpos)
  have hwaits := howned.waits c
  have hdone := howned.done c
  omega

/-- The next call has no command yet. -/
theorem Owned.fresh (howned : Owned calls accepted k ch) :
    ch.blocks.count calls.length = 0 ∧ ch.listed.count calls.length = 0 ∧
      ch.waits calls.length = 0 ∧ ch.done.count calls.length = 0 :=
  howned.absent (by rw [List.getElem?_eq_none (Nat.le_refl _)]; simp)

/-- A call more. -/
theorem Owned.called (howned : Owned calls accepted k ch)
    (hsubmitted : ∀ c ∈ accepted, c < calls.length) (j : Fin n) :
    Owned (calls ++ [j]) accepted k ch := by
  refine { howned with own := fun c hpos => ?_, held := fun c hmem hcall => ?_ }
  · have hcall := howned.own c hpos
    obtain ⟨hlt, -⟩ := List.getElem?_eq_some_iff.1 hcall
    rw [List.getElem?_append_left hlt]
    exact hcall
  · rw [List.getElem?_append_left (hsubmitted c hmem)] at hcall
    exact howned.held c hmem hcall

/-- The call more has its block, and maybe a table. -/
theorem Owned.allocated (howned : Owned calls accepted k ch)
    (hsubmitted : ∀ c ∈ accepted, c < calls.length) {tables : List ℕ}
    (htables : tables = ch.tables ∨ tables = ch.tables ++ [calls.length]) :
    Owned (calls ++ [k]) accepted k
      { ch with blocks := ch.blocks ++ [calls.length], tables := tables } := by
  obtain ⟨hwaits, -, honce, hdone, hown, hheld, hknown⟩ := howned.called hsubmitted k
  obtain ⟨hblocks, hlisted, -, -⟩ := howned.fresh
  have hcount : ∀ c, (ch.blocks ++ [calls.length]).count c =
      ch.blocks.count c + [calls.length].count c := fun c => List.count_append
  have hnew : ∀ c, c ≠ calls.length → [calls.length].count c = 0 := fun c hc =>
    List.count_eq_zero_of_not_mem (by simpa using hc)
  refine ⟨fun c => ?_, fun c => ?_, fun c => ?_, hdone, fun c hpos => ?_, fun c hmem hcall => ?_,
    hknown⟩
  · have hle := hwaits c
    show ch.waits c ≤ (ch.blocks ++ [calls.length]).count c
    rw [hcount]
    omega
  · have hle := howned.tables c
    show tables.count c ≤ (ch.blocks ++ [calls.length]).count c
    rw [hcount]
    rcases htables with rfl | rfl
    · omega
    · rw [List.count_append]
      omega
  · have hle := honce c
    show (ch.blocks ++ [calls.length]).count c + ch.listed.count c ≤ 1
    rw [hcount]
    by_cases hc : c = calls.length
    · rw [hc, hblocks, hlisted, List.count_singleton_self]
    · rw [hnew c hc]
      exact hle
  · have hpos : 0 < (ch.blocks ++ [calls.length]).count c + ch.listed.count c := hpos
    by_cases hc : c = calls.length
    · rw [hc]
      simp
    · rw [hcount, hnew c hc] at hpos
      exact hown c hpos
  · have hc : c ≠ calls.length := Nat.ne_of_lt (hsubmitted c hmem)
    show (ch.blocks ++ [calls.length]).count c + ch.listed.count c = 1
    rw [hcount, hnew c hc]
    exact hheld c hmem hcall

/-- The command of the last call is accepted. -/
theorem Owned.accepts (howned : Owned (calls ++ [k]) accepted k ch)
    (hblock : ch.blocks.count calls.length = 1) (hwaits : ch.waits calls.length = 0)
    (hhanded : Handed [calls.length] ch ch') :
    Owned (calls ++ [k]) (accepted ++ [calls.length]) k ch' := by
  have hnew : ∀ c, c ≠ calls.length → [calls.length].count c = 0 := fun c hc =>
    List.count_eq_zero_of_not_mem (by simpa using hc)
  have hall : ∀ c, ch'.blocks.count c + ch'.listed.count c =
      ch.blocks.count c + ch.listed.count c ∧ ch'.waits c ≤ ch'.blocks.count c := by
    intro c
    have hkept := hhanded.kept c
    have hlisted := hhanded.listed c
    have hblocks := hhanded.blocks c
    have hle := howned.waits c
    by_cases hc : c = calls.length
    · subst hc
      rw [List.count_singleton_self] at hkept
      omega
    · rw [hnew c hc] at hkept
      omega
  refine ⟨fun c => (hall c).2, fun c => ?_, fun c => ?_, fun c => ?_, fun c hpos => ?_,
    fun c hmem hcall => ?_, fun c hpos => ?_⟩
  · have htables := howned.tables c
    rw [hhanded.tables, hhanded.blocks]
    omega
  · rw [(hall c).1]
    exact howned.once c
  · have hdone := hhanded.done c
    have hle := howned.done c
    omega
  · rw [(hall c).1] at hpos
    exact howned.own c hpos
  · rw [(hall c).1]
    rcases List.mem_append.1 hmem with hmem | hmem
    · exact howned.held c hmem hcall
    · have honce := howned.once c
      rw [List.mem_singleton.1 hmem] at honce ⊢
      omega
  · by_cases hc : c = calls.length
    · rw [hc]
      simp
    · have hkept := hhanded.kept c
      rw [hnew c hc] at hkept
      exact List.mem_append_left _ (howned.known c (by omega))

/-- A command that another channel accepts. -/
theorem Owned.otherAccepts {j : Fin n} (howned : Owned (calls ++ [j]) accepted k ch) (hj : k ≠ j) :
    Owned (calls ++ [j]) (accepted ++ [calls.length]) k ch := by
  refine { howned with
    held := fun c hmem hcall => ?_
    known := fun c hpos => List.mem_append_left _ (howned.known c hpos) }
  rcases List.mem_append.1 hmem with hmem | hmem
  · exact howned.held c hmem hcall
  · rw [List.mem_singleton.1 hmem, List.getElem?_concat_length] at hcall
    exact absurd (Option.some.inj hcall).symm hj

/-! ### The accounts of the host -/

/-- The commands that have been taken from the done lists. -/
def Host.taken (h : Host n) : List ℕ := h.flights.flatMap Flight.commands ++ h.called ++ h.dropped

/-- The accounts of all channels are kept, and what was put on a done list is still there or has
been taken from it once. A command that is to be aborted no longer waits. -/
structure Accounted (h : Host n) : Prop where
  owned : ∀ k, Owned h.calls h.accepted k (h.channels k)
  linked : ∀ k, (h.channels k).Linked
  idle : ∀ k, (h.channels k).deferred = []
  unallocated : h.adapterState = .initializing → ∀ k, (h.channels k).ial.sataChannel = false
  handedBack : ∀ k c, h.calls[c]? = some k →
    (h.channels k).listed.count c = (h.channels k).done.count c + h.taken.count c
  foreign : ∀ c, h.calls[c]? = none → h.taken.count c = 0
  submitted : ∀ c ∈ h.accepted, c < h.calls.length
  nodup : h.accepted.Nodup
  aborting : ∀ flight ∈ h.flights, ∀ c, flight.abort = some c → c < h.calls.length ∧
    ∀ k, (h.channels k).waits c = 0 ∧ (h.channels k).done.count c = 0

theorem initialHost_accounted (scb : ℕ → Scb) : Accounted (initialHost scb : Host n) where
  owned k := by
    have hnone : ∀ c : ℕ, (initialChannel scb).waits c = 0 := fun c => rfl
    refine ⟨fun c => Nat.le_of_eq (hnone c), fun c => Nat.le_refl _, fun c => Nat.zero_le _,
      fun c => Nat.le_refl _, fun c hpos => ?_, fun c hmem => ?_, fun c hpos => ?_⟩
    · exact absurd hpos (Nat.lt_irrefl 0)
    · cases hmem
    · exact absurd hpos (Nat.lt_irrefl 0)
  linked k := ⟨fun hne => absurd rfl hne, fun _ => rfl⟩
  idle k := rfl
  unallocated _ k := rfl
  handedBack k c hcall := by cases hcall
  foreign c _ := rfl
  submitted c hmem := by cases hmem
  nodup := List.nodup_nil
  aborting flight hmem := by cases hmem

/-- Every channel hands commands over. -/
theorem Accounted.hand (haccounted : Accounted h) {channels : Fin n → HostChannel}
    {adapterState : Ial.AdapterState} (hhanded : ∀ k, Handed [] (h.channels k) (channels k))
    (hlinked : ∀ k, (h.channels k).Linked → (channels k).Linked)
    (hidle : ∀ k, (channels k).deferred = [])
    (hunallocated : adapterState = .initializing → ∀ k, (channels k).ial.sataChannel = false) :
    Accounted { h with channels := channels, adapterState := adapterState } where
  owned k := (haccounted.owned k).handed (hhanded k)
  linked k := hlinked k (haccounted.linked k)
  idle := hidle
  unallocated := hunallocated
  handedBack k c hcall := by
    have hback := haccounted.handedBack k c hcall
    have hdone := (hhanded k).done c
    show (channels k).listed.count c = (channels k).done.count c + h.taken.count c
    omega
  foreign := haccounted.foreign
  submitted := haccounted.submitted
  nodup := haccounted.nodup
  aborting flight hmem c habort := by
    obtain ⟨hlt, hall⟩ := haccounted.aborting flight hmem c habort
    refine ⟨hlt, fun k => ?_⟩
    exact (hhanded k).stays List.count_nil (hall k).1 (hall k).2

/-- One channel changes. -/
theorem forall_update {P : HostChannel → HostChannel → Prop} (hrefl : ∀ ch, P ch ch)
    (hch : P (h.channels k) ch) (j : Fin n) :
    P (h.channels j) ((h.setChannel k ch).channels j) := by
  unfold Host.setChannel
  dsimp only
  by_cases hj : j = k
  · rw [hj, Function.update_self]
    exact hch
  · rw [Function.update_of_ne hj]
    exact hrefl _

/-- One channel hands commands over, under the lock of a call. -/
theorem Accounted.setChannel (haccounted : Accounted h) (hpasses : Passes (h.channels k) ch)
    (hunallocated : h.adapterState = .initializing → ch.ial.sataChannel = false) :
    Accounted (h.setChannel k ch) := by
  have hall := forall_update (P := Passes) Passes.refl hpasses
  refine haccounted.hand (fun j => (hall j).toHanded) (fun j => (hall j).linked) (fun j => ?_)
    fun hinit j => ?_
  · exact (hall j).deferred.trans (haccounted.idle j)
  · by_cases hj : j = k
    · rw [hj]
      show (Function.update h.channels k ch k).ial.sataChannel = false
      rw [Function.update_self]
      exact hunallocated hinit
    · show (Function.update h.channels k ch j).ial.sataChannel = false
      rw [Function.update_of_ne hj]
      exact haccounted.unallocated hinit j

/-- The done list of a channel is emptied. -/
def Host.emptied (h : Host n) (k : Fin n) : Host n :=
  h.setChannel k { h.channels k with done := [] }

theorem Host.emptied_channel (h : Host n) (k j : Fin n) :
    (h.emptied k).channels j =
      { h.channels j with done := if j = k then [] else (h.channels j).done } := by
  unfold Host.emptied Host.setChannel
  dsimp only
  by_cases hj : j = k
  · rw [hj, Function.update_self, if_pos rfl]
  · rw [Function.update_of_ne hj, if_neg hj]

/-- The commands of a done list are taken by the call, or dropped. -/
theorem Accounted.taken (haccounted : Accounted h) (k : Fin n) (flights : List Flight)
    (dropped : List ℕ)
    (htaken : ∀ c, (flights.flatMap Flight.commands ++ h.called ++ dropped).count c =
      h.taken.count c + (h.channels k).done.count c)
    (habort : ∀ flight ∈ flights, flight ∈ h.flights ∨ ∀ c, flight.abort = some c →
      h.calls[c]? = some k ∧ (h.channels k).waits c = 0) :
    Accounted { h.emptied k with flights := flights, dropped := dropped } := by
  have howned := haccounted.owned
  refine ⟨fun j => ?_, fun j => ?_, fun j => ?_, fun hinit j => ?_, fun j c hcall => ?_,
    fun c hcall => ?_, haccounted.submitted, haccounted.nodup, fun flight hmem c hflight => ?_⟩
  · show Owned h.calls h.accepted j ((h.emptied k).channels j)
    rw [h.emptied_channel]
    by_cases hj : j = k
    · rw [if_pos hj]
      exact (howned j).taken
    · rw [if_neg hj]
      exact howned j
  · show ((h.emptied k).channels j).Linked
    rw [h.emptied_channel]
    exact ⟨(haccounted.linked j).held, (haccounted.linked j).released⟩
  · show ((h.emptied k).channels j).deferred = []
    rw [h.emptied_channel]
    exact haccounted.idle j
  · show ((h.emptied k).channels j).ial.sataChannel = false
    rw [h.emptied_channel]
    exact haccounted.unallocated hinit j
  · have hcall : h.calls[c]? = some j := hcall
    have hback := haccounted.handedBack j c hcall
    show ((h.emptied k).channels j).listed.count c = ((h.emptied k).channels j).done.count c +
      (flights.flatMap Flight.commands ++ h.called ++ dropped).count c
    rw [h.emptied_channel, htaken]
    dsimp only
    by_cases hj : j = k
    · rw [if_pos hj, ← hj, List.count_nil]
      omega
    · rw [if_neg hj]
      have habsent := (howned k).absent (c := c)
        (by rw [hcall]; exact fun h => hj (Option.some.inj h))
      omega
  · have hcall : h.calls[c]? = none := hcall
    have hforeign := haccounted.foreign c hcall
    have habsent := (howned k).absent (c := c) (by rw [hcall]; simp)
    show (flights.flatMap Flight.commands ++ h.called ++ dropped).count c = 0
    rw [htaken]
    omega
  · show c < h.calls.length ∧ ∀ j, ((h.emptied k).channels j).waits c = 0 ∧
      ((h.emptied k).channels j).done.count c = 0
    rcases habort flight hmem with hold | hnew
    · obtain ⟨hlt, hall⟩ := haccounted.aborting flight hold c hflight
      refine ⟨hlt, fun j => ?_⟩
      rw [h.emptied_channel]
      refine ⟨(hall j).1, ?_⟩
      dsimp only
      split
      · rfl
      · exact (hall j).2
    · obtain ⟨hcall, hwaits⟩ := hnew c hflight
      refine ⟨(List.getElem?_eq_some_iff.1 hcall).1, fun j => ?_⟩
      rw [h.emptied_channel]
      by_cases hj : j = k
      · rw [hj, if_pos rfl]
        exact ⟨hwaits, rfl⟩
      · have habsent := (howned j).absent (c := c)
          (by rw [hcall]; exact fun h => hj (Option.some.inj h).symm)
        rw [if_neg hj]
        exact ⟨habsent.2.2.1, habsent.2.2.2⟩

/-- A call takes the done list of a channel. -/
theorem Accounted.takeDone (haccounted : Accounted h) (k : Fin n) {abort : Option ℕ}
    (habort : ∀ c, abort = some c → h.calls[c]? = some k ∧ (h.channels k).waits c = 0) :
    Accounted (h.takeDone k abort).2 := by
  unfold Host.takeDone getFirstCmnd
  dsimp only
  by_cases hdone : (h.channels k).done = []
  · rw [if_pos hdone]
    refine haccounted.taken k h.flights h.dropped (fun c => ?_)
      fun flight hmem => Or.inl hmem
    rw [hdone, List.count_nil]
    rfl
  · rw [if_neg hdone]
    refine haccounted.taken k (h.flights ++ [⟨(h.channels k).done, abort⟩])
      h.dropped (fun c => ?_) fun flight hmem => ?_
    · unfold Host.taken
      rw [List.flatMap_append]
      simp only [List.count_append, List.flatMap_cons, List.flatMap_nil, List.append_nil]
      omega
    · rcases List.mem_append.1 hmem with hmem | hmem
      · exact Or.inl hmem
      · rw [List.mem_singleton.1 hmem]
        exact Or.inr habort

/-- A call of `mv_ial_ht_queuecommand`, up to the done list it takes. -/
theorem Accounted.submit (haccounted : Accounted h) (k : Fin n) {accepted : List ℕ}
    (howned : Owned (h.calls ++ [k]) accepted k ch)
    (hothers : ∀ j, j ≠ k → Owned (h.calls ++ [k]) accepted j (h.channels j))
    (hlinked : ch.Linked) (hidle : ch.deferred = [])
    (hsata : ch.ial.sataChannel = (h.channels k).ial.sataChannel)
    (hdone : ∀ c, ch.done.count c + (h.channels k).listed.count c =
      (h.channels k).done.count c + ch.listed.count c)
    (hwaits : ∀ c, c < h.calls.length → (h.channels k).waits c = 0 →
      (h.channels k).done.count c = 0 → ch.waits c = 0 ∧ ch.done.count c = 0)
    (hsubmitted : ∀ c ∈ accepted, c < h.calls.length + 1) (hnodup : accepted.Nodup) :
    Accounted { h.setChannel k ch with calls := h.calls ++ [k], accepted := accepted } := by
  have hlength : (h.calls ++ [k]).length = h.calls.length + 1 := by simp
  have hfreshTaken : h.taken.count h.calls.length = 0 :=
    haccounted.foreign _ (List.getElem?_eq_none (Nat.le_refl _))
  have hold : ∀ c, c ≠ h.calls.length → (h.calls ++ [k])[c]? = h.calls[c]? := by
    intro c hc
    rcases Nat.lt_or_gt_of_ne hc with hlt | hgt
    · exact List.getElem?_append_left hlt
    · rw [List.getElem?_eq_none (by rw [hlength]; omega), List.getElem?_eq_none (by omega)]
  have hchannel : ∀ j, (h.setChannel k ch).channels j = if j = k then ch else h.channels j := by
    intro j
    unfold Host.setChannel
    dsimp only
    by_cases hj : j = k
    · rw [hj, Function.update_self, if_pos rfl]
    · rw [Function.update_of_ne hj, if_neg hj]
  refine ⟨fun j => ?_, fun j => ?_, fun j => ?_, fun hinit j => ?_, fun j c hcall => ?_,
    fun c hcall => ?_, fun c hmem => ?_, hnodup, fun flight hmem c hflight => ?_⟩
  · show Owned (h.calls ++ [k]) accepted j ((h.setChannel k ch).channels j)
    rw [hchannel]
    by_cases hj : j = k
    · rw [if_pos hj, hj]
      exact howned
    · rw [if_neg hj]
      exact hothers j hj
  · show ((h.setChannel k ch).channels j).Linked
    rw [hchannel]
    split
    · exact hlinked
    · exact haccounted.linked j
  · show ((h.setChannel k ch).channels j).deferred = []
    rw [hchannel]
    split
    · exact hidle
    · exact haccounted.idle j
  · show ((h.setChannel k ch).channels j).ial.sataChannel = false
    rw [hchannel]
    split
    · exact hsata.trans (haccounted.unallocated hinit k)
    · exact haccounted.unallocated hinit j
  · have hcall : (h.calls ++ [k])[c]? = some j := hcall
    show ((h.setChannel k ch).channels j).listed.count c =
      ((h.setChannel k ch).channels j).done.count c + h.taken.count c
    rw [hchannel]
    by_cases hc : c = h.calls.length
    · subst hc
      obtain rfl : k = j := Option.some.inj (List.getElem?_concat_length.symm.trans hcall)
      have hdone := hdone h.calls.length
      obtain ⟨-, hlisted, -, hnone⟩ := (haccounted.owned k).fresh
      rw [if_pos rfl]
      omega
    · rw [hold c hc] at hcall
      have hback := haccounted.handedBack j c hcall
      by_cases hj : j = k
      · have hdone := hdone c
        rw [if_pos hj]
        rw [hj] at hback
        omega
      · rw [if_neg hj]
        exact hback
  · have hcall : (h.calls ++ [k])[c]? = none := hcall
    have hc : c ≠ h.calls.length := by
      intro hc
      rw [hc, List.getElem?_concat_length] at hcall
      cases hcall
    rw [hold c hc] at hcall
    exact haccounted.foreign c hcall
  · show c < (h.calls ++ [k]).length
    rw [hlength]
    exact hsubmitted c hmem
  · obtain ⟨hlt, hall⟩ := haccounted.aborting flight hmem c hflight
    refine ⟨by show c < (h.calls ++ [k]).length; omega, fun j => ?_⟩
    show ((h.setChannel k ch).channels j).waits c = 0 ∧
      ((h.setChannel k ch).channels j).done.count c = 0
    rw [hchannel]
    split
    · exact hwaits c hlt (hall k).1 (hall k).2
    · exact hall j

/-- The channel after the allocations of a call. -/
theorem generatePrd_eq (r : Request) (ch : HostChannel) (c : ℕ) :
    ∃ tables, (tables = ch.tables ∨ tables = ch.tables ++ [c]) ∧
      (generatePrd r (allocateBlock ch c) c).2 =
        { ch with blocks := ch.blocks ++ [c], tables := tables } := by
  unfold generatePrd allocateBlock
  split
  · dsimp only
    split
    · exact ⟨_, Or.inr rfl, rfl⟩
    · exact ⟨_, Or.inl rfl, rfl⟩
  · exact ⟨_, Or.inl rfl, rfl⟩

theorem takeDone_accepted (h : Host n) (k : Fin n) (abort : Option ℕ) (accepted : List ℕ) :
    { (h.takeDone k abort).2 with accepted := accepted } =
      (({ h with accepted := accepted } : Host n).takeDone k abort).2 := by
  unfold Host.takeDone
  dsimp only
  split
  · rfl
  · rfl

/-- What a call of `mv_ial_ht_queuecommand` does: it fails before or behind the allocation of the
block, or the command is accepted. -/
theorem queuecommand_cases (h : Host n) (k : Fin n) (r : Request) :
    (r.kmalloc = false ∧ h.queuecommand k r = (-1, { h with calls := h.calls ++ [k] })) ∨
    ∃ tables, (tables = (h.channels k).tables ∨
        tables = (h.channels k).tables ++ [h.calls.length]) ∧ r.kmalloc = true ∧
      let ch : HostChannel := { h.channels k with
        blocks := (h.channels k).blocks ++ [h.calls.length]
        tables := tables }
      (((usesPrd r.scb = true ∧ (mvIalLibGeneratePrd r.gen r.cmd r.pool).1.isSome = false) ∧
          h.queuecommand k r = (-1, { h.setChannel k ch with calls := h.calls ++ [k] })) ∨
        (usesPrd r.scb = true → (mvIalLibGeneratePrd r.gen r.cmd r.pool).1.isSome = true) ∧
          h.queuecommand k r =
            (0, (({ h.setChannel k (executeCommand h.adapterState k r ch h.calls.length) with
              calls := h.calls ++ [k] } : Host n).takeDone k none).2)) := by
  obtain ⟨tables, htables, heq⟩ := generatePrd_eq r (h.channels k) h.calls.length
  have hgenerated : (generatePrd r (allocateBlock (h.channels k) h.calls.length)
      h.calls.length).1 = true ↔
        (usesPrd r.scb = true → (mvIalLibGeneratePrd r.gen r.cmd r.pool).1.isSome = true) := by
    unfold generatePrd
    split
    · rename_i huses
      exact ⟨fun h _ => h, fun h => h huses⟩
    · rename_i huses
      exact ⟨fun _ h => absurd h huses, fun _ => rfl⟩
  unfold Host.queuecommand
  dsimp only
  by_cases hkmalloc : r.kmalloc = true
  · refine Or.inr ⟨tables, htables, hkmalloc, ?_⟩
    rw [if_neg (not_not.2 hkmalloc), heq]
    by_cases hok : usesPrd r.scb = true →
        (mvIalLibGeneratePrd r.gen r.cmd r.pool).1.isSome = true
    · rw [if_neg (not_not.2 (hgenerated.2 hok))]
      exact Or.inr ⟨hok, rfl⟩
    · rw [if_pos (fun hgen => hok (hgenerated.1 hgen))]
      obtain ⟨huses, hfails⟩ := Classical.not_imp.1 hok
      exact Or.inl ⟨⟨huses, Bool.eq_false_iff.2 hfails⟩, rfl⟩
  · rw [if_pos hkmalloc]
    exact Or.inl ⟨Bool.eq_false_iff.2 hkmalloc, rfl⟩

theorem hostStep_queuecommand (h : Host n) (k : Fin n) (r : Request) :
    hostStep h (.queuecommand k r) = some (.queued (h.queuecommand k r).1,
      { (h.queuecommand k r).2 with
        accepted := h.accepted ++
          if (h.queuecommand k r).1 = 0 then [h.calls.length] else [] }) := rfl

/-- The state in which the command of a call has been accepted. -/
theorem accepted_accounted (haccounted : Accounted h) (k : Fin n) (r : Request) {tables : List ℕ}
    (htables : tables = (h.channels k).tables ∨
      tables = (h.channels k).tables ++ [h.calls.length]) :
    Accounted { h.setChannel k (executeCommand h.adapterState k r
        { h.channels k with
          blocks := (h.channels k).blocks ++ [h.calls.length]
          tables := tables } h.calls.length) with
      calls := h.calls ++ [k]
      accepted := h.accepted ++ [h.calls.length] } := by
  have howned := haccounted.owned
  obtain ⟨hblocks, -, hnone, -⟩ := (howned k).fresh
  have hallocated := (howned k).allocated haccounted.submitted htables
  have htakes := executeCommand_takes h.adapterState k r
    { h.channels k with
      blocks := (h.channels k).blocks ++ [h.calls.length]
      tables := tables } h.calls.length
  have hblock : ((h.channels k).blocks ++ [h.calls.length]).count h.calls.length = 1 := by
    rw [List.count_append, hblocks, List.count_singleton_self]
  have hnew : ∀ c, c < h.calls.length → [h.calls.length].count c = 0 := fun c hc =>
    List.count_eq_zero_of_not_mem (by simpa using Nat.ne_of_lt hc)
  exact haccounted.submit k (hallocated.accepts hblock hnone htakes.toHanded)
    (fun j hj => ((howned j).called haccounted.submitted k).otherAccepts hj)
    (htakes.linked ⟨(haccounted.linked k).held, (haccounted.linked k).released⟩)
    (htakes.deferred.trans (haccounted.idle k)) htakes.sataChannel htakes.done
    (fun c hlt hwaits hdone => htakes.toHanded.stays (hnew c hlt) hwaits hdone)
    (fun c hmem => by
      rcases List.mem_append.1 hmem with hmem | hmem
      · exact Nat.lt_succ_of_lt (haccounted.submitted c hmem)
      · rw [List.mem_singleton.1 hmem]
        exact Nat.lt_succ_self _)
    (List.nodup_append.2 ⟨haccounted.nodup, List.nodup_singleton _, fun c hmem c' hmem' => by
      rw [List.mem_singleton.1 hmem']
      exact Nat.ne_of_lt (haccounted.submitted c hmem)⟩)

theorem queuecommand_accounted (haccounted : Accounted h) (k : Fin n) (r : Request)
    {answer : HostAnswer} (hstep : hostStep h (.queuecommand k r) = some (answer, h')) :
    Accounted h' := by
  rw [hostStep_queuecommand] at hstep
  obtain ⟨-, rfl⟩ := Prod.mk.inj (Option.some.inj hstep)
  have howned := haccounted.owned
  have hsubmitted : ∀ c ∈ h.accepted, c < h.calls.length + 1 := fun c hmem =>
    Nat.lt_succ_of_lt (haccounted.submitted c hmem)
  have hothers : ∀ j, j ≠ k → Owned (h.calls ++ [k]) h.accepted j (h.channels j) := fun j _ =>
    (howned j).called haccounted.submitted k
  rcases queuecommand_cases h k r with ⟨-, heq⟩ | ⟨tables, htables, -, ⟨-, heq⟩ | ⟨-, heq⟩⟩
  · rw [heq]
    have hidle : h.setChannel k (h.channels k) = h := by
      unfold Host.setChannel
      rw [Function.update_eq_self]
    have hsubmit := haccounted.submit k ((howned k).called haccounted.submitted k) hothers
      (haccounted.linked k) (haccounted.idle k) rfl (fun c => rfl) (fun c _ h h' => ⟨h, h'⟩)
      hsubmitted haccounted.nodup
    rw [hidle] at hsubmit
    simpa using hsubmit
  · rw [heq]
    have hsubmit := haccounted.submit k ((howned k).allocated haccounted.submitted htables) hothers
      ⟨(haccounted.linked k).held, (haccounted.linked k).released⟩ (haccounted.idle k) rfl
      (fun c => rfl) (fun c _ h h' => ⟨h, h'⟩) hsubmitted haccounted.nodup
    simpa using hsubmit
  · rw [heq]
    dsimp only
    rw [if_pos rfl, takeDone_accepted]
    exact (accepted_accounted haccounted k r htables).takeDone k fun c habort => by cases habort

theorem forChannels_some {f : Fin n → Option HostChannel} {channels : Fin n → HostChannel}
    (hf : forChannels f = some channels) (k : Fin n) : f k = some (channels k) := by
  unfold forChannels at hf
  split_ifs at hf with hall
  obtain rfl := Option.some.inj hf
  exact (Option.some_get (hall k)).symm

theorem interrupt_accounted (haccounted : Accounted h) (reports : List (Report n))
    (results : ℕ → QueueCommandResult) : Accounted (h.interrupt reports results) := by
  have hall : ∀ k, Interrupts (h.channels k)
      (mvSataScsiPostIntService results (serviceRoutine reports h.channels k)) := fun k =>
    (serviceRoutine_interrupts reports h.channels k).trans
      (mvSataScsiPostIntService_interrupts results _)
  exact haccounted.hand (fun k => (hall k).toHanded) (fun k => (hall k).linked) (fun k => rfl)
    fun hinit k => (hall k).sataChannel (haccounted.unallocated hinit k)

/-- A tick does nothing, or it passes the commands of every channel on. -/
theorem tick_cases (haccounted : Accounted h) {hw : Ial.AdapterHardware n}
    {errors : Fin n → List DevError} (htick : h.tick hw errors = some h') :
    h' = h ∨ ∃ channels adapterState, (∀ k, Passes (h.channels k) (channels k)) ∧
      adapterState ≠ .initializing ∧
      h' = { h with channels := channels, adapterState := adapterState } := by
  unfold Host.tick at htick
  cases hstate : h.adapterState with
  | initializing =>
    rw [hstate] at htick
    dsimp only at htick
    split at htick
    · exact Or.inl (Option.some.inj htick).symm
    · split at htick
      · exact Or.inr ⟨h.channels, _, fun k => Passes.refl _, by simp, (Option.some.inj htick).symm⟩
      · obtain ⟨channels, hchannels, rfl⟩ := Option.map_eq_some_iff.1 htick
        refine Or.inr ⟨channels, _, fun k => ?_, by simp, rfl⟩
        exact startChannel_passes (haccounted.unallocated hstate k) (forChannels_some hchannels k)
  | ready =>
    rw [hstate] at htick
    dsimp only at htick
    obtain ⟨channels, hchannels, rfl⟩ := Option.map_eq_some_iff.1 htick
    refine Or.inr ⟨channels, .ready, fun k => ?_, by simp, by rw [← hstate]⟩
    exact mvChannelStateMachine_passes (forChannels_some hchannels k)
  | fatalError =>
    rw [hstate] at htick
    exact Or.inl (Option.some.inj htick).symm

theorem tick_accounted (haccounted : Accounted h) {hw : Ial.AdapterHardware n}
    {errors : Fin n → List DevError} (htick : h.tick hw errors = some h') : Accounted h' := by
  rcases tick_cases haccounted htick with rfl | ⟨channels, adapterState, hall, hready, rfl⟩
  · exact haccounted
  · exact haccounted.hand (fun k => (hall k).toHanded) (fun k => (hall k).linked)
      (fun k => (hall k).deferred.trans (haccounted.idle k)) fun hinit => absurd hinit hready

theorem setChannel_self (h : Host n) (k : Fin n) (ch : HostChannel) :
    (h.setChannel k ch).channels k = ch := Function.update_self _ _ _

theorem restart_accounted (haccounted : Accounted h) (k : Fin n) :
    Accounted (h.setChannel k (mvRestartChannel (h.channels k))) :=
  haccounted.setChannel (mvRestartChannel_passes (h.channels k)) fun hinit =>
    (mvRestartChannel_sataChannel _).trans (haccounted.unallocated hinit k)

theorem abort_accounted (haccounted : Accounted h) (hcall : h.calls[c]? = some k) :
    Accounted (h.abort k c).2 := by
  refine (restart_accounted haccounted k).takeDone k fun c' habort => ?_
  obtain rfl := Option.some.inj habort
  refine ⟨hcall, ?_⟩
  rw [setChannel_self]
  unfold HostChannel.waits
  rw [mvRestartChannel_commands (haccounted.linked k), mvRestartChannel_pending,
    (mvRestartChannel_passes (h.channels k)).deferred, haccounted.idle k]
  rfl

/-- The channel when the bus reset takes its done list. -/
theorem busReset_cases (h : Host n) (k : Fin n) :
    ((h.channels k).ial.sataChannel = false ∧ h.busReset k = (false, h)) ∨
    ∃ ch, Passes (h.channels k) ch ∧
      ch.ial.sataChannel = (h.channels k).ial.sataChannel ∧
      h.busReset k = (true, { (h.setChannel k ch).emptied k with
        dropped := h.dropped ++ ch.done }) := by
  by_cases hsata : (h.channels k).ial.sataChannel = true
  · refine Or.inr ⟨mvRestartChannel
      { abortCommands (h.channels k) with ial := Ial.flushDma (h.channels k).ial },
      flushRestart_passes _, mvRestartChannel_sataChannel _, ?_⟩
    unfold Host.busReset getFirstCmnd Host.emptied Host.setChannel
    dsimp only
    rw [if_neg (not_not.2 hsata), if_pos (show (Ial.flushDma (h.channels k).ial).sataChannel = true
      from hsata), Function.update_self, Function.update_idem]
  · refine Or.inl ⟨Bool.eq_false_iff.2 hsata, ?_⟩
    unfold Host.busReset
    dsimp only
    rw [if_pos hsata]

theorem busReset_accounted (haccounted : Accounted h) (k : Fin n) :
    Accounted (h.busReset k).2 := by
  rcases busReset_cases h k with ⟨-, heq⟩ | ⟨ch, hpasses, hsata, heq⟩
  · rw [heq]
    exact haccounted
  · rw [heq]
    have hset := haccounted.setChannel hpasses fun hinit =>
      hsata.trans (haccounted.unallocated hinit k)
    refine hset.taken k h.flights _ (fun c => ?_) fun flight hmem => Or.inl hmem
    rw [setChannel_self]
    unfold Host.taken
    simp only [List.count_append]
    show _ + List.count c h.called + _ = _
    show List.count c (h.flights.flatMap Flight.commands) + h.called.count c +
      (h.dropped.count c + ch.done.count c) =
        List.count c (h.flights.flatMap Flight.commands) + h.called.count c + h.dropped.count c +
          ch.done.count c
    omega

/-- A flight that ends, counted. -/
theorem flatMap_eraseIdx_count {flights : List Flight} {i : ℕ} {flight : Flight}
    (hflight : flights[i]? = some flight) (c : ℕ) :
    (flights.flatMap Flight.commands).count c =
      ((flights.eraseIdx i).flatMap Flight.commands).count c + flight.commands.count c := by
  obtain ⟨hlt, rfl⟩ := List.getElem?_eq_some_iff.1 hflight
  have hperm := (List.getElem_cons_eraseIdx_perm hlt).flatMap_right Flight.commands
  rw [← hperm.count_eq, List.flatMap_cons, List.count_append, Nat.add_comm]

theorem doDone_accounted (haccounted : Accounted h) {i : ℕ} {flight : Flight}
    (hflight : h.flights[i]? = some flight) : Accounted (h.doDone i flight) := by
  have hended : Accounted { h with
      flights := h.flights.eraseIdx i, called := h.called ++ flight.commands } := by
    have htaken : ∀ c, ((h.flights.eraseIdx i).flatMap Flight.commands ++
        (h.called ++ flight.commands) ++ h.dropped).count c = h.taken.count c := by
      intro c
      have hcount := flatMap_eraseIdx_count hflight c
      unfold Host.taken
      simp only [List.count_append]
      omega
    exact
      { owned := haccounted.owned
        linked := haccounted.linked
        idle := haccounted.idle
        unallocated := haccounted.unallocated
        handedBack := fun k c hcall => by
          have hback := haccounted.handedBack k c hcall
          rw [← htaken] at hback
          exact hback
        foreign := fun c hcall => (htaken c).trans (haccounted.foreign c hcall)
        submitted := haccounted.submitted
        nodup := haccounted.nodup
        aborting := fun flight hmem => haccounted.aborting flight (List.mem_of_mem_eraseIdx hmem) }
  unfold Host.doDone
  dsimp only
  cases flight.abort with
  | none => exact hended
  | some c => exact { hended with }

/-- Every step keeps the accounts. -/
theorem hostStep_accounted {e : HostEvent n} {answer : HostAnswer} (haccounted : Accounted h)
    (hstep : hostStep h e = some (answer, h')) : Accounted h' := by
  cases e with
  | queuecommand k r => exact queuecommand_accounted haccounted k r hstep
  | interrupt reports results =>
    obtain ⟨-, rfl⟩ := Prod.mk.inj (Option.some.inj hstep)
    exact interrupt_accounted haccounted reports results
  | tick hw errors =>
    obtain ⟨h₁, htick, heq⟩ := Option.map_eq_some_iff.1 hstep
    obtain ⟨-, rfl⟩ := Prod.mk.inj heq
    exact tick_accounted haccounted htick
  | collect k =>
    obtain ⟨-, rfl⟩ := Prod.mk.inj (Option.some.inj hstep)
    exact haccounted.takeDone k fun c habort => by cases habort
  | abort c =>
    cases hcall : h.calls[c]? with
    | none =>
      simp only [hostStep, hcall] at hstep
      cases hstep
    | some k =>
      simp only [hostStep, hcall] at hstep
      obtain ⟨-, rfl⟩ := Prod.mk.inj (Option.some.inj hstep)
      exact abort_accounted haccounted hcall
  | busReset k =>
    obtain ⟨-, rfl⟩ := Prod.mk.inj (Option.some.inj hstep)
    exact busReset_accounted haccounted k
  | doDone i =>
    cases hflight : h.flights[i]? with
    | none =>
      simp only [hostStep, hflight] at hstep
      cases hstep
    | some flight =>
      simp only [hostStep, hflight] at hstep
      obtain ⟨-, rfl⟩ := Prod.mk.inj (Option.some.inj hstep)
      exact doDone_accounted haccounted hflight

end Mv88fxx81.Sata.Ht
