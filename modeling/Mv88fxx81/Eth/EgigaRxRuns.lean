import Mv88fxx81.Eth.EgigaRxAccounts
import Mv88fxx81.Lib.Literals

/-!
# Runs of the reception

What the calls of the driver do to the accounts, and which of them lose an skb. A call of
`egiga_rx_fill` on a full ring allocates an skb that is refused and not freed, and one on a
stopped interface fills its rings again.
-/

namespace Mv88fxx81.Eth

open TransitionSystem

variable {Q : ℕ} {descNum : Fin Q → ℕ} {multiQueue : Bool} {s s' : EgigaRx Q}
  {bufs bufs' : Fin Q → List RxBuf} {lost : List (BitVec 32)} {queue : Fin Q} {l : List RxBuf}

/-- A ring that is not full takes the buffers that fit. -/
theorem rxFillLoop_room {total : ℕ} {failed : Bool} (h : EgigaRxKept descNum s bufs lost)
    (hroom : (bufs queue).length < descNum queue)
    (htotal : descNum queue - (bufs queue).length ≤ total)
    (hfill : EgigaRx.rxFillLoop descNum queue total l s = some (failed, s')) :
    s'.started = s.started ∧ EgigaRxKept descNum s' (Function.update bufs queue
      (bufs queue ++ l.take (descNum queue - (bufs queue).length))) lost := by
  induction total generalizing s bufs l with
  | zero => omega
  | succ total ih =>
    cases l with
    | nil =>
      simp only [EgigaRx.rxFillLoop, Option.some.injEq, Prod.mk.injEq] at hfill
      obtain ⟨-, rfl⟩ := hfill
      simpa using h
    | cons buf l =>
      unfold EgigaRx.rxFillLoop at hfill
      cases halloc : s.skbs.devAllocSkb buf.osInfo with
      | none => simp [halloc] at hfill
      | some skbs =>
        obtain ⟨status, ring, hdone⟩ : ∃ status ring,
            (s.ring queue).mvEthPortRxDone (descNum queue) buf = (status, ring) := ⟨_, _, rfl⟩
        obtain ⟨hring, hfull, hlast⟩ := (h.kept queue).rxDone (h.idle queue) buf
        have hidle := (s.ring queue).mvEthPortRxDone_inRx (descNum queue) buf
        rw [hdone] at hring hfull hlast hidle
        rw [h.idle queue] at hidle
        have htake : (buf :: l).take (descNum queue - (bufs queue).length) =
            buf :: l.take (descNum queue - ((bufs queue).length + 1)) := by
          rw [show descNum queue - (bufs queue).length =
            descNum queue - ((bufs queue).length + 1) + 1 by omega, List.take_succ_cons]
        simp only [halloc, hdone] at hfill
        cases status with
        | outOfRange => exact absurd (hfull.mp rfl) (by omega)
        | full =>
          simp only [Option.some.injEq, Prod.mk.injEq] at hfill
          obtain ⟨-, rfl⟩ := hfill
          have hposted := h.post halloc hring hidle
          rw [htake, Nat.sub_eq_zero_of_le (by have := hlast.mp rfl; omega), List.take_zero]
          exact ⟨rfl, hposted⟩
        | ok =>
          have hposted := h.post halloc hring hidle
          have hmore : (bufs queue).length + 1 ≠ descNum queue := fun heq => by
            cases hlast.mpr heq
          obtain ⟨hstarted, hrest⟩ := ih hposted (by simp; omega) (by simp; omega) hfill
          refine ⟨hstarted, ?_⟩
          rw [Function.update_self, Function.update_idem, List.append_assoc, List.length_append,
            List.length_singleton] at hrest
          rw [htake]
          exact hrest

/-- The skb that a call of `egiga_rx_fill` loses: the first one, when the ring is full. -/
def lostBy (N : ℕ) (held l : List RxBuf) : List (BitVec 32) :=
  if held.length = N then (l.head?.map RxBuf.osInfo).toList else []

theorem lostBy_eq_nil_iff {N : ℕ} {held : List RxBuf} :
    lostBy N held l = [] ↔ l = [] ∨ held.length ≠ N := by
  unfold lostBy
  split_ifs with hfull
  · cases l with
    | nil => simp
    | cons buf l => simp [hfull]
  · simp [hfull]

/-- A full ring takes no buffer, and the skb of the first one is lost. -/
theorem rxFillLoop_full {total : ℕ} {failed : Bool} (h : EgigaRxKept descNum s bufs lost)
    (hfull : (bufs queue).length = descNum queue) (htotal : 0 < total)
    (hfill : EgigaRx.rxFillLoop descNum queue total l s = some (failed, s')) :
    s'.started = s.started ∧
      EgigaRxKept descNum s' bufs ((l.head?.map RxBuf.osInfo).toList ++ lost) := by
  obtain ⟨total, rfl⟩ := Nat.exists_eq_succ_of_ne_zero (by omega : total ≠ 0)
  cases l with
  | nil =>
    simp only [EgigaRx.rxFillLoop, Option.some.injEq, Prod.mk.injEq] at hfill
    obtain ⟨-, rfl⟩ := hfill
    exact ⟨rfl, h⟩
  | cons buf l =>
    unfold EgigaRx.rxFillLoop at hfill
    cases halloc : s.skbs.devAllocSkb buf.osInfo with
    | none => simp [halloc] at hfill
    | some skbs =>
      have hrefused : (s.ring queue).mvEthPortRxDone (descNum queue) buf =
          (.outOfRange, s.ring queue) := by
        unfold RxRing.mvEthPortRxDone
        rw [if_pos ((h.kept queue).holds.refused_iff.mpr hfull)]
      simp only [halloc, hrefused, Option.some.injEq, Prod.mk.injEq] at hfill
      obtain ⟨-, rfl⟩ := hfill
      refine ⟨rfl, (h.refuse halloc).congr ?_ rfl rfl⟩
      simp [EgigaRx.setRing]

theorem setFillTimer_started (queue : Fin Q) (failed : Bool) (s : EgigaRx Q) :
    (s.setFillTimer descNum queue failed).started = s.started := by
  unfold EgigaRx.setFillTimer
  split_ifs <;> rfl

/-- The timer is no part of the accounts. -/
theorem EgigaRxKept.setFillTimer (h : EgigaRxKept descNum s bufs lost) (queue : Fin Q)
    (failed : Bool) : EgigaRxKept descNum (s.setFillTimer descNum queue failed) bufs lost := by
  unfold EgigaRx.setFillTimer
  split_ifs
  · exact h
  · exact h.congr rfl rfl rfl
  · exact h

/-- `egiga_rx_fill`: the buffers that fit are added, and when there is no room the skb of the first
one is lost. -/
theorem egigaRxFill_kept (h : EgigaRxKept descNum s bufs lost)
    (hfill : s.egigaRxFill descNum queue l = some s') :
    s'.started = s.started ∧ EgigaRxKept descNum s'
      (Function.update bufs queue (bufs queue ++ l.take (descNum queue - (bufs queue).length)))
      (lostBy (descNum queue) (bufs queue) l ++ lost) := by
  unfold EgigaRx.egigaRxFill at hfill
  obtain ⟨⟨failed, s₁⟩, hloop, rfl⟩ := Option.map_eq_some_iff.mp hfill
  dsimp only
  rw [setFillTimer_started]
  have hpos := (h.kept queue).holds.curr_lt
  have hle := (h.kept queue).holds.length_le
  unfold lostBy
  by_cases hfull : (bufs queue).length = descNum queue
  · obtain ⟨hstarted, hkept⟩ := rxFillLoop_full h hfull (by omega) hloop
    rw [if_pos hfull, hfull, Nat.sub_self, List.take_zero, List.append_nil,
      Function.update_eq_self]
    exact ⟨hstarted, hkept.setFillTimer queue failed⟩
  · obtain ⟨hstarted, hkept⟩ := rxFillLoop_room h (by omega) (by omega) hloop
    rw [if_neg hfull]
    exact ⟨hstarted, hkept.setFillTimer queue failed⟩

/-- The queues are filled one after another. -/
theorem fillQueues_kept {queues : List (Fin Q)} {new : Fin Q → List RxBuf}
    (h : EgigaRxKept descNum s bufs lost) (hnodup : queues.Nodup)
    (hfill : s.fillQueues descNum new queues = some s') :
    s'.started = s.started ∧ ∃ bufs' lost', EgigaRxKept descNum s' bufs' lost' ∧
      (∀ queue, bufs' queue = if queue ∈ queues then
        bufs queue ++ (new queue).take (descNum queue - (bufs queue).length) else bufs queue) ∧
      (lost' = [] ↔ lost = [] ∧
        ∀ queue ∈ queues, new queue = [] ∨ (bufs queue).length ≠ descNum queue) := by
  induction queues generalizing s bufs lost with
  | nil =>
    obtain rfl := Option.some.inj hfill
    exact ⟨rfl, bufs, lost, h, by simp, by simp⟩
  | cons queue queues ih =>
    rw [EgigaRx.fillQueues] at hfill
    obtain ⟨s₁, hfirst, hrest⟩ := Option.bind_eq_some_iff.mp hfill
    obtain ⟨hnot, hnodup⟩ := List.nodup_cons.mp hnodup
    obtain ⟨hstarted₁, hkept₁⟩ := egigaRxFill_kept h hfirst
    obtain ⟨hstarted, bufs', lost', hkept, hbufs, hlost⟩ := ih hkept₁ hnodup hrest
    refine ⟨hstarted.trans hstarted₁, bufs', lost', hkept, fun q => ?_, ?_⟩
    · rw [hbufs q]
      by_cases hq : q = queue
      · subst hq
        rw [if_neg hnot, if_pos List.mem_cons_self, Function.update_self]
      · rw [Function.update_of_ne hq]
        simp only [List.mem_cons, hq, false_or]
    · rw [hlost, List.append_eq_nil_iff, lostBy_eq_nil_iff, List.forall_mem_cons]
      have hsame : (∀ q ∈ queues, new q = [] ∨ (Function.update bufs queue (bufs queue ++
          (new queue).take (descNum queue - (bufs queue).length)) q).length ≠ descNum q) ↔
            ∀ q ∈ queues, new q = [] ∨ (bufs q).length ≠ descNum q := by
        refine forall₂_congr fun q hq => ?_
        rw [Function.update_of_ne (ne_of_mem_of_not_mem hq hnot)]
      rw [hsame]
      tauto

/-- A received packet is given away. -/
theorem EgigaRxKept.rxPacket {buf : RxBuf} {pkt : RxPkt} {ring : RxRing}
    (h : EgigaRxKept descNum s bufs lost) (hperm : (buf :: l).Perm (bufs queue))
    (hpkt : buf.osInfo = pkt.osInfo) (hring : RxKept (descNum queue) ring l)
    (hidle : ring.inRx = false) :
    EgigaRxKept descNum (((s.setRing queue ring).addCount queue (-1)).rxPacket pkt)
      (Function.update bufs queue l) lost := by
  have hnull := h.osInfo_ne_zero (hperm.mem_iff.mp List.mem_cons_self)
  have htaken := h.take hperm hring hidle
  rw [hpkt] at hnull htaken
  unfold EgigaRx.rxPacket
  rw [if_neg hnull]
  split_ifs
  · exact htaken
  · exact htaken

theorem rxPacket_started (s : EgigaRx Q) (pkt : RxPkt) : (s.rxPacket pkt).started = s.started := by
  unfold EgigaRx.rxPacket
  split_ifs <;> rfl

/-- The loop of `egiga_rx` only takes buffers out, and it says from which queues. -/
theorem rxLoop_kept (workToDo : ℕ) (turns : List (Fin Q)) (workDone : ℕ) (done : Fin Q → Bool)
    (h : EgigaRxKept descNum s bufs lost) :
    ∃ workDone' done' s', EgigaRx.rxLoop descNum multiQueue workToDo turns workDone done s =
        (workDone', done', s') ∧ s'.started = s.started ∧
      ∃ bufs', EgigaRxKept descNum s' bufs' lost ∧
        (∀ queue, (bufs' queue).length ≤ (bufs queue).length) ∧
        ∀ queue, done' queue = true →
          done queue = true ∨ (bufs' queue).length < (bufs queue).length := by
  induction turns generalizing workDone done s bufs with
  | nil => exact ⟨_, _, _, rfl, rfl, bufs, h, fun _ => le_rfl, fun _ hdone => Or.inl hdone⟩
  | cons queue turns ih =>
    by_cases hwork : workDone < workToDo
    · obtain ⟨l', hperm, hidle, hdone⟩ := portRx_done (h.kept queue) (h.idle queue)
      obtain ⟨answer, ring, hresult⟩ : ∃ answer ring,
          portRx (descNum queue) (s.ring queue) = (answer, ring) := ⟨_, _, rfl⟩
      rw [hresult] at hidle hdone
      rw [EgigaRx.rxLoop, if_pos hwork, hresult]
      -- a turn that finds no packet leaves the buffers of the queue in another order
      have hnone (hring : RxKept (descNum queue) ring l') :
          ∃ workDone' done' s', (if multiQueue = true then EgigaRx.rxLoop descNum multiQueue
              workToDo turns workDone done (s.setRing queue ring)
            else (workDone, done, s.setRing queue ring)) = (workDone', done', s') ∧
          s'.started = s.started ∧ ∃ bufs', EgigaRxKept descNum s' bufs' lost ∧
            (∀ queue, (bufs' queue).length ≤ (bufs queue).length) ∧
            ∀ queue, done' queue = true →
              done queue = true ∨ (bufs' queue).length < (bufs queue).length := by
        have hkept := h.reorder hring hidle hperm
        have hlength (q : Fin Q) :
            (Function.update bufs queue l' q).length = (bufs q).length := by
          by_cases hq : q = queue
          · subst hq
            rw [Function.update_self, hperm.length_eq]
          · rw [Function.update_of_ne hq]
        split_ifs
        · have hrest := ih workDone done hkept
          simp only [hlength] at hrest
          exact hrest
        · refine ⟨_, _, _, rfl, rfl, _, hkept, fun q => (hlength q).le, fun _ hq => Or.inl hq⟩
      cases answer with
      | received pkt =>
        obtain ⟨buf, rest, rfl, hpkt, hring⟩ := hdone
        have hkept := h.rxPacket hperm hpkt hring hidle
        obtain ⟨workDone', done', s', hloop, hstarted, bufs', hkept', hless, hfrom⟩ :=
          ih (workDone + 1) (Function.update done queue true) hkept
        refine ⟨workDone', done', s', hloop, hstarted.trans (rxPacket_started _ pkt), bufs',
          hkept', fun q => ?_, fun q hq => ?_⟩
        · have hq := hless q
          by_cases heq : q = queue
          · subst heq
            rw [Function.update_self] at hq
            have hlength := hperm.length_eq
            rw [List.length_cons] at hlength
            omega
          · rwa [Function.update_of_ne heq] at hq
        · have hfrom := hfrom q hq
          have hq := hless q
          by_cases heq : q = queue
          · subst heq
            rw [Function.update_self] at hq
            have hlength := hperm.length_eq
            rw [List.length_cons] at hlength
            exact Or.inr (by omega)
          · rwa [Function.update_of_ne heq, Function.update_of_ne heq] at hfrom
      | noResource => exact hnone hdone
      | noMore => exact hnone hdone
      | looping | recycled | rxDone | empty | forced | filled => exact absurd hdone id
    · rw [EgigaRx.rxLoop, if_neg hwork]
      exact ⟨_, _, _, rfl, rfl, bufs, h, fun _ => le_rfl, fun _ hdone => Or.inl hdone⟩

/-- The loop of `egiga_stop_internals` frees the skbs of a queue. -/
theorem forceRxLoop_kept {fuel : ℕ} (h : EgigaRxKept descNum s bufs lost)
    (hfuel : (bufs queue).length < fuel) :
    ∃ s', EgigaRx.forceRxLoop descNum queue fuel s = (false, s') ∧
      EgigaRxKept descNum s' (Function.update bufs queue []) lost := by
  induction fuel generalizing s bufs with
  | zero => omega
  | succ fuel ih =>
    obtain ⟨answer, ring, hresult⟩ : ∃ answer ring,
        (s.ring queue).mvEthPortForceRx (descNum queue) = (answer, ring) := ⟨_, _, rfl⟩
    obtain ⟨hring, hfits⟩ := (h.kept queue).forceRx (h.idle queue)
    have hidle := (s.ring queue).mvEthPortForceRx_inRx (descNum queue)
    have hempty := (h.kept queue).holds.resource_eq_zero_iff
    rw [hresult] at hring hfits hidle
    rw [h.idle queue] at hidle
    unfold RxRing.mvEthPortForceRx at hresult
    split_ifs at hresult with hzero
    · obtain ⟨rfl, rfl⟩ := Prod.mk.inj hresult
      have hnil := hempty.mp hzero
      unfold EgigaRx.forceRxLoop RxRing.mvEthPortForceRx
      rw [if_pos hzero]
      refine ⟨_, rfl, h.reorder ?_ (h.idle queue) (by rw [hnil])⟩
      rw [← hnil]
      exact h.kept queue
    · obtain ⟨rfl, rfl⟩ := Prod.mk.inj hresult
      obtain ⟨buf, rest, hbufs⟩ := List.exists_cons_of_ne_nil fun hnil => hzero (hempty.mpr hnil)
      rw [hbufs] at hring hfits
      have hpkt : buf.osInfo = ((s.ring queue).desc (s.ring queue).curr).returnInfo :=
        Option.some.inj hfits
      have hmem : buf ∈ bufs queue := by
        rw [hbufs]
        exact List.mem_cons_self
      have hnull := h.osInfo_ne_zero hmem
      have hkept := h.take (List.Perm.of_eq hbufs.symm) hring hidle
      have hlength : (Function.update bufs queue rest queue).length < fuel := by
        rw [Function.update_self]
        rw [hbufs, List.length_cons] at hfuel
        omega
      obtain ⟨s', hloop, hfreed⟩ := ih hkept hlength
      rw [hpkt] at hnull hloop
      rw [Function.update_idem] at hfreed
      refine ⟨s', ?_, hfreed⟩
      unfold EgigaRx.forceRxLoop RxRing.mvEthPortForceRx
      rw [if_neg hzero]
      dsimp only
      rw [if_neg hnull]
      exact hloop

/-- `egiga_stop_internals` frees the skbs of all the queues. -/
theorem freeQueues_kept {queues : List (Fin Q)} (h : EgigaRxKept descNum s bufs lost) :
    ∃ s' bufs', EgigaRx.freeQueues descNum queues s = (false, s') ∧
      EgigaRxKept descNum s' bufs' lost ∧
      (∀ queue, bufs' queue = if queue ∈ queues then [] else bufs queue) := by
  induction queues generalizing s bufs with
  | nil => exact ⟨s, bufs, rfl, h, by simp⟩
  | cons queue queues ih =>
    obtain ⟨s₁, hloop, hkept₁⟩ := forceRxLoop_kept h
      (Nat.lt_succ_of_le (h.kept queue).holds.length_le)
    obtain ⟨s', bufs', hrest, hkept, hbufs⟩ := ih hkept₁
    refine ⟨s', bufs', ?_, hkept, fun q => ?_⟩
    · rw [EgigaRx.freeQueues, hloop]
      exact hrest
    · rw [hbufs q]
      by_cases hq : q = queue
      · subst hq
        simp
      · rw [Function.update_of_ne hq]
        simp [hq]

/-- `egiga_stop_internals` leaves all the rings empty. -/
theorem egigaStopInternals_kept (h : EgigaRxKept descNum s bufs lost) :
    EgigaRxKept descNum (s.egigaStopInternals descNum).2 (fun _ => []) lost := by
  obtain ⟨s', bufs', hfree, hkept, hbufs⟩ := @freeQueues_kept _ _ _ _ _ (List.finRange Q) h
  obtain rfl : bufs' = fun _ => [] := by
    funext queue
    rw [hbufs, if_pos (List.mem_finRange queue)]
  unfold EgigaRx.egigaStopInternals
  rw [hfree]
  exact ⟨fun queue => rxKept_init (Nat.zero_lt_of_lt (h.kept queue).holds.curr_lt), fun _ => rfl,
    hkept.count, hkept.owned, hkept.nodup, hkept.nonzero, hkept.twice⟩

/-- What is claimed of the receive buffers: the rings hold the buffers of the lists and `rxq_count`
is their number, so it does not exceed the number of descriptors; every skb that the driver owns is
in exactly one slot of the rings, and no other one is in them; none has been handed to the stack or
freed that it did not own; and the rings are empty unless the interface has been started. -/
structure RxConserved (descNum : Fin Q → ℕ) (s : EgigaRx Q) (bufs : Fin Q → List RxBuf) :
    Prop where
  holds : ∀ queue, (s.ring queue).Holds (descNum queue) (bufs queue)
  count : ∀ queue, (s.rxqCount queue).toNat = (bufs queue).length
  owned : ∀ skb, ringSkbs bufs skb = if skb ∈ s.skbs.owned then 1 else 0
  twice : s.skbs.twice = false
  stopped : s.started = false → ∀ queue, bufs queue = []

/-- The slots of a ring say which skbs it holds. -/
theorem RxRing.Holds.map_osInfo {N : ℕ} {ring : RxRing} {l l' : List RxBuf} (h : ring.Holds N l)
    (h' : ring.Holds N l') : l.map RxBuf.osInfo = l'.map RxBuf.osInfo := by
  have hlength : l.length = l'.length := by
    have hresource := h.resource
    have hresource' := h'.resource
    omega
  refine List.ext_getElem (by simpa using hlength) fun k hk hk' => ?_
  rw [List.length_map] at hk hk'
  rw [List.getElem_map, List.getElem_map, ← (h.slots k l[k] (List.getElem?_eq_getElem hk)).osInfo,
    (h'.slots k l'[k] (List.getElem?_eq_getElem hk')).osInfo]

/-- The buffers are conserved exactly when nothing is lost and the rings of an interface that has
not been started are empty. -/
theorem EgigaRxKept.conserved_iff (h : EgigaRxKept descNum s bufs lost)
    (hlt : ∀ queue, descNum queue < 2 ^ 31) :
    (∃ bufs', RxConserved descNum s bufs') ↔
      lost = [] ∧ (s.started = false → ∀ queue, bufs queue = []) := by
  constructor
  · rintro ⟨bufs', hconserved⟩
    have hsame (queue : Fin Q) := (hconserved.holds queue).map_osInfo (h.kept queue).holds
    constructor
    · refine List.eq_nil_iff_forall_not_mem.mpr fun skb hskb => ?_
      have howned := h.owned skb
      have hone := hconserved.owned skb
      have hring : ringSkbs bufs' skb = ringSkbs bufs skb := by
        unfold ringSkbs
        simp only [hsame]
      have hle := List.nodup_iff_count_le_one.mp h.nodup skb
      have hpos := List.count_pos_iff.mpr hskb
      have hmem : skb ∈ s.skbs.owned := List.count_pos_iff.mp (by omega)
      rw [if_pos hmem] at hone
      omega
    · intro hstarted queue
      have hnil := hsame queue
      rw [hconserved.stopped hstarted queue] at hnil
      exact List.map_eq_nil_iff.mp hnil.symm
  · rintro ⟨rfl, hstopped⟩
    refine ⟨bufs, fun queue => (h.kept queue).holds, fun queue => ?_, fun skb => ?_, h.twice,
      hstopped⟩
    · have hle := (h.kept queue).holds.length_le
      have hlt := hlt queue
      rw [h.count, BitVec.toNat_ofNat, Nat.mod_eq_of_lt (by omega)]
    · have howned := h.owned skb
      rw [List.count_nil, Nat.add_zero] at howned
      rw [← howned, h.nodup.count]

/-- The condition of an event: a start or an expiry of the timer that gets an skb for a queue finds
room in its ring, and the timer expires only while the interface is started. -/
def FillsRoom (descNum : Fin Q → ℕ) (s : EgigaRx Q) : EgigaRxEvent Q → Prop
  | .start new => ∀ queue, new queue = [] ∨ (s.ring queue).resource ≠ descNum queue
  | .timeout new => ∀ queue, new queue = [] ∨
      s.started = true ∧ (s.ring queue).resource ≠ descNum queue
  | _ => True

/-- One event: an skb is lost, or a stopped interface gets a buffer, exactly when the event does not
meet its condition. -/
theorem egigaRxStep_kept {event : EgigaRxEvent Q} {answer : EgigaRxAnswer}
    (hpos : ∀ queue, 0 < descNum queue) (h : EgigaRxKept descNum s bufs [])
    (hstopped : s.started = false → ∀ queue, bufs queue = [])
    (hstep : egigaRxStep descNum multiQueue s event = some (answer, s')) :
    ∃ bufs' lost', EgigaRxKept descNum s' bufs' lost' ∧
      (lost' = [] ∧ (s'.started = false → ∀ queue, bufs' queue = []) ↔
        FillsRoom descNum s event) := by
  have hresource (queue : Fin Q) :
      (s.ring queue).resource ≠ descNum queue ↔ (bufs queue).length ≠ descNum queue := by
    rw [(h.kept queue).holds.resource]
    omega
  cases event with
  | start new =>
    obtain ⟨s₁, hstart, hout⟩ := Option.map_eq_some_iff.mp hstep
    obtain ⟨-, rfl⟩ := Prod.mk.inj hout
    obtain ⟨s₂, hfill, rfl⟩ := Option.map_eq_some_iff.mp hstart
    obtain ⟨-, bufs', lost', hkept, -, hlost⟩ := fillQueues_kept h (List.nodup_finRange Q) hfill
    refine ⟨bufs', lost', hkept.congr rfl rfl rfl, ?_⟩
    simp only [hlost, FillsRoom, List.mem_finRange, true_and, forall_const, hresource,
      Bool.true_eq_false, false_implies, and_true]
  | stop =>
    obtain ⟨-, rfl⟩ := Prod.mk.inj (Option.some.inj hstep)
    refine ⟨fun _ => [], [], egigaStopInternals_kept h, ?_⟩
    simp [FillsRoom]
  | poll workToDo turns new =>
    obtain ⟨⟨workDone, s₁⟩, hpoll, hout⟩ := Option.map_eq_some_iff.mp hstep
    obtain ⟨-, rfl⟩ := Prod.mk.inj hout
    obtain ⟨workDone', done, s₂, hloop, hstarted₂, bufs₂, hkept₂, hless, hfrom⟩ :=
      @rxLoop_kept _ _ multiQueue _ _ _ workToDo turns 0 (fun _ => false) h
    unfold EgigaRx.egigaRx at hpoll
    rw [hloop] at hpoll
    obtain ⟨s₃, hfill, hsame⟩ := Option.map_eq_some_iff.mp hpoll
    obtain ⟨-, rfl⟩ := Prod.mk.inj hsame
    obtain ⟨hstarted₃, bufs', lost', hkept, hbufs, hlost⟩ :=
      fillQueues_kept hkept₂ ((List.nodup_finRange Q).filter _) hfill
    -- a queue that is filled has just given a buffer
    have hroom (queue : Fin Q) (hdone : done queue = true) :
        (bufs₂ queue).length < (bufs queue).length := by
      rcases hfrom queue hdone with hnot | hlt
      · cases hnot
      · exact hlt
    refine ⟨bufs', lost', hkept, iff_of_true ⟨hlost.mpr ⟨rfl, ?_⟩, ?_⟩ trivial⟩
    · intro queue hqueue
      have hlt := hroom queue (List.mem_filter.mp hqueue).2
      have hle := (h.kept queue).holds.length_le
      exact Or.inr (by omega)
    · intro hstarted queue
      have hnil := hstopped (by rw [← hstarted₂, ← hstarted₃]; exact hstarted) queue
      have hle := hless queue
      rw [hnil, List.length_nil, Nat.le_zero, List.length_eq_zero_iff] at hle
      rw [hbufs, if_neg, hle]
      intro hqueue
      have hlt := hroom queue (List.mem_filter.mp hqueue).2
      rw [hnil, List.length_nil] at hlt
      omega
  | timeout new =>
    unfold egigaRxStep at hstep
    split_ifs at hstep with htimer
    obtain ⟨s₁, hfill, hout⟩ := Option.map_eq_some_iff.mp hstep
    obtain ⟨-, rfl⟩ := Prod.mk.inj hout
    have hexpired : EgigaRxKept descNum { s with rxFillFlag := false } bufs [] :=
      h.congr rfl rfl rfl
    obtain ⟨hstarted, bufs', lost', hkept, hbufs, hlost⟩ :=
      fillQueues_kept hexpired (List.nodup_finRange Q) hfill
    refine ⟨bufs', lost', hkept, ?_⟩
    simp only [List.mem_finRange, if_true] at hbufs
    rw [hstarted]
    simp only [hlost, FillsRoom, List.mem_finRange, true_and, forall_const, hresource, hbufs]
    cases hs : s.started with
    | true => simp
    | false =>
      -- the rings of a stopped interface are empty, so they have room
      have hnil := hstopped hs
      have htake (queue : Fin Q) : (new queue).take (descNum queue) = [] ↔ new queue = [] := by
        rw [List.take_eq_nil_iff]
        exact or_iff_right (hpos queue).ne'
      have hne (queue : Fin Q) : (0 : ℕ) ≠ descNum queue := (hpos queue).ne
      simp [hnil, htake, hne]
  | receive queue i cmdSts byteCnt fragIP =>
    obtain ⟨⟨answer', ring⟩, hring, hout⟩ := Option.map_eq_some_iff.mp hstep
    obtain ⟨-, rfl⟩ := Prod.mk.inj hout
    simp only [rxStep] at hring
    split_ifs at hring with howned
    obtain ⟨-, rfl⟩ := Prod.mk.inj (Option.some.inj hring)
    refine ⟨bufs, [], ?_, iff_of_true ⟨rfl, hstopped⟩ trivial⟩
    have hkept := h.reorder ((h.kept queue).fill howned.2 cmdSts byteCnt fragIP) (h.idle queue)
      (List.Perm.refl _)
    rwa [Function.update_eq_self] at hkept

/-- The interface as it is loaded has no buffers. -/
theorem egigaRxLoad_kept (hpos : ∀ queue, 0 < descNum queue) :
    EgigaRxKept descNum (egigaRxLoad Q) (fun _ => []) [] := by
  refine ⟨fun queue => rxKept_init (hpos queue), fun _ => rfl, fun _ => rfl, fun skb => ?_,
    List.nodup_nil, List.not_mem_nil, rfl⟩
  simp [ringSkbs, egigaRxLoad]

/-- In every run whose events meet their condition the receive buffers are conserved. -/
theorem egigaRxRun_conserved (descNum : Fin Q → ℕ) (multiQueue : Bool)
    (hpos : ∀ queue, 0 < descNum queue) (hlt : ∀ queue, descNum queue < 2 ^ 31)
    {trace : List (EgigaRxEvent Q × EgigaRxAnswer)} {s : EgigaRx Q}
    (hrun : Run (egigaRxStep descNum multiQueue) (FillsRoom descNum) (egigaRxLoad Q) trace s) :
    ∃ bufs, RxConserved descNum s bufs := by
  have hkept : ∃ bufs, EgigaRxKept descNum s bufs [] ∧
      (s.started = false → ∀ queue, bufs queue = []) := by
    refine Run.invariant (I := fun _ s => ∃ bufs, EgigaRxKept descNum s bufs [] ∧
      (s.started = false → ∀ queue, bufs queue = [])) ?_ ?_ hrun
    · exact ⟨fun _ => [], egigaRxLoad_kept hpos, fun _ _ => rfl⟩
    · rintro trace s event answer s' ⟨bufs, hs, hstopped⟩ hok hstep
      obtain ⟨bufs', lost', hkept, hiff⟩ := egigaRxStep_kept hpos hs hstopped hstep
      obtain ⟨rfl, hstopped'⟩ := hiff.mpr hok
      exact ⟨bufs', hkept, hstopped'⟩
  obtain ⟨bufs, hs, hstopped⟩ := hkept
  exact (hs.conserved_iff hlt).mpr ⟨rfl, hstopped⟩

instance (descNum : Fin Q → ℕ) (s : EgigaRx Q) (event : EgigaRxEvent Q) :
    Decidable (FillsRoom descNum s event) :=
  match event with
  | .start new =>
    inferInstanceAs (Decidable (∀ queue, new queue = [] ∨ (s.ring queue).resource ≠ descNum queue))
  | .timeout new => inferInstanceAs (Decidable (∀ queue, new queue = [] ∨
      s.started = true ∧ (s.ring queue).resource ≠ descNum queue))
  | .stop | .poll .. | .receive .. => inferInstanceAs (Decidable True)

/-- A number of skbs, from an address on. -/
def freshSkbs (addr : BitVec 32) (n : ℕ) : List RxBuf :=
  (List.range n).map fun k => ⟨addr + BitVec.ofNat 32 (256 * k), 0, 1520⟩

/-- An interface gets one buffer, the timer brings three more, one is received, and it is stopped
and started. -/
theorem slowStart_conserved :
    ∃ (trace : List (EgigaRxEvent 1 × EgigaRxAnswer)) (s : EgigaRx 1) (bufs : Fin 1 → List RxBuf),
      trace.map Prod.snd = [.started, .received, .filled, .polled 1, .stopped false, .started] ∧
        RxConserved (fun _ => 128) s bufs ∧ (bufs 0).length = 2 := by
  have hexec : (exec (egigaRxStep (fun _ : Fin 1 => 128) false) (FillsRoom fun _ => 128)
      (egigaRxLoad 1) [.start fun _ => freshSkbs 0xc1000000 1,
        .receive 0 0 (rxFirstDescMask ||| rxLastDescMask) 64 0,
        .timeout fun _ => freshSkbs 0xc2000000 3, .poll 64 (List.replicate 64 0) fun _ => [],
        .stop, .start fun _ => freshSkbs 0xc3000000 2]).map
        (fun result => (result.1.map Prod.snd, result.2.rxqCount 0)) =
          some ([.started, .received, .filled, .polled 1, .stopped false, .started], 2) := by
    decide
  obtain ⟨⟨trace, s⟩, hrun, hout⟩ := Option.map_eq_some_iff.mp hexec
  obtain ⟨hanswers, hcount⟩ := Prod.mk.inj hout
  obtain ⟨bufs, hconserved⟩ :=
    egigaRxRun_conserved (fun _ => 128) false (by decide) (by decide) (Run.of_exec _ hrun)
  refine ⟨trace, s, bufs, hanswers, hconserved, ?_⟩
  have hlength := hconserved.count 0
  dsimp only at hcount
  rw [hcount] at hlength
  exact hlength.symm

/-- The first allocation fails, and the timer is set. The interface is stopped and started again,
which fills its ring, before the timer expires: the skb that is allocated then is refused by the
port, and is neither in the ring nor freed. -/
theorem lateTimeout_losesSkb :
    ∃ trace s, Run (egigaRxStep (fun _ : Fin 1 => 128) false) (fun _ _ => True) (egigaRxLoad 1)
      trace s ∧ ¬ ∃ bufs, RxConserved (fun _ => 128) s bufs := by
  have hexec : (exec (egigaRxStep (fun _ : Fin 1 => 128) false) (fun _ _ => True) (egigaRxLoad 1)
      [.start fun _ => [], .stop, .start fun _ => freshSkbs 0xc1000000 128,
        .timeout fun _ => freshSkbs 0xc2000000 1]).map
        (fun result => (result.2.rxqCount 0, result.2.skbs.owned.length,
          decide result.2.skbs.owned.Nodup)) = some (128, 129, true) := by
    decide +kernel
  obtain ⟨⟨trace, s⟩, hrun, hout⟩ := Option.map_eq_some_iff.mp hexec
  obtain ⟨hcount, hout⟩ := Prod.mk.inj hout
  obtain ⟨howned, hnodup⟩ := Prod.mk.inj hout
  refine ⟨trace, s, Run.of_exec _ hrun, ?_⟩
  rintro ⟨bufs, hconserved⟩
  have hlength := hconserved.count 0
  dsimp only at hcount howned hnodup
  have hsubset : s.skbs.owned ⊆ (bufs 0).map RxBuf.osInfo := by
    intro skb hskb
    have hone := hconserved.owned skb
    rw [if_pos hskb, ringSkbs, Finset.univ_unique, Finset.sum_singleton] at hone
    have hpos : 0 < ((bufs 0).map RxBuf.osInfo).count skb :=
      Nat.lt_of_lt_of_eq Nat.one_pos hone.symm
    exact List.count_pos_iff.mp hpos
  have hle := ((of_decide_eq_true hnodup).subperm hsubset).length_le
  rw [List.length_map, ← hlength, hcount, howned] at hle
  exact absurd hle (by decide)

end Mv88fxx81.Eth
