import Mathlib.Algebra.Order.BigOperators.Group.Finset
import Mv88fxx81.Eth.EgigaRx

/-!
# The accounts of the receive buffers

What a call of the port or of the driver does to the buffers in the rings of an interface. An
skb that the driver owns is in a ring, or it is lost: `mvEthPortRxDone` has refused it, and it
has not been freed.
-/

namespace Mv88fxx81.Eth

open RingIndex

variable {N Q : ℕ} {ring ring' : RxRing} {l l' : List RxBuf} {buf : RxBuf}

/-- What a call of `mvEthPortRx` answers, and the buffers it leaves: those of the list, or those
behind the first one, which has been received. -/
def PortRxDone (N : ℕ) (l : List RxBuf) (ring : RxRing) : RxAnswer → Prop
  | .received pkt => ∃ buf rest, l = buf :: rest ∧ buf.osInfo = pkt.osInfo ∧ RxKept N ring rest
  | .noResource | .noMore => RxKept N ring l
  | _ => False

/-- What one iteration of the loop of `mvEthPortRx` answers. -/
theorem mvEthPortRxIteration_cases (N : ℕ) (ring : RxRing) :
    (∃ ring', ring.mvEthPortRxIteration N = (.noMore, ring') ∧ ring'.inRx = false) ∨
      (∃ pkt ring', ring.mvEthPortRxIteration N = (.received pkt, ring') ∧ ring'.inRx = false) ∨
      ∃ ring', ring.mvEthPortRxIteration N = (.recycled, ring') ∧ ring'.inRx = ring.inRx := by
  unfold RxRing.mvEthPortRxIteration
  dsimp only
  split_ifs with howned hwhole
  · exact Or.inl ⟨_, rfl, rfl⟩
  · exact Or.inr (Or.inl ⟨_, _, rfl, rfl⟩)
  · exact Or.inr (Or.inr ⟨_, rfl, rfl⟩)

/-- `mvEthPortRxDone` is no part of the loop of `mvEthPortRx`. -/
theorem RxRing.mvEthPortRxDone_inRx (ring : RxRing) (N : ℕ) (buf : RxBuf) :
    (ring.mvEthPortRxDone N buf).2.inRx = ring.inRx := by
  unfold RxRing.mvEthPortRxDone
  dsimp only
  split_ifs <;> rfl

/-- Neither is `mvEthPortForceRx`. -/
theorem RxRing.mvEthPortForceRx_inRx (ring : RxRing) (N : ℕ) :
    (ring.mvEthPortForceRx N).2.inRx = ring.inRx := by
  unfold RxRing.mvEthPortForceRx
  dsimp only
  split_ifs <;> rfl

/-- The loop of `mvEthPortRx` ends, having moved some buffers from the front to the end. -/
theorem portRxLoop_done {fuel : ℕ} (hs : RxKept N ring l) (hin : ring.inRx = true)
    (hfuel : filledCount N ring l < fuel) :
    ∃ l', l'.Perm l ∧ (portRxLoop N fuel ring).2.inRx = false ∧
      PortRxDone N l' (portRxLoop N fuel ring).2 (portRxLoop N fuel ring).1 := by
  induction fuel generalizing ring l with
  | zero => omega
  | succ fuel ih =>
    have hstep : rxStep N ring .rxIteration = some (ring.mvEthPortRxIteration N) := by
      simp only [rxStep, hin, if_true]
    obtain ⟨hkept, hfits⟩ := hs.iteration hin
    unfold portRxLoop
    rcases mvEthPortRxIteration_cases N ring with
      ⟨ring', hresult, hidle⟩ | ⟨pkt, ring', hresult, hidle⟩ | ⟨ring', hresult, hsame⟩
    · rw [hresult] at hkept ⊢
      exact ⟨l, List.Perm.refl l, hidle, hkept⟩
    · rw [hresult] at hkept hfits ⊢
      obtain ⟨-, hfront⟩ := hfits
      cases l with
      | nil => cases hfront
      | cons buf rest =>
        exact ⟨buf :: rest, List.Perm.refl _, hidle, buf, rest, rfl, Option.some.inj hfront, hkept⟩
    · rw [hresult] at hkept hstep ⊢
      have hless := (filledCount_step hs ⟨hin, Or.inl rfl⟩ hstep).2 (hsame.trans hin)
      rw [if_pos rfl, if_neg (by simp)] at hless
      dsimp only at hless hkept ⊢
      obtain ⟨l', hperm, hidle, hdone⟩ := ih hkept (hsame.trans hin) (by omega)
      refine ⟨l', hperm.trans ?_, hidle, hdone⟩
      cases l with
      | nil => simp [bufsStep]
      | cons buf rest => simp [bufsStep]

/-- `mvEthPortRx` as a whole. -/
theorem portRx_done (hs : RxKept N ring l) (hidle : ring.inRx = false) :
    ∃ l', l'.Perm l ∧ (portRx N ring).2.inRx = false ∧
      PortRxDone N l' (portRx N ring).2 (portRx N ring).1 := by
  have hempty := hs.holds.resource_eq_zero_iff
  unfold portRx RxRing.mvEthPortRx
  by_cases hzero : ring.resource = 0
  · rw [if_pos hzero]
    exact ⟨l, List.Perm.refl l, hidle, hs⟩
  · rw [if_neg hzero]
    have hne : l ≠ [] := fun h => hzero (hempty.mpr h)
    have hstarted : RxKept N { ring with inRx := true } l :=
      ⟨⟨hs.holds.curr_lt, hs.holds.length_le, hs.holds.resource, hs.holds.used, hs.holds.slots,
        hs.holds.free⟩, fun _ => hne⟩
    refine portRxLoop_done hstarted rfl ?_
    have hfilled : filledCount N { ring with inRx := true } l ≤ l.length := by
      unfold filledCount
      exact (Finset.card_filter_le _ _).trans (Finset.card_range _).le
    have hlength := hs.holds.length_le
    omega

/-- The number of slots of the rings that hold an skb. -/
def ringSkbs (bufs : Fin Q → List RxBuf) (skb : BitVec 32) : ℕ :=
  ∑ queue, ((bufs queue).map RxBuf.osInfo).count skb

/-- Another list for one queue. -/
theorem ringSkbs_update (bufs : Fin Q → List RxBuf) (queue : Fin Q) (l : List RxBuf)
    (skb : BitVec 32) :
    ringSkbs (Function.update bufs queue l) skb + ((bufs queue).map RxBuf.osInfo).count skb =
      ringSkbs bufs skb + (l.map RxBuf.osInfo).count skb := by
  have hnew := Finset.add_sum_erase Finset.univ
    (fun q => ((Function.update bufs queue l q).map RxBuf.osInfo).count skb) (Finset.mem_univ queue)
  have hold := Finset.add_sum_erase Finset.univ
    (fun q => ((bufs q).map RxBuf.osInfo).count skb) (Finset.mem_univ queue)
  have hrest : ∑ q ∈ Finset.univ.erase queue,
      ((Function.update bufs queue l q).map RxBuf.osInfo).count skb =
        ∑ q ∈ Finset.univ.erase queue, ((bufs q).map RxBuf.osInfo).count skb := by
    refine Finset.sum_congr rfl fun q hq => ?_
    rw [Function.update_of_ne (Finset.ne_of_mem_erase hq)]
  rw [Function.update_self] at hnew
  unfold ringSkbs
  omega

theorem count_le_ringSkbs (bufs : Fin Q → List RxBuf) (queue : Fin Q) (skb : BitVec 32) :
    ((bufs queue).map RxBuf.osInfo).count skb ≤ ringSkbs bufs skb :=
  Finset.single_le_sum (f := fun q => ((bufs q).map RxBuf.osInfo).count skb)
    (fun _ _ => Nat.zero_le _) (Finset.mem_univ queue)

/-- The rings hold the buffers, each queue is counted, and an skb that is owned is in the rings or
lost, once. -/
structure EgigaRxKept (descNum : Fin Q → ℕ) (s : EgigaRx Q) (bufs : Fin Q → List RxBuf)
    (lost : List (BitVec 32)) : Prop where
  kept : ∀ queue, RxKept (descNum queue) (s.ring queue) (bufs queue)
  idle : ∀ queue, (s.ring queue).inRx = false
  count : ∀ queue, s.rxqCount queue = BitVec.ofNat 32 (bufs queue).length
  owned : ∀ skb, s.skbs.owned.count skb = ringSkbs bufs skb + lost.count skb
  nodup : s.skbs.owned.Nodup
  nonzero : 0 ∉ s.skbs.owned
  twice : s.skbs.twice = false

namespace EgigaRxKept

variable {descNum : Fin Q → ℕ} {s : EgigaRx Q} {bufs : Fin Q → List RxBuf}
  {lost : List (BitVec 32)} {queue : Fin Q}

/-- A buffer in a ring has an skb that is owned. -/
theorem mem_owned (h : EgigaRxKept descNum s bufs lost) (hbuf : buf ∈ bufs queue) :
    buf.osInfo ∈ s.skbs.owned := by
  have hin : 0 < ((bufs queue).map RxBuf.osInfo).count buf.osInfo :=
    List.count_pos_iff.mpr (List.mem_map_of_mem hbuf)
  have hle := count_le_ringSkbs bufs queue buf.osInfo
  have howned := h.owned buf.osInfo
  exact List.count_pos_iff.mp (by omega)

theorem osInfo_ne_zero (h : EgigaRxKept descNum s bufs lost) (hbuf : buf ∈ bufs queue) :
    buf.osInfo ≠ 0 := by
  intro hzero
  exact h.nonzero (hzero ▸ h.mem_owned hbuf)

/-- Fields that the accounts do not read. -/
theorem congr {s' : EgigaRx Q} (h : EgigaRxKept descNum s bufs lost) (hring : s'.ring = s.ring)
    (hcount : s'.rxqCount = s.rxqCount) (hskbs : s'.skbs = s.skbs) :
    EgigaRxKept descNum s' bufs lost := by
  obtain ⟨ring, rxqCount, rxFillFlag, skbs, started⟩ := s'
  dsimp only at hring hcount hskbs
  subst hring hcount hskbs
  exact ⟨h.kept, h.idle, h.count, h.owned, h.nodup, h.nonzero, h.twice⟩

/-- A queue with another ring that holds another list. -/
theorem kept_update (h : EgigaRxKept descNum s bufs lost) (hring : RxKept (descNum queue) ring l)
    (q : Fin Q) : RxKept (descNum q) (Function.update s.ring queue ring q)
      (Function.update bufs queue l q) := by
  by_cases hq : q = queue
  · subst hq
    rwa [Function.update_self, Function.update_self]
  · rw [Function.update_of_ne hq, Function.update_of_ne hq]
    exact h.kept q

theorem idle_update (h : EgigaRxKept descNum s bufs lost) (hidle : ring.inRx = false)
    (q : Fin Q) : (Function.update s.ring queue ring q).inRx = false := by
  by_cases hq : q = queue
  · subst hq
    rwa [Function.update_self]
  · rw [Function.update_of_ne hq]
    exact h.idle q

theorem count_update {n : BitVec 32} (h : EgigaRxKept descNum s bufs lost)
    (hn : BitVec.ofNat 32 (bufs queue).length + n = BitVec.ofNat 32 l.length) (q : Fin Q) :
    Function.update s.rxqCount queue (s.rxqCount queue + n) q =
      BitVec.ofNat 32 (Function.update bufs queue l q).length := by
  by_cases hq : q = queue
  · subst hq
    rw [Function.update_self, Function.update_self, h.count, hn]
  · rw [Function.update_of_ne hq, Function.update_of_ne hq]
    exact h.count q

/-- A queue holds the same buffers in another order. -/
theorem reorder (h : EgigaRxKept descNum s bufs lost) (hring : RxKept (descNum queue) ring l)
    (hidle : ring.inRx = false) (hperm : l.Perm (bufs queue)) :
    EgigaRxKept descNum (s.setRing queue ring) (Function.update bufs queue l) lost := by
  refine ⟨h.kept_update hring, h.idle_update hidle, ?_, ?_, h.nodup, h.nonzero, h.twice⟩
  · intro q
    have hlength : BitVec.ofNat 32 (bufs queue).length + 0#32 = BitVec.ofNat 32 l.length := by
      rw [hperm.length_eq, BitVec.add_zero]
    have hcount := h.count_update hlength q
    rwa [BitVec.add_zero, Function.update_eq_self] at hcount
  · intro skb
    have hsame := ringSkbs_update bufs queue l skb
    have hcount := (hperm.map RxBuf.osInfo).count_eq skb
    have howned := h.owned skb
    change s.skbs.owned.count skb = _
    omega

/-- A buffer has left its queue, and its skb is given away. -/
theorem take (h : EgigaRxKept descNum s bufs lost) (hperm : (buf :: l).Perm (bufs queue))
    (hring : RxKept (descNum queue) ring l) (hidle : ring.inRx = false) :
    EgigaRxKept descNum { (s.setRing queue ring).addCount queue (-1) with
      skbs := s.skbs.giveAway buf.osInfo } (Function.update bufs queue l) lost := by
  have hmem : buf.osInfo ∈ s.skbs.owned := h.mem_owned (hperm.mem_iff.mp List.mem_cons_self)
  refine ⟨h.kept_update hring, h.idle_update hidle, h.count_update ?_, ?_, h.nodup.erase _, ?_, ?_⟩
  · rw [← hperm.length_eq, List.length_cons, BitVec.ofNat_add, BitVec.add_assoc]
    simp
  · intro skb
    have hupdate := ringSkbs_update bufs queue l skb
    have howned := h.owned skb
    have herase : (s.skbs.owned.erase buf.osInfo).count skb =
        s.skbs.owned.count skb - if buf.osInfo = skb then 1 else 0 := by
      rw [List.count_erase]
      simp
    rw [← (hperm.map RxBuf.osInfo).count_eq, List.map_cons, List.count_cons] at hupdate
    change (s.skbs.owned.erase buf.osInfo).count skb = _
    rw [herase]
    by_cases heq : buf.osInfo = skb
    · rw [if_pos heq]
      rw [if_pos (by simpa using heq)] at hupdate
      omega
    · rw [if_neg heq]
      rw [if_neg (by simpa using heq)] at hupdate
      omega
  · exact fun hzero => h.nonzero (List.mem_of_mem_erase hzero)
  · change (s.skbs.twice || !decide (buf.osInfo ∈ s.skbs.owned)) = false
    simp [h.twice, hmem]

/-- A new skb enters a queue at the end. -/
theorem post {skbs : Skbs} (h : EgigaRxKept descNum s bufs lost)
    (halloc : s.skbs.devAllocSkb buf.osInfo = some skbs)
    (hring : RxKept (descNum queue) ring (bufs queue ++ [buf])) (hidle : ring.inRx = false) :
    EgigaRxKept descNum (({ s with skbs := skbs }.setRing queue ring).addCount queue 1)
      (Function.update bufs queue (bufs queue ++ [buf])) lost := by
  unfold Skbs.devAllocSkb at halloc
  split_ifs at halloc with hbad
  rw [not_or] at hbad
  obtain rfl := Option.some.inj halloc
  refine ⟨h.kept_update hring, h.idle_update hidle, h.count_update ?_, ?_,
    List.nodup_cons.mpr ⟨hbad.2, h.nodup⟩, ?_, h.twice⟩
  · rw [List.length_append, List.length_singleton, BitVec.ofNat_add]
    rfl
  · intro skb
    have hupdate := ringSkbs_update bufs queue (bufs queue ++ [buf]) skb
    have howned := h.owned skb
    rw [List.map_append, List.count_append] at hupdate
    change (buf.osInfo :: s.skbs.owned).count skb = _
    rw [List.count_cons]
    simp only [List.map_cons, List.map_nil, List.count_singleton] at hupdate
    omega
  · intro hzero
    rcases List.mem_cons.mp hzero with hzero | hzero
    · exact hbad.1 hzero.symm
    · exact h.nonzero hzero

/-- A new skb is refused by the port: it is lost. -/
theorem refuse {skbs : Skbs} (h : EgigaRxKept descNum s bufs lost)
    (halloc : s.skbs.devAllocSkb buf.osInfo = some skbs) :
    EgigaRxKept descNum { s with skbs := skbs } bufs (buf.osInfo :: lost) := by
  unfold Skbs.devAllocSkb at halloc
  split_ifs at halloc with hbad
  rw [not_or] at hbad
  obtain rfl := Option.some.inj halloc
  refine ⟨h.kept, h.idle, h.count, ?_, List.nodup_cons.mpr ⟨hbad.2, h.nodup⟩, ?_, h.twice⟩
  · intro skb
    have howned := h.owned skb
    change (buf.osInfo :: s.skbs.owned).count skb = _
    rw [List.count_cons, List.count_cons]
    omega
  · intro hzero
    rcases List.mem_cons.mp hzero with hzero | hzero
    · exact hbad.1 hzero.symm
    · exact h.nonzero hzero

end EgigaRxKept

end Mv88fxx81.Eth
