import Mv88fxx81.Eth.EgigaTx
import Mv88fxx81.Eth.TxRun

/-!
# Whole calls on the transmit ring

What the calls of the driver do to the ring from their entry to their return:
`mvEthPortTx` queues the descriptors of a packet, or refuses it; `mvEthPortTxDone` reclaims
the descriptors that the DMA has given back, up to the end of a packet; and
`mvEthPortForceTxDone` reclaims the next packet in spite of the DMA.
-/

namespace Mv88fxx81.Eth

open RingIndex TransitionSystem TxRing

variable {N r fuel : ℕ} {s : TxRing} {q : List (Option (BitVec 32))} {pkt : PktInfo}
  {answer : TxAnswer}

/-! ### Sending -/

/-- A call that is over has no more pieces. -/
theorem completeCall_idle (hcall : s.call = .idle) :
    completeCall N fuel answer s = (answer, s) := by
  cases fuel with
  | zero => rfl
  | succ fuel => simp [completeCall, txStep, hcall]

/-- One piece of a call. -/
theorem completeCall_run {answer' : TxAnswer} {s' : TxRing}
    (hstep : txStep N s .run = some (answer', s')) :
    completeCall N (fuel + 1) answer s = completeCall N fuel answer' s' := by
  rw [completeCall.eq_2, hstep]

/-- What a call that has sent a packet leaves behind. -/
structure SentBy (N : ℕ) (s : TxRing) (q : List (Option (BitVec 32))) (r : ℕ) (count : ℕ)
    (result : TxAnswer × TxRing) : Prop where
  answer : result.1 = .sent count
  kept : TxKept N result.2 q r
  idle : result.2.call = .idle
  resource : result.2.resource = s.resource - count

/-- The end of `mvEthPortTx`. -/
theorem TxKept.complete_update {cur bufCount : ℕ} (hs : TxKept N s q r)
    (hcall : s.call = .txUpdate pkt cur bufCount) :
    SentBy N s q r bufCount (completeCall N (fuel + 1) answer s) := by
  have hstep : txStep N s .run = some (s.mvEthPortTxUpdate N cur bufCount) := by
    simp only [txStep, hcall]
  rw [completeCall_run hstep, completeCall_idle rfl]
  exact ⟨rfl, hs.update hcall, rfl, rfl⟩

/-- The first descriptor is handed over last. -/
theorem TxKept.complete_first {first cur bufCount : ℕ} (hs : TxKept N s q r)
    (hcall : s.call = .txFirst pkt first cur bufCount) :
    SentBy N s (q ++ slotsOf pkt) r bufCount (completeCall N (fuel + 2) answer s) := by
  have hstep : txStep N s .run = some (s.mvEthPortTxFirst N pkt first cur bufCount) := by
    simp only [txStep, hcall]
  rw [completeCall_run hstep]
  generalize hs' : s.mvEthPortTxFirst N pkt first cur bufCount = piece
  obtain ⟨answer', s'⟩ := piece
  have hkept := hs.first hcall
  rw [hs'] at hkept
  obtain ⟨-, rfl⟩ := Prod.mk.inj hs'
  obtain ⟨h1, h2, h3, h4⟩ : SentBy N _ _ r bufCount (completeCall N (fuel + 1) answer' _) :=
    TxKept.complete_update hkept rfl
  exact ⟨h1, h2, h3, h4⟩

/-- Where the writing of a packet goes on after one of its fragments. -/
theorem mvEthPortTxIteration_call {first cur bufCount : ℕ} (frag : BufInfo) {s' : TxRing}
    (hs' : (s.mvEthPortTxIteration N pkt first cur bufCount frag).2 = s') :
    s'.resource = s.resource ∧
      (bufCount + 1 < pkt.frags.length ∧
          s'.call = .txLoop pkt first (next N cur) (bufCount + 1) ∨
        pkt.frags.length ≤ bufCount + 1 ∧ (s'.call = .txUpdate pkt cur (bufCount + 1) ∨
          s'.call = .txFirst pkt first cur (bufCount + 1))) := by
  subst hs'
  unfold mvEthPortTxIteration
  dsimp only
  by_cases hlast : bufCount + 1 ≥ pkt.frags.length
  · rw [if_pos hlast]
    by_cases hone : bufCount + 1 = 1
    · rw [if_pos hone]
      exact ⟨rfl, Or.inr ⟨hlast, Or.inl rfl⟩⟩
    · rw [if_neg hone]
      exact ⟨rfl, Or.inr ⟨hlast, Or.inr rfl⟩⟩
  · rw [if_neg hlast]
    exact ⟨rfl, Or.inl ⟨by omega, rfl⟩⟩

/-- The fragments are written one after the other, and the packet is sent. -/
theorem TxKept.complete_loop {first cur bufCount : ℕ} (hs : TxKept N s q r)
    (hcall : s.call = .txLoop pkt first cur bufCount)
    (hfuel : pkt.frags.length - bufCount + 2 ≤ fuel) :
    SentBy N s (q ++ slotsOf pkt) r pkt.frags.length (completeCall N fuel answer s) := by
  induction hleft : pkt.frags.length - bufCount generalizing s cur bufCount fuel answer q with
  | zero =>
    have hcalled := hs.inCall
    unfold TxRing.InCall at hcalled
    rw [hcall] at hcalled
    have hlt := hcalled.2.1
    omega
  | succ left ih =>
    have hcalled := hs.inCall
    unfold TxRing.InCall at hcalled
    rw [hcall] at hcalled
    have hlt := hcalled.2.1
    have hstep : txStep N s .run =
        some (s.mvEthPortTxIteration N pkt first cur bufCount pkt.frags[bufCount]) := by
      simp only [txStep, hcall, List.getElem?_eq_getElem hlt, Option.map_some]
    obtain ⟨fuel, rfl⟩ : ∃ n, fuel = n + 3 := ⟨fuel - 3, by omega⟩
    obtain ⟨q', hkept, hslots⟩ := hs.iteration pkt.frags[bufCount] hcall
    generalize hs' : s.mvEthPortTxIteration N pkt first cur bufCount pkt.frags[bufCount] = piece
      at hstep hkept hslots
    obtain ⟨answer', s'⟩ := piece
    obtain ⟨hresource, hcases⟩ :=
      mvEthPortTxIteration_call pkt.frags[bufCount] (congrArg Prod.snd hs')
    rw [completeCall_run hstep]
    dsimp only at hkept hslots ⊢
    unfold TxRing.progress at hslots
    rcases hcases with ⟨hmore, hcall'⟩ | ⟨hlast, hcall' | hcall'⟩
    · rw [hcall'] at hslots
      obtain rfl := List.append_cancel_right hslots
      obtain ⟨h1, h2, h3, h4⟩ : SentBy N s' (q' ++ slotsOf pkt) r pkt.frags.length
          (completeCall N (fuel + 2) answer' s') := ih hkept hcall' (by omega) (by omega)
      exact ⟨h1, h2, h3, h4.trans (by rw [hresource])⟩
    · rw [hcall'] at hslots
      dsimp only at hslots
      rw [List.append_nil] at hslots
      subst hslots
      have hcount : bufCount + 1 = pkt.frags.length := by omega
      rw [hcount] at hcall'
      obtain ⟨h1, h2, h3, h4⟩ : SentBy N s' (q ++ slotsOf pkt) r pkt.frags.length
          (completeCall N (fuel + 2) answer' s') := TxKept.complete_update hkept hcall'
      exact ⟨h1, h2, h3, h4.trans (by rw [hresource])⟩
    · rw [hcall'] at hslots
      obtain rfl := List.append_cancel_right hslots
      have hcount : bufCount + 1 = pkt.frags.length := by omega
      rw [hcount] at hcall'
      obtain ⟨h1, h2, h3, h4⟩ : SentBy N s' (q' ++ slotsOf pkt) r pkt.frags.length
          (completeCall N (fuel + 2) answer' s') := TxKept.complete_first hkept hcall'
      exact ⟨h1, h2, h3, h4.trans (by rw [hresource])⟩

/-- The free descriptors, when no call is in progress. -/
theorem TxKept.atRest_of_idle (hs : TxKept N s q r) (hcall : s.call = .idle) : s.AtRest N q := by
  exact (TxCall.Rests.inCall (.inl hcall)).mp hs.inCall

/-- `mvEthPortTx` sends another packet. -/
theorem ringCall_tx_sent (hs : TxKept N s q r) (hcall : s.call = .idle)
    (henough : ¬ s.resource < pkt.frags.length) :
    SentBy N s (q ++ slotsOf pkt) r pkt.frags.length (ringCall N (.tx pkt) s) := by
  have hstep : txStep N s (.tx pkt) =
      some (.started, { s with call := .txLoop pkt s.curr s.curr 0 }) := by
    simp only [txStep, hcall, mvEthPortTx, if_neg henough]
  have hfits : pkt.frags.length + 1 ≤ N := by
    have hresource := (hs.atRest_of_idle hcall).resource
    have hlength := hs.queued.length_lt
    omega
  unfold ringCall
  rw [hstep]
  obtain ⟨h1, h2, h3, h4⟩ : SentBy N { s with call := .txLoop pkt s.curr s.curr 0 }
      (q ++ slotsOf pkt) r pkt.frags.length (completeCall N (N + 2) .started _) :=
    TxKept.complete_loop (hs.start hcall henough) rfl (by omega)
  exact ⟨h1, h2, h3, h4⟩

/-! ### Reclaiming -/

/-- How a turn of `mvEthPortTxDone` ends. -/
theorem mvEthPortTxDone_call (hcall : s.call = .txDone) {result : TxAnswer × TxRing}
    (hresult : s.mvEthPortTxDone N = result) :
    result.2.dma = s.dma ∧
      (result.2.call = .idle ∧ (result.1 = .notFound ∧ (s.desc s.used).owned = true ∨
          result.1 = .empty ∧ s.used = s.curr) ∨
        result.2.call = .txDone ∧ result.1 = .reclaimed ∨
        result.2.call = .idle ∧ ∃ status osInfo, result.1 = .done status osInfo) := by
  subst hresult
  unfold mvEthPortTxDone
  dsimp only
  by_cases howned : (s.desc s.used).cmdSts &&& txOwnedByDma ≠ 0
  · rw [if_pos howned]
    exact ⟨rfl, Or.inl ⟨rfl, Or.inl ⟨rfl, (and_txBit_ne_zero (by decide) _).mp howned⟩⟩⟩
  rw [if_neg howned]
  by_cases hempty : s.used = s.curr ∧ s.resource ≠ 0
  · rw [if_pos hempty]
    exact ⟨rfl, Or.inl ⟨rfl, Or.inr ⟨rfl, hempty.1⟩⟩⟩
  rw [if_neg hempty]
  by_cases hlast : (s.desc s.used).cmdSts &&& txLastDescMask ≠ 0
  · rw [if_pos hlast]
    exact ⟨rfl, Or.inr (Or.inr ⟨rfl, _, _, rfl⟩)⟩
  · rw [if_neg hlast]
    exact ⟨rfl, Or.inr (Or.inl ⟨hcall, rfl⟩)⟩

/-- How a turn of `mvEthPortForceTxDone` ends. -/
theorem mvEthPortForceTxDone_call (hcall : s.call = .forceTxDone) {result : TxAnswer × TxRing}
    (hresult : s.mvEthPortForceTxDone N = result) :
    result.2.call = .idle ∧ result.1 = .empty ∧ s.used = s.curr ∨
      result.2.call = .forceTxDone ∧ result.1 = .reclaimed ∨
      result.2.call = .idle ∧ ∃ status osInfo, result.1 = .forced status osInfo := by
  subst hresult
  unfold mvEthPortForceTxDone
  dsimp only
  by_cases hmore : s.used ≠ s.curr ∨ s.resource = 0
  · rw [if_pos hmore]
    by_cases hlast : (s.desc s.used).cmdSts &&& txLastDescMask ≠ 0
    · rw [if_pos hlast]
      exact Or.inr (Or.inr ⟨rfl, _, _, rfl⟩)
    · rw [if_neg hlast]
      exact Or.inr (Or.inl ⟨hcall, rfl⟩)
  · rw [if_neg hmore]
    refine Or.inl ⟨rfl, rfl, ?_⟩
    by_contra hne
    exact hmore (Or.inl hne)

/-- The number of descriptors that the DMA has given back is read off those that it has. -/
theorem TxRing.Queued.dma_length (hs : s.Queued N q r) : s.dma.length = q.length - r := by
  rw [hs.dma, List.length_map, List.length_range]

/-- The slots that a turn reclaims. -/
theorem TxEffect.slots_run {s' : TxRing} {q' out : List (Option (BitVec 32))}
    (heffect : TxEffect s q .run answer s' q' out)
    (hcall : s.call.Rests) (hcall' : s'.call.Rests) : q = out ++ q' := by
  have hslots := heffect.slots
  rw [hcall.progress, hcall'.progress] at hslots
  simpa [newSlots] using hslots

/-- What a call that reclaims leaves behind: the first `k` slots are gone. -/
structure ReclaimedBy (N : ℕ) (s : TxRing) (q : List (Option (BitVec 32))) (r k : ℕ)
    (s' : TxRing) : Prop where
  le : k ≤ r
  kept : TxKept N s' (q.drop k) (r - k)
  idle : s'.call = .idle
  resource : s'.resource = s.resource + k

/-- `mvEthPortTxDone` reclaims descriptors that the DMA has given back, up to the end of a packet
or until there are no more of them. -/
theorem TxKept.complete_txDone (hN : 2 ≤ N) (hs : TxKept N s q r) (hcall : s.call = .txDone)
    (hfuel : r + 1 ≤ fuel) :
    ∃ k, ReclaimedBy N s q r k (completeCall N fuel answer s).2 ∧
      ((∃ status osInfo, (completeCall N fuel answer s).1 = .done status osInfo ∧ 0 < k ∧
          q[k - 1]? = some (some osInfo)) ∨
        ((completeCall N fuel answer s).1 = .notFound ∨
          (completeCall N fuel answer s).1 = .empty) ∧ k = r ∧ ∀ i < k, q[i]? = some none) := by
  induction fuel generalizing s q r answer with
  | zero => omega
  | succ fuel ih =>
    have hstep : txStep N s .run = some (s.mvEthPortTxDone N) := by
      simp only [txStep, hcall]
    obtain ⟨q', r', out, hkept, heffect⟩ := hs.txDone hN hcall
    generalize hresult : s.mvEthPortTxDone N = result at hstep hkept heffect
    obtain ⟨answer', s'⟩ := result
    rw [completeCall_run hstep]
    obtain ⟨hdma, hcases⟩ := mvEthPortTxDone_call hcall hresult
    have hcall' : s'.call.Rests := by
      rcases hcases with ⟨h, -⟩ | ⟨h, -⟩ | ⟨h, -⟩
      · exact Or.inl h
      · exact Or.inr (Or.inl h)
      · exact Or.inl h
    have hrests : s.call.Rests := Or.inr (Or.inl hcall)
    obtain rfl := heffect.slots_run hrests hcall'
    have hlength := heffect.length
    have hreturns := heffect.returns
    have hresource := heffect.resource
    -- the DMA keeps what it has, so that the slots are those that it has given back
    have hgiven : out.length ≤ r ∧ r' = r - out.length := by
      have h1 := hs.queued.dma_length
      have h2 := hkept.queued.dma_length
      have h3 := hs.queued.released_le
      have h4 := hkept.queued.released_le
      dsimp only at hdma h2 h4
      rw [hdma, h1] at h2
      rw [List.length_append] at h2 h3
      omega
    obtain ⟨hle, rfl⟩ := hgiven
    dsimp only at hcases hkept hresource hlength hreturns
    rcases hcases with ⟨hidle, hover⟩ | ⟨hagain, rfl⟩ | ⟨hidle, status, osInfo, rfl⟩
    · -- nothing more to reclaim
      obtain rfl : out = [] := by
        rcases hover with ⟨rfl, -⟩ | ⟨rfl, -⟩
        · exact List.eq_nil_of_length_eq_zero hlength
        · exact List.eq_nil_of_length_eq_zero hlength
      have hrest := hrests.inCall.mp hs.inCall
      have hnone : r = 0 := by
        rcases hover with ⟨-, howned⟩ | ⟨-, hempty⟩
        · exact (hrest.head_owned hs.queued howned).1
        · have hnil := (hrest.empty_iff hs.queued).mp hempty
          have hreleased := hs.queued.released_le
          simp only [hnil, List.length_nil] at hreleased
          omega
      rw [completeCall_idle hidle]
      refine ⟨0, ⟨Nat.zero_le _, hkept, hidle, ?_⟩, Or.inr ⟨?_, hnone.symm, by omega⟩⟩
      · rcases hover with ⟨rfl, -⟩ | ⟨rfl, -⟩
        · simpa [TxAnswer.queues, TxAnswer.reclaims] using hresource
        · simpa [TxAnswer.queues, TxAnswer.reclaims] using hresource
      · rcases hover with ⟨rfl, -⟩ | ⟨rfl, -⟩
        · exact Or.inl rfl
        · exact Or.inr rfl
    · -- not the last descriptor of its packet
      obtain ⟨slot, rfl⟩ := List.length_eq_one_iff.mp hlength
      obtain rfl : slot = none := by
        cases slot with
        | none => rfl
        | some osInfo => cases hreturns
      have hfuel' : r - [(none : Option (BitVec 32))].length + 1 ≤ fuel := by
        simp only [List.length_singleton] at hle ⊢
        omega
      obtain ⟨k, hby, hend⟩ : ∃ k, ReclaimedBy N s' q' _ k
          (completeCall N fuel .reclaimed s').2 ∧ _ := ih hkept hagain hfuel'
      have hk := hby.le
      simp only [List.length_singleton] at hle hk
      refine ⟨k + 1, ⟨by omega, ?_, hby.idle, ?_⟩, ?_⟩
      · have hkept' := hby.kept
        rw [List.length_singleton, Nat.sub_sub, Nat.add_comm 1 k] at hkept'
        exact hkept'
      · have hmore := hby.resource
        simp only [TxAnswer.queues, TxAnswer.reclaims] at hresource
        rw [hmore, hresource]
        push_cast
        omega
      · rcases hend with ⟨status, osInfo, hanswer, hpos, hslot⟩ | ⟨hanswer, hall, hnone⟩
        · refine Or.inl ⟨status, osInfo, hanswer, by omega, ?_⟩
          obtain ⟨j, rfl⟩ : ∃ j, k = j + 1 := ⟨k - 1, by omega⟩
          exact hslot
        · refine Or.inr ⟨hanswer, by simp only [List.length_singleton] at hall; omega, ?_⟩
          intro i hi
          cases i with
          | zero => rfl
          | succ i => exact hnone i (by omega)
    · -- the last descriptor of a packet
      obtain ⟨slot, rfl⟩ := List.length_eq_one_iff.mp hlength
      obtain rfl : slot = some osInfo := by
        cases slot with
        | none => cases hreturns
        | some osInfo' => exact congrArg some (List.cons.inj hreturns).1
      rw [completeCall_idle hidle]
      refine ⟨1, ⟨hle, hkept, hidle, ?_⟩, Or.inl ⟨status, osInfo, rfl, Nat.one_pos, rfl⟩⟩
      simpa [TxAnswer.queues, TxAnswer.reclaims] using hresource

/-- `mvEthPortTxDone` from its entry to its return. -/
theorem ringCall_txDone (hN : 2 ≤ N) (hs : TxKept N s q r) (hcall : s.call = .idle) :
    ∃ k, ReclaimedBy N s q r k (ringCall N .txDone s).2 ∧
      ((∃ status osInfo, (ringCall N .txDone s).1 = .done status osInfo ∧ 0 < k ∧
          q[k - 1]? = some (some osInfo)) ∨
        ((ringCall N .txDone s).1 = .notFound ∨ (ringCall N .txDone s).1 = .empty) ∧ k = r ∧
          ∀ i < k, q[i]? = some none) := by
  have hstep : txStep N s .txDone = some (.running, { s with call := .txDone }) := by
    simp only [txStep, hcall]
  have hkept : TxKept N { s with call := .txDone } q r :=
    TxKept.atRest hs.queued (hs.atRest_of_idle hcall) (Or.inr (Or.inl rfl))
  have hreleased := hs.queued.released_le
  have hlength := hs.queued.length_lt
  unfold ringCall
  rw [hstep]
  obtain ⟨k, hby, hend⟩ : ∃ k, ReclaimedBy N { s with call := .txDone } q r k
      (completeCall N (N + 2) .running { s with call := .txDone }).2 ∧ _ :=
    hkept.complete_txDone hN rfl (by omega)
  exact ⟨k, ⟨hby.le, hby.kept, hby.idle, hby.resource⟩, hend⟩

/-- `mvEthPortForceTxDone` reclaims the next packet, or finds the ring empty. -/
theorem TxKept.complete_forceTxDone (hN : 2 ≤ N) (hs : TxKept N s q r)
    (hcall : s.call = .forceTxDone) (hfuel : q.length + 1 ≤ fuel) :
    ∃ k r', TxKept N (completeCall N fuel answer s).2 (q.drop k) r' ∧
      (completeCall N fuel answer s).2.call = .idle ∧
      ((∃ status osInfo, (completeCall N fuel answer s).1 = .forced status osInfo ∧ 0 < k ∧
          k ≤ q.length ∧ q[k - 1]? = some (some osInfo)) ∨
        (completeCall N fuel answer s).1 = .empty ∧ q.drop k = []) := by
  induction fuel generalizing s q r answer with
  | zero => omega
  | succ fuel ih =>
    have hstep : txStep N s .run = some (s.mvEthPortForceTxDone N) := by
      simp only [txStep, hcall]
    obtain ⟨q', r', out, hkept, heffect⟩ := hs.forceTxDone hN hcall
    generalize hresult : s.mvEthPortForceTxDone N = result at hstep hkept heffect
    obtain ⟨answer', s'⟩ := result
    rw [completeCall_run hstep]
    have hcases := mvEthPortForceTxDone_call hcall hresult
    have hcall' : s'.call.Rests := by
      rcases hcases with ⟨h, -⟩ | ⟨h, -⟩ | ⟨h, -⟩
      · exact Or.inl h
      · exact Or.inr (Or.inr h)
      · exact Or.inl h
    have hrests : s.call.Rests := Or.inr (Or.inr hcall)
    obtain rfl := heffect.slots_run hrests hcall'
    have hlength := heffect.length
    have hreturns := heffect.returns
    dsimp only at hcases hkept hlength hreturns
    rcases hcases with ⟨hidle, rfl, hempty⟩ | ⟨hagain, rfl⟩ | ⟨hidle, status, osInfo, rfl⟩
    · obtain rfl : out = [] := List.eq_nil_of_length_eq_zero hlength
      have hrest := hrests.inCall.mp hs.inCall
      have hnil := (hrest.empty_iff hs.queued).mp hempty
      rw [completeCall_idle hidle]
      exact ⟨0, r', hkept, hidle, Or.inr ⟨rfl, hnil⟩⟩
    · obtain ⟨slot, rfl⟩ := List.length_eq_one_iff.mp hlength
      have hfuel' : q'.length + 1 ≤ fuel := by
        simp only [List.length_append, List.length_singleton] at hfuel
        omega
      obtain ⟨k, r'', hkept', hidle, hend⟩ : ∃ k r'', TxKept N
          (completeCall N fuel .reclaimed s').2 (q'.drop k) r'' ∧ _ := ih hkept hagain hfuel'
      refine ⟨k + 1, r'', hkept', hidle, ?_⟩
      rcases hend with ⟨status, osInfo, hanswer, hpos, hle, hslot⟩ | ⟨hanswer, hnone⟩
      · refine Or.inl ⟨status, osInfo, hanswer, by omega, ?_, ?_⟩
        · simp only [List.length_append, List.length_singleton]
          omega
        · obtain ⟨j, rfl⟩ : ∃ j, k = j + 1 := ⟨k - 1, by omega⟩
          exact hslot
      · exact Or.inr ⟨hanswer, hnone⟩
    · obtain ⟨slot, rfl⟩ := List.length_eq_one_iff.mp hlength
      obtain rfl : slot = some osInfo := by
        cases slot with
        | none => cases hreturns
        | some osInfo' => exact congrArg some (List.cons.inj hreturns).1
      rw [completeCall_idle hidle]
      refine ⟨1, r', hkept, hidle, Or.inl ⟨status, osInfo, rfl, Nat.one_pos, ?_, rfl⟩⟩
      simp

/-- `mvEthPortForceTxDone` from its entry to its return. -/
theorem ringCall_forceTxDone (hN : 2 ≤ N) (hs : TxKept N s q r) (hcall : s.call = .idle) :
    ∃ k r', TxKept N (ringCall N .forceTxDone s).2 (q.drop k) r' ∧
      (ringCall N .forceTxDone s).2.call = .idle ∧
      ((∃ status osInfo, (ringCall N .forceTxDone s).1 = .forced status osInfo ∧ 0 < k ∧
          k ≤ q.length ∧ q[k - 1]? = some (some osInfo)) ∨
        (ringCall N .forceTxDone s).1 = .empty ∧ q.drop k = []) := by
  have hstep : txStep N s .forceTxDone = some (.running, { s with call := .forceTxDone }) := by
    simp only [txStep, hcall]
  have hkept : TxKept N { s with call := .forceTxDone } q r :=
    TxKept.atRest hs.queued (hs.atRest_of_idle hcall) (Or.inr (Or.inr rfl))
  have hlength := hs.queued.length_lt
  unfold ringCall
  rw [hstep]
  exact hkept.complete_forceTxDone hN rfl (by omega)

end Mv88fxx81.Eth
