import Mathlib.Data.List.ReduceOption
import Mathlib.Tactic.Ring
import Mv88fxx81.Eth.TxRing

/-!
# Runs of the transmit ring

The descriptors from `used` on are those of the packets that have been sent and not
reclaimed. They are described by a list of slots, where the slot of the last
descriptor of a packet carries its `osInfo`. The DMA has given back the first ones
of them, and has the others.
-/

namespace Mv88fxx81.Eth

open RingIndex TransitionSystem TxRing

/-- The slots of the descriptors of a packet. -/
def slotsOf (pkt : PktInfo) : List (Option (BitVec 32)) :=
  List.replicate (pkt.frags.length - 1) none ++ [some pkt.osInfo]

/-- A descriptor is owned by the DMA. -/
def TxDesc.owned (d : TxDesc) : Bool := d.cmdSts.getLsbD 31

/-- A descriptor is marked as the last one of its packet. -/
def TxDesc.last (d : TxDesc) : Bool := d.cmdSts.getLsbD 20

/-- A descriptor is that of a slot: it is marked as last, with the `osInfo`, or it is not. -/
def TxDesc.Fills (d : TxDesc) : Option (BitVec 32) → Prop
  | none => d.last = false
  | some osInfo => d.last = true ∧ d.returnInfo = osInfo

variable {N k r : ℕ} {s s' : TxRing} {q : List (Option (BitVec 32))} {pkt : PktInfo} {d : TxDesc}

theorem and_txBit_ne_zero {bit : ℕ} (hbit : bit < 32) (x : BitVec 32) :
    x &&& txBit bit ≠ 0 ↔ x.getLsbD bit = true := by
  unfold txBit
  rw [BitVec.and_twoPow]
  cases hx : x.getLsbD bit with
  | true =>
    simp only [if_true, iff_true]
    intro hzero
    have hget := congrArg (fun y => y.getLsbD bit) hzero
    simp [hbit] at hget
  | false => simp

@[simp] theorem singleSts_owned (pkt : PktInfo) : (singleSts pkt).getLsbD 31 = true := by
  simp [singleSts, txOwnedByDma, txBit]

@[simp] theorem singleSts_last (pkt : PktInfo) : (singleSts pkt).getLsbD 20 = true := by
  simp [singleSts, txLastDescMask, txBit]

@[simp] theorem firstSts_owned (pkt : PktInfo) : (firstSts pkt).getLsbD 31 = true := by
  simp [firstSts, txOwnedByDma, txBit]

@[simp] theorem firstSts_last (pkt : PktInfo) : (firstSts pkt).getLsbD 20 = false := by
  have hstatus := pkt.status_not_last
  have hrest : (txOwnedByDma ||| txGenerateCrcMask ||| txFirstDescMask).getLsbD 20 = false := by
    decide
  unfold firstSts
  rw [BitVec.or_assoc, BitVec.or_assoc, ← BitVec.or_assoc txOwnedByDma, BitVec.getLsbD_or, hstatus,
    hrest]
  rfl

@[simp] theorem lastSts_owned : lastSts.getLsbD 31 = true := by decide

@[simp] theorem lastSts_last : lastSts.getLsbD 20 = true := by decide

@[simp] theorem txOwnedByDma_owned : txOwnedByDma.getLsbD 31 = true := by decide

@[simp] theorem txOwnedByDma_last : txOwnedByDma.getLsbD 20 = false := by decide

theorem releaseDesc_owned (d : TxDesc) (error : BitVec 32) :
    (releaseDesc d error).owned = false := by
  have hmask : (~~~txOwnedByDma).getLsbD 31 = false := by decide
  have herror : txErrorMask.getLsbD 31 = false := by decide
  change ((d.cmdSts &&& ~~~txOwnedByDma) ||| (error &&& txErrorMask)).getLsbD 31 = false
  rw [BitVec.getLsbD_or, BitVec.getLsbD_and, BitVec.getLsbD_and, hmask, herror]
  simp

theorem releaseDesc_last (d : TxDesc) (error : BitVec 32) :
    (releaseDesc d error).last = d.last := by
  have hmask : (~~~txOwnedByDma).getLsbD 20 = true := by decide
  have herror : txErrorMask.getLsbD 20 = false := by decide
  change ((d.cmdSts &&& ~~~txOwnedByDma) ||| (error &&& txErrorMask)).getLsbD 20 = _
  rw [BitVec.getLsbD_or, BitVec.getLsbD_and, BitVec.getLsbD_and, hmask, herror]
  simp [TxDesc.last]

/-- Writing to the descriptor of one position leaves the other positions alone. -/
theorem desc_setDesc {j : ℕ} (hk : k < N) (hj : j < N) :
    (s.setDesc (cell N s.used j) d).desc (cell N s.used k) =
      if k = j then d else s.desc (cell N s.used k) := by
  unfold setDesc
  by_cases hkj : k = j
  · subst hkj
    simp
  · have hne : cell N s.used k ≠ cell N s.used j := by
      rw [Ne, cell_inj hk hj]
      exact hkj
    simp [hkj, hne]

/-- The descriptors from a position on. -/
theorem ringRange_cell (hused : s.used < N) {n : ℕ} (hn : k + n ≤ N) :
    ringRange N (cell N s.used k) n = (List.range n).map fun j => cell N s.used (k + j) := by
  induction n generalizing k with
  | zero => rfl
  | succ n ih =>
    rw [ringRange, next_cell hused (by omega), ih (by omega), List.range_succ_eq_map]
    simp [Function.comp_def, Nat.add_assoc, Nat.add_comm 1]

/-- The queued descriptors: those of the slots `q` from `used` on, of which the DMA has given back
the first `r`. -/
structure TxRing.Queued (N : ℕ) (s : TxRing) (q : List (Option (BitVec 32))) (r : ℕ) : Prop where
  used_lt : s.used < N
  length_lt : q.length < N
  released_le : r ≤ q.length
  fills : ∀ k slot, q[k]? = some slot → (s.desc (cell N s.used k)).Fills slot
  owned : ∀ k < q.length, (s.desc (cell N s.used k)).owned = decide (r ≤ k)
  dma : s.dma = (List.range (q.length - r)).map fun j => cell N s.used (r + j)
  ends : ∀ slot, q.getLast? = some slot → slot.isSome = true

/-- No call that sends is in progress: the descriptors behind the queued ones are free. -/
structure TxRing.AtRest (N : ℕ) (s : TxRing) (q : List (Option (BitVec 32))) : Prop where
  curr : s.curr = cell N s.used q.length
  resource : s.resource = N - 1 - q.length
  free : ∀ k, q.length ≤ k → k < N → (s.desc (cell N s.used k)).owned = false

/-- The packet is being written: of the descriptors behind the queued ones, those from the second
one to the last one written are owned by the DMA. -/
structure TxRing.Writing (N : ℕ) (s : TxRing) (q : List (Option (BitVec 32))) (pkt : PktInfo)
    (first written : ℕ) : Prop where
  fits : q.length + pkt.frags.length < N
  curr : s.curr = cell N s.used q.length
  first : first = cell N s.used q.length
  resource : s.resource = N - 1 - q.length
  written_le : written ≤ pkt.frags.length
  fills : ∀ k, 0 < k → k < written → ∀ slot, (slotsOf pkt)[k]? = some slot →
    (s.desc (cell N s.used (q.length + k))).Fills slot
  owned : ∀ k, q.length ≤ k → k < N → (s.desc (cell N s.used k)).owned =
    decide (q.length < k ∧ k < q.length + written)

/-- The packet has been handed over, and the queue control is yet to be updated. -/
structure TxRing.Handed (N : ℕ) (s : TxRing) (q : List (Option (BitVec 32))) (pkt : PktInfo) :
    Prop where
  queued : ∃ q₀, q = q₀ ++ slotsOf pkt ∧ s.curr = cell N s.used q₀.length ∧
    s.resource = N - 1 - q₀.length
  free : ∀ k, q.length ≤ k → k < N → (s.desc (cell N s.used k)).owned = false

/-- What holds of the call in progress. -/
def TxRing.InCall (N : ℕ) (s : TxRing) (q : List (Option (BitVec 32))) : Prop :=
  match s.call with
  | .idle | .txDone | .forceTxDone => s.AtRest N q
  | .txLoop pkt first cur bufCount =>
    s.Writing N q pkt first bufCount ∧ bufCount < pkt.frags.length ∧
      cur = cell N s.used (q.length + bufCount)
  | .txFirst pkt first cur bufCount =>
    s.Writing N q pkt first bufCount ∧ bufCount = pkt.frags.length ∧ 1 < bufCount ∧
      cur = cell N s.used (q.length + bufCount - 1)
  | .txUpdate pkt cur bufCount =>
    s.Handed N q pkt ∧ bufCount = pkt.frags.length ∧ cur = cell N s.used (q.length - 1)

theorem slotsOf_length (pkt : PktInfo) : (slotsOf pkt).length = pkt.frags.length := by
  have hpos := List.length_pos_iff.mpr pkt.frags_ne_nil
  simp only [slotsOf, List.length_append, List.length_replicate, List.length_singleton]
  omega

/-- The slots before the last one. -/
theorem slotsOf_none (hk : k + 1 < pkt.frags.length) : (slotsOf pkt)[k]? = some none := by
  unfold slotsOf
  rw [List.getElem?_append_left (by simp; omega), List.getElem?_replicate]
  simp
  omega

/-- The last slot. -/
theorem slotsOf_last (hk : k + 1 = pkt.frags.length) :
    (slotsOf pkt)[k]? = some (some pkt.osInfo) := by
  unfold slotsOf
  rw [List.getElem?_append_right (by simp; omega)]
  have hindex : k - (pkt.frags.length - 1) = 0 := by omega
  simp [hindex]

namespace TxRing.Queued

/-- The queued descriptors are not affected by what happens to the others. -/
theorem congr (hs : s.Queued N q r) (hused : s'.used = s.used) (hdma : s'.dma = s.dma)
    (hdesc : ∀ k < q.length, s'.desc (cell N s.used k) = s.desc (cell N s.used k)) :
    s'.Queued N q r := by
  refine ⟨hused ▸ hs.used_lt, hs.length_lt, hs.released_le, ?_, ?_, ?_, hs.ends⟩
  · intro k slot hk
    rw [hused, hdesc k (List.getElem?_eq_some_iff.mp hk).1]
    exact hs.fills k slot hk
  · intro k hk
    rw [hused, hdesc k hk]
    exact hs.owned k hk
  · rw [hused, hdma]
    exact hs.dma

/-- A packet that has been written is handed over to the DMA. -/
theorem handOver (hs : s.Queued N q r) (hfits : q.length + pkt.frags.length < N)
    (hused : s'.used = s.used)
    (hdma : s'.dma = s.dma ++ ringRange N (cell N s.used q.length) pkt.frags.length)
    (hdesc : ∀ k < q.length, s'.desc (cell N s.used k) = s.desc (cell N s.used k))
    (hfills : ∀ k slot, (slotsOf pkt)[k]? = some slot →
      (s'.desc (cell N s.used (q.length + k))).Fills slot)
    (howned : ∀ k < pkt.frags.length, (s'.desc (cell N s.used (q.length + k))).owned = true) :
    s'.Queued N (q ++ slotsOf pkt) r := by
  have hlength : (q ++ slotsOf pkt).length = q.length + pkt.frags.length := by
    rw [List.length_append, slotsOf_length]
  have hreleased := hs.released_le
  refine ⟨hused ▸ hs.used_lt, by omega, by omega, ?_, ?_, ?_, ?_⟩
  · intro k slot hk
    rw [hused]
    by_cases hold : k < q.length
    · rw [List.getElem?_append_left hold] at hk
      rw [hdesc k hold]
      exact hs.fills k slot hk
    · rw [List.getElem?_append_right (by omega)] at hk
      have hnew := hfills (k - q.length) slot hk
      rwa [Nat.add_sub_cancel' (by omega)] at hnew
  · intro k hk
    rw [hused]
    by_cases hold : k < q.length
    · rw [hdesc k hold]
      exact hs.owned k hold
    · have hnew := howned (k - q.length) (by omega)
      rw [Nat.add_sub_cancel' (by omega)] at hnew
      rw [hnew]
      simp only [true_eq_decide_iff]
      omega
  · rw [hdma, hs.dma, ringRange_cell hs.used_lt (by omega), hlength, hused,
      (by omega : q.length + pkt.frags.length - r = (q.length - r) + pkt.frags.length),
      List.range_add, List.map_append, List.map_map]
    congr 1
    apply List.map_congr_left
    intro j _
    simp only [Function.comp_apply]
    congr 1
    omega
  · intro slot hslot
    unfold slotsOf at hslot
    rw [← List.append_assoc, List.getLast?_concat] at hslot
    obtain rfl := Option.some.inj hslot
    rfl

/-- The first queued descriptor is reclaimed. -/
theorem pop {slot : Option (BitVec 32)} (hs : s.Queued N (slot :: q) r)
    (hused : s'.used = next N s.used) (hdma : s'.dma = if r = 0 then s.dma.tail else s.dma)
    (hdesc : ∀ k, 0 < k → k < N → s'.desc (cell N s.used k) = s.desc (cell N s.used k)) :
    s'.Queued N q (r - 1) := by
  have hlength := hs.length_lt
  have hreleased := hs.released_le
  rw [List.length_cons] at hlength hreleased
  have hcell : ∀ k, k < N → cell N s'.used k = cell N s.used (k + 1) := by
    intro k hk
    rw [hused, cell_next hs.used_lt hk]
  refine ⟨?_, by omega, by omega, ?_, ?_, ?_, ?_⟩
  · rw [hused]
    exact next_lt hs.used_lt
  · intro k slot' hk
    have hlt := (List.getElem?_eq_some_iff.mp hk).1
    rw [hcell k (by omega), hdesc (k + 1) (by omega) (by omega)]
    exact hs.fills (k + 1) slot' (by simpa using hk)
  · intro k hk
    rw [hcell k (by omega), hdesc (k + 1) (by omega) (by omega),
      hs.owned (k + 1) (by simpa using hk)]
    congr 1
    rw [eq_iff_iff]
    omega
  · rw [hdma, hs.dma, List.length_cons]
    by_cases hzero : r = 0
    · subst hzero
      rw [if_pos rfl, Nat.sub_zero, Nat.sub_zero, List.range_succ_eq_map, List.map_cons,
        List.tail_cons, List.map_map]
      apply List.map_congr_left
      intro j hj
      rw [hcell (0 - 1 + j) (by simp at hj; omega)]
      simp only [Function.comp_apply]
      congr 1
    · rw [if_neg hzero, (by omega : q.length + 1 - r = q.length - (r - 1))]
      apply List.map_congr_left
      intro j hj
      rw [hcell (r - 1 + j) (by simp at hj; omega)]
      congr 1
      omega
  · intro slot' hslot
    apply hs.ends slot'
    rw [List.getLast?_cons, hslot]
    rfl

/-- The next descriptor that the DMA gives back is the first one that it has. -/
theorem dma_head {i : ℕ} {dma : List ℕ} (hs : s.Queued N q r) (hdma : s.dma = i :: dma) :
    r < q.length ∧ i = cell N s.used r := by
  have hlist := hs.dma
  rw [hdma] at hlist
  have hlt : r < q.length := by
    by_contra hge
    rw [(by omega : q.length - r = 0)] at hlist
    cases hlist
  rw [(by omega : q.length - r = (q.length - (r + 1)) + 1), List.range_succ_eq_map,
    List.map_cons] at hlist
  exact ⟨hlt, (List.cons.inj hlist).1⟩

/-- The DMA gives a descriptor back. -/
theorem release (error : BitVec 32) (hs : s.Queued N q r) (hlt : r < q.length)
    (hused : s'.used = s.used) (hdma : s'.dma = s.dma.tail)
    (hdesc : ∀ k < N, s'.desc (cell N s.used k) =
      if k = r then releaseDesc (s.desc (cell N s.used k)) error else s.desc (cell N s.used k)) :
    s'.Queued N q (r + 1) := by
  have hlength := hs.length_lt
  refine ⟨hused ▸ hs.used_lt, hs.length_lt, by omega, ?_, ?_, ?_, hs.ends⟩
  · intro k slot hk
    have hklt := (List.getElem?_eq_some_iff.mp hk).1
    have hfills := hs.fills k slot hk
    rw [hused, hdesc k (by omega)]
    split_ifs
    · cases slot with
      | none =>
        change (releaseDesc _ error).last = false
        rw [releaseDesc_last]
        exact hfills
      | some osInfo =>
        refine ⟨?_, hfills.2⟩
        rw [releaseDesc_last]
        exact hfills.1
    · exact hfills
  · intro k hk
    rw [hused, hdesc k (by omega)]
    split_ifs with hkr
    · rw [releaseDesc_owned, hkr]
      simp
    · rw [hs.owned k hk]
      congr 1
      rw [eq_iff_iff]
      omega
  · rw [hdma, hs.dma, hused, (by omega : q.length - r = (q.length - (r + 1)) + 1),
      List.range_succ_eq_map, List.map_cons, List.tail_cons, List.map_map]
    apply List.map_congr_left
    intro j _
    simp only [Function.comp_apply]
    congr 1
    omega

end TxRing.Queued

/-- What holds of the call in progress rests on the descriptors behind the queued ones. -/
theorem TxRing.InCall.congr (hs : s.InCall N q) (hcall : s'.call = s.call)
    (hused : s'.used = s.used) (hcurr : s'.curr = s.curr) (hresource : s'.resource = s.resource)
    (hdesc : ∀ k, q.length ≤ k → k < N → s'.desc (cell N s.used k) = s.desc (cell N s.used k)) :
    s'.InCall N q := by
  have hrest : s.AtRest N q → s'.AtRest N q := by
    intro h
    refine ⟨by rw [hcurr, hused, h.curr], by rw [hresource, h.resource], ?_⟩
    intro k hk hkN
    rw [hused, hdesc k hk hkN]
    exact h.free k hk hkN
  have hwriting : ∀ pkt first written, s.Writing N q pkt first written →
      s'.Writing N q pkt first written := by
    intro pkt first written h
    have hfits := h.fits
    have hwritten := h.written_le
    refine ⟨h.fits, by rw [hcurr, hused, h.curr], by rw [hused, h.first],
      by rw [hresource, h.resource], h.written_le, ?_, ?_⟩
    · intro k hpos hk slot hslot
      rw [hused, hdesc _ (by omega) (by omega)]
      exact h.fills k hpos hk slot hslot
    · intro k hk hkN
      rw [hused, hdesc k hk hkN]
      exact h.owned k hk hkN
  unfold TxRing.InCall at hs ⊢
  rw [hcall]
  cases hc : s.call with
  | idle | txDone | forceTxDone =>
    rw [hc] at hs
    exact hrest hs
  | txLoop pkt first cur bufCount =>
    rw [hc] at hs
    exact ⟨hwriting _ _ _ hs.1, hs.2.1, by rw [hused]; exact hs.2.2⟩
  | txFirst pkt first cur bufCount =>
    rw [hc] at hs
    exact ⟨hwriting _ _ _ hs.1, hs.2.1, hs.2.2.1, by rw [hused]; exact hs.2.2.2⟩
  | txUpdate pkt cur bufCount =>
    rw [hc] at hs
    obtain ⟨⟨⟨q₀, hq, hcurr₀, hresource₀⟩, hfree⟩, hcount, hcur⟩ := hs
    refine ⟨⟨⟨q₀, hq, by rw [hcurr, hused, hcurr₀], by rw [hresource, hresource₀]⟩, ?_⟩, hcount,
      by rw [hused]; exact hcur⟩
    intro k hk hkN
    rw [hused, hdesc k hk hkN]
    exact hfree k hk hkN

/-- What a run keeps. -/
structure TxKept (N : ℕ) (s : TxRing) (q : List (Option (BitVec 32))) (r : ℕ) : Prop where
  queued : s.Queued N q r
  inCall : s.InCall N q

/-- The slots of a packet that is being written and has not been handed over. -/
def TxRing.progress (s : TxRing) : List (Option (BitVec 32)) :=
  match s.call with
  | .txLoop pkt _ _ _ => slotsOf pkt
  | .txFirst pkt _ _ _ => slotsOf pkt
  | _ => []

/-- No packet is being written. -/
def TxCall.Rests (call : TxCall) : Prop :=
  call = .idle ∨ call = .txDone ∨ call = .forceTxDone

theorem TxCall.Rests.inCall (hcall : s.call.Rests) : s.InCall N q ↔ s.AtRest N q := by
  unfold TxRing.InCall
  rcases hcall with h | h | h
  · rw [h]
  · rw [h]
  · rw [h]

theorem TxCall.Rests.progress (hcall : s.call.Rests) : s.progress = [] := by
  unfold TxRing.progress
  rcases hcall with h | h | h
  · rw [h]
  · rw [h]
  · rw [h]

theorem slotsOf_reduceOption (pkt : PktInfo) : (slotsOf pkt).reduceOption = [pkt.osInfo] := by
  simp [slotsOf, List.reduceOption_append, List.reduceOption_replicate_none]

/-- The next descriptor of a packet is written. The first one stays with the driver. -/
theorem TxRing.Writing.write {first written : ℕ} (hs : s.Writing N q pkt first written)
    (hlt : written < pkt.frags.length) (howned : d.owned = decide (0 < written))
    (hfills : 0 < written → ∀ slot, (slotsOf pkt)[written]? = some slot → d.Fills slot)
    (hused : s'.used = s.used) (hcurr : s'.curr = s.curr) (hresource : s'.resource = s.resource)
    (hdesc : s'.desc = (s.setDesc (cell N s.used (q.length + written)) d).desc) :
    s'.Writing N q pkt first (written + 1) := by
  have hfits := hs.fits
  refine ⟨hs.fits, by rw [hcurr, hused, hs.curr], by rw [hused, hs.first],
    by rw [hresource, hs.resource], by omega, ?_, ?_⟩
  · intro k hpos hk slot hslot
    rw [hused, hdesc, desc_setDesc (by omega) (by omega)]
    by_cases hself : k = written
    · subst hself
      rw [if_pos rfl]
      exact hfills hpos slot hslot
    · rw [if_neg (by omega)]
      exact hs.fills k hpos (by omega) slot hslot
  · intro k hk hkN
    rw [hused, hdesc, desc_setDesc hkN (by omega)]
    split_ifs with hself
    · rw [howned]
      congr 1
      rw [eq_iff_iff]
      omega
    · rw [hs.owned k hk hkN]
      congr 1
      rw [eq_iff_iff]
      omega

/-- A packet that has been handed over leaves the descriptors behind it free. -/
theorem TxRing.Writing.handed {first written : ℕ} (hs : s.Writing N q pkt first written)
    (hused : s'.used = s.used) (hcurr : s'.curr = s.curr) (hresource : s'.resource = s.resource)
    (hdesc : s'.desc = (s.setDesc (cell N s.used q.length) d).desc) :
    s'.Handed N (q ++ slotsOf pkt) pkt := by
  have hfits := hs.fits
  have hle := hs.written_le
  have hpos := List.length_pos_iff.mpr pkt.frags_ne_nil
  refine ⟨⟨q, rfl, by rw [hcurr, hused, hs.curr], by rw [hresource, hs.resource]⟩, ?_⟩
  intro k hk hkN
  rw [List.length_append, slotsOf_length] at hk
  rw [hused, hdesc, desc_setDesc hkN (by omega), if_neg (by omega), hs.owned k (by omega) hkN]
  simp only [decide_eq_false_iff_not]
  omega

/-- A packet is written one descriptor after another. -/
theorem TxKept.iteration {first cur bufCount : ℕ} (frag : BufInfo) (hs : TxKept N s q r)
    (hcall : s.call = .txLoop pkt first cur bufCount) :
    ∃ q', TxKept N (s.mvEthPortTxIteration N pkt first cur bufCount frag).2 q' r ∧
      q' ++ (s.mvEthPortTxIteration N pkt first cur bufCount frag).2.progress =
        q ++ slotsOf pkt := by
  obtain ⟨hqueued, hcalled⟩ := hs
  unfold TxRing.InCall at hcalled
  rw [hcall] at hcalled
  obtain ⟨hwriting, hcount, rfl⟩ := hcalled
  have hfits := hwriting.fits
  have hN : q.length + bufCount < N := by omega
  have hkeep : ∀ d : TxDesc, ∀ k < q.length,
      (s.setDesc (cell N s.used (q.length + bufCount)) d).desc (cell N s.used k) =
        s.desc (cell N s.used k) := by
    intro d k hk
    rw [desc_setDesc (by omega) hN, if_neg (by omega)]
  unfold mvEthPortTxIteration
  dsimp only
  by_cases hlast : bufCount + 1 ≥ pkt.frags.length
  · rw [if_pos hlast]
    by_cases hone : bufCount + 1 = 1
    · -- the only descriptor: the packet is handed over
      rw [if_pos hone]
      obtain rfl : bufCount = 0 := by omega
      have hlength : pkt.frags.length = 1 := by omega
      refine ⟨q ++ slotsOf pkt, ⟨?_, ?_, ?_, ?_⟩, List.append_nil _⟩
      · refine hqueued.handOver hfits rfl ?_ (hkeep _) ?_ ?_
        · rw [hlength, ← hwriting.first]
        · intro k slot hslot
          have hk := (List.getElem?_eq_some_iff.mp hslot).1
          rw [slotsOf_length, hlength] at hk
          obtain rfl : k = 0 := by omega
          rw [slotsOf_last (by omega)] at hslot
          obtain rfl := Option.some.inj hslot
          change ((s.setDesc _ _).desc _).Fills _
          rw [desc_setDesc hN hN, if_pos rfl]
          exact ⟨singleSts_last pkt, rfl⟩
        · intro k hk
          obtain rfl : k = 0 := by omega
          change ((s.setDesc _ _).desc _).owned = true
          rw [desc_setDesc hN hN, if_pos rfl]
          exact singleSts_owned pkt
      · exact hwriting.handed rfl rfl rfl rfl
      · exact hlength.symm
      · rw [List.length_append, slotsOf_length, hlength]
        rfl
    · rw [if_neg hone]
      refine ⟨q, ⟨hqueued.congr rfl rfl (hkeep _), ?_, ?_, ?_, ?_⟩, rfl⟩
      · refine hwriting.write hcount ?_ ?_ rfl rfl rfl rfl
        · rw [decide_eq_true (by omega : 0 < bufCount)]
          exact lastSts_owned
        · intro _ slot hslot
          rw [slotsOf_last (by omega)] at hslot
          obtain rfl := Option.some.inj hslot
          exact ⟨lastSts_last, rfl⟩
      · omega
      · omega
      · rw [← Nat.add_assoc, Nat.add_sub_cancel]
        rfl
  · rw [if_neg hlast]
    refine ⟨q, ⟨hqueued.congr rfl rfl (hkeep _), ?_, ?_, ?_⟩, rfl⟩
    · refine hwriting.write hcount ?_ ?_ rfl rfl rfl rfl
      · by_cases hmiddle : bufCount + 1 > 1
        · rw [if_pos hmiddle, decide_eq_true (by omega : 0 < bufCount)]
          exact txOwnedByDma_owned
        · rw [if_neg hmiddle, decide_eq_false (by omega : ¬ 0 < bufCount)]
          have hfree := hwriting.owned (q.length + bufCount) (by omega) hN
          rw [decide_eq_false (by omega)] at hfree
          exact hfree
      · intro hpos slot hslot
        rw [if_pos (by omega), slotsOf_none (by omega)] at *
        obtain rfl := Option.some.inj hslot
        exact txOwnedByDma_last
    · omega
    · rw [next_cell hqueued.used_lt hN]
      rfl

/-- The first one of several descriptors is written, and the packet is handed over. -/
theorem TxKept.first {first cur bufCount : ℕ} (hs : TxKept N s q r)
    (hcall : s.call = .txFirst pkt first cur bufCount) :
    TxKept N (s.mvEthPortTxFirst N pkt first cur bufCount).2 (q ++ slotsOf pkt) r := by
  obtain ⟨hqueued, hcalled⟩ := hs
  unfold TxRing.InCall at hcalled
  rw [hcall] at hcalled
  obtain ⟨hwriting, rfl, hmany, rfl⟩ := hcalled
  obtain rfl := hwriting.first
  have hfits := hwriting.fits
  have hdesc : ∀ k < N, (s.mvEthPortTxFirst N pkt (cell N s.used q.length)
      (cell N s.used (q.length + pkt.frags.length - 1)) pkt.frags.length).2.desc (cell N s.used k) =
        if k = q.length then { s.desc (cell N s.used q.length) with cmdSts := firstSts pkt }
        else s.desc (cell N s.used k) :=
    fun k hk => desc_setDesc hk (by omega)
  refine ⟨hqueued.handOver hfits rfl rfl ?_ ?_ ?_, hwriting.handed rfl rfl rfl rfl, rfl, ?_⟩
  · intro k hk
    rw [hdesc k (by omega), if_neg (by omega)]
  · intro k slot hslot
    have hk := (List.getElem?_eq_some_iff.mp hslot).1
    rw [slotsOf_length] at hk
    rw [hdesc _ (by omega)]
    by_cases hfirst : k = 0
    · subst hfirst
      rw [slotsOf_none (by omega)] at hslot
      obtain rfl := Option.some.inj hslot
      rw [if_pos (Nat.add_zero _)]
      exact firstSts_last pkt
    · rw [if_neg (by omega)]
      exact hwriting.fills k (by omega) hk slot hslot
  · intro k hk
    rw [hdesc _ (by omega)]
    by_cases hfirst : k = 0
    · subst hfirst
      rw [if_pos (Nat.add_zero _)]
      exact firstSts_owned pkt
    · rw [if_neg (by omega), hwriting.owned _ (by omega) (by omega)]
      simp only [decide_eq_true_eq]
      omega
  · rw [List.length_append, slotsOf_length]
    rfl

/-- The queue control is updated. -/
theorem TxKept.update {cur bufCount : ℕ} (hs : TxKept N s q r)
    (hcall : s.call = .txUpdate pkt cur bufCount) :
    TxKept N (s.mvEthPortTxUpdate N cur bufCount).2 q r := by
  obtain ⟨hqueued, hcalled⟩ := hs
  unfold TxRing.InCall at hcalled
  rw [hcall] at hcalled
  obtain ⟨⟨⟨q₀, rfl, hcurr, hresource⟩, hfree⟩, rfl, rfl⟩ := hcalled
  have hlength : (q₀ ++ slotsOf pkt).length = q₀.length + pkt.frags.length := by
    rw [List.length_append, slotsOf_length]
  have hpos := List.length_pos_iff.mpr pkt.frags_ne_nil
  have hlt := hqueued.length_lt
  refine ⟨hqueued.congr rfl rfl fun k _ => rfl, ?_, ?_, hfree⟩
  · change next N (cell N s.used ((q₀ ++ slotsOf pkt).length - 1)) = _
    rw [next_cell hqueued.used_lt (by omega), Nat.sub_add_cancel (by omega)]
    rfl
  · change s.resource - (pkt.frags.length : ℤ) = _
    rw [hresource, hlength]
    push_cast
    ring

/-- A descriptor is reclaimed, and the descriptors behind the queued ones stay free. -/
theorem TxRing.AtRest.pop {slot : Option (BitVec 32)} (hqueued : s.Queued N (slot :: q) r)
    (hs : s.AtRest N (slot :: q)) (hused : s'.used = next N s.used) (hcurr : s'.curr = s.curr)
    (hresource : s'.resource = s.resource + 1)
    (hfirst : (s'.desc s.used).owned = false)
    (hdesc : ∀ k, 0 < k → k < N → s'.desc (cell N s.used k) = s.desc (cell N s.used k)) :
    s'.AtRest N q := by
  have hlength := hqueued.length_lt
  rw [List.length_cons] at hlength
  have hcell : ∀ k, k < N → cell N s'.used k = cell N s.used (k + 1) := by
    intro k hk
    rw [hused, cell_next hqueued.used_lt hk]
  refine ⟨?_, ?_, ?_⟩
  · rw [hcurr, hs.curr, hcell _ (by omega), List.length_cons]
  · rw [hresource, hs.resource, List.length_cons]
    push_cast
    ring
  · intro k hk hkN
    rw [hcell k hkN]
    by_cases hround : k + 1 = N
    · rw [hround, cell_capacity]
      exact hfirst
    · rw [hdesc _ (by omega) (by omega)]
      exact hs.free (k + 1) (by rw [List.length_cons]; omega) (by omega)

/-- The queue is empty exactly when the two ends of the ring meet. -/
theorem TxRing.AtRest.empty_iff (hqueued : s.Queued N q r) (hs : s.AtRest N q) :
    s.used = s.curr ↔ q = [] := by
  have hlength := hqueued.length_lt
  rw [hs.curr, ← List.length_eq_zero_iff, eq_comm, cell_eq_head hqueued.used_lt (by omega)]
  omega

/-- `mvEthPortTx` starts to write a packet when there are enough free descriptors. -/
theorem TxKept.start (hs : TxKept N s q r) (hcall : s.call = .idle)
    (henough : ¬ s.resource < pkt.frags.length) :
    TxKept N { s with call := .txLoop pkt s.curr s.curr 0 } q r := by
  obtain ⟨hqueued, hcalled⟩ := hs
  rw [TxCall.Rests.inCall (.inl hcall)] at hcalled
  have hlt := hqueued.length_lt
  have hresource := hcalled.resource
  have hpos := List.length_pos_iff.mpr pkt.frags_ne_nil
  refine ⟨hqueued.congr rfl rfl fun k _ => rfl, ?_, hpos, hcalled.curr⟩
  refine ⟨by omega, hcalled.curr, hcalled.curr, hresource, Nat.zero_le _, ?_, ?_⟩
  · intro k _ hk
    omega
  · intro k hk hkN
    rw [decide_eq_false (by omega)]
    exact hcalled.free k hk hkN

/-- The call in progress may change as long as none that sends is in progress. -/
theorem TxKept.atRest {call : TxCall} (hqueued : s.Queued N q r) (hs : s.AtRest N q)
    (hcall : call.Rests) : TxKept N { s with call := call } q r := by
  refine ⟨hqueued.congr rfl rfl fun k _ => rfl, ?_⟩
  have hrest : AtRest N { s with call := call } q := ⟨hs.curr, hs.resource, hs.free⟩
  exact (TxCall.Rests.inCall hcall).mpr hrest

/-- The first queued descriptor, when the DMA has given it back. -/
theorem TxRing.Queued.head_released {slot : Option (BitVec 32)} (hs : s.Queued N (slot :: q) r)
    (howned : (s.desc s.used).owned = false) : r ≠ 0 := by
  have hfirst := hs.owned 0 (by simp)
  rw [cell_zero hs.used_lt, howned] at hfirst
  simpa using hfirst.symm

/-- The DMA has the first queued descriptor exactly when it has given none back. -/
theorem TxRing.Queued.head_mem_dma {slot : Option (BitVec 32)} (hs : s.Queued N (slot :: q) r) :
    s.used ∈ s.dma ↔ r = 0 := by
  have hlt := hs.length_lt
  have hle := hs.released_le
  rw [hs.dma, List.mem_map]
  constructor
  · rintro ⟨j, hj, hcell⟩
    rw [List.mem_range] at hj
    rw [cell_eq_head hs.used_lt (by omega)] at hcell
    omega
  · rintro rfl
    refine ⟨0, by simp, ?_⟩
    exact cell_zero hs.used_lt

/-- The slot of the first queued descriptor is read off its status. -/
theorem TxRing.Queued.head_slot {slot : Option (BitVec 32)} (hs : s.Queued N (slot :: q) r) :
    slot = if (s.desc s.used).cmdSts &&& txLastDescMask ≠ 0
      then some (s.desc s.used).returnInfo else none := by
  have hfills := hs.fills 0 slot rfl
  rw [cell_zero hs.used_lt] at hfills
  have hlast : (s.desc s.used).cmdSts &&& txLastDescMask ≠ 0 ↔ (s.desc s.used).last = true :=
    and_txBit_ne_zero (by decide) _
  cases slot with
  | none =>
    have hlast' : (s.desc s.used).last = false := hfills
    rw [if_neg (by rw [hlast, hlast']; simp)]
  | some osInfo => rw [if_pos (hlast.mpr hfills.1), hfills.2]

/-- The slots of the packet that an event starts to write. -/
def newSlots : TxEvent → TxAnswer → List (Option (BitVec 32))
  | .tx pkt, .started => slotsOf pkt
  | _, _ => []

/-- The descriptors that are queued with an answer. -/
def TxAnswer.queues : TxAnswer → ℕ
  | .sent bufCount => bufCount
  | _ => 0

/-- The descriptors that are reclaimed with an answer. -/
def TxAnswer.reclaims : TxAnswer → ℕ
  | .reclaimed | .done _ _ | .forced _ _ => 1
  | _ => 0

/-- The packets that come back with an answer. -/
def TxAnswer.returns : TxAnswer → List (BitVec 32)
  | .done _ osInfo => [osInfo]
  | .forced _ osInfo => [osInfo]
  | _ => []

/-- What an event does: descriptors go out at the front and come in at the end, `resource` follows
the answer, and a packet is done when the DMA does not have its last descriptor. -/
structure TxEffect (s : TxRing) (q : List (Option (BitVec 32))) (event : TxEvent)
    (answer : TxAnswer) (s' : TxRing) (q' out : List (Option (BitVec 32))) : Prop where
  slots : q ++ s.progress ++ newSlots event answer = out ++ (q' ++ s'.progress)
  length : out.length = answer.reclaims
  returns : out.reduceOption = answer.returns
  resource : s'.resource = s.resource - answer.queues + answer.reclaims
  done : ∀ status osInfo, answer = .done status osInfo → s.used ∉ s.dma
  unchanged : answer = .noResource → s' = s

variable {event : TxEvent} {answer : TxAnswer}

/-- An event that changes nothing of what is queued. -/
theorem TxEffect.none {q' : List (Option (BitVec 32))}
    (hslots : q ++ s.progress ++ newSlots event answer = q' ++ s'.progress)
    (hreclaims : answer.reclaims = 0) (hreturns : answer.returns = [])
    (hresource : s'.resource = s.resource - answer.queues)
    (hunchanged : answer = .noResource → s' = s) : TxEffect s q event answer s' q' [] := by
  refine ⟨hslots, hreclaims.symm, hreturns.symm, ?_, ?_, hunchanged⟩
  · rw [hresource, hreclaims]
    simp
  · rintro status osInfo rfl
    cases hreturns

/-- A call that reclaims goes on as long as there are queued descriptors. -/
theorem TxRing.AtRest.exists_slot (hN : 2 ≤ N) (hqueued : s.Queued N q r) (hs : s.AtRest N q)
    (hmore : s.used ≠ s.curr ∨ s.resource = 0) : ∃ slot q', q = slot :: q' := by
  cases q with
  | nil =>
    exfalso
    rcases hmore with hne | hzero
    · exact hne ((hs.empty_iff hqueued).mpr rfl)
    · have hresource := hs.resource
      rw [hzero] at hresource
      simp only [List.length_nil, Nat.cast_zero] at hresource
      omega
  | cons slot q' => exact ⟨slot, q', rfl⟩

/-- A descriptor is reclaimed, and a packet comes back with its last one. -/
theorem TxKept.reclaim {slot : Option (BitVec 32)} (hqueued : s.Queued N (slot :: q) r)
    (hrest : s.AtRest N (slot :: q)) (hcall : s.call.Rests) (hcall' : s'.call.Rests)
    (hused : s'.used = next N s.used) (hcurr : s'.curr = s.curr)
    (hresource : s'.resource = s.resource + 1)
    (hdma : s'.dma = if r = 0 then s.dma.tail else s.dma)
    (hfirst : (s'.desc s.used).owned = false)
    (hdesc : ∀ k, 0 < k → k < N → s'.desc (cell N s.used k) = s.desc (cell N s.used k))
    (hreclaims : answer.reclaims = 1) (hreturns : [slot].reduceOption = answer.returns)
    (hqueues : answer.queues = 0)
    (hdone : ∀ status osInfo, answer = .done status osInfo → r ≠ 0) :
    TxKept N s' q (r - 1) ∧ TxEffect s (slot :: q) .run answer s' q [slot] := by
  have hrest' := hrest.pop hqueued hused hcurr hresource hfirst hdesc
  refine ⟨⟨hqueued.pop hused hdma hdesc, hcall'.inCall.mpr hrest'⟩, ?_, ?_, hreturns, ?_, ?_, ?_⟩
  · rw [hcall.progress, hcall'.progress]
    simp [newSlots]
  · rw [hreclaims]
    rfl
  · rw [hresource, hreclaims, hqueues]
    simp
  · intro status osInfo hanswer
    rw [hqueued.head_mem_dma]
    exact hdone status osInfo hanswer
  · rintro rfl
    cases hreclaims

/-- A call that reclaims ends without a packet. -/
theorem TxKept.leave (hqueued : s.Queued N q r) (hrest : s.AtRest N q)
    (hcall : s.call.Rests) (hanswer : answer = .notFound ∨ answer = .empty) :
    TxKept N { s with call := .idle } q r ∧
      TxEffect s q .run answer { s with call := .idle } q [] := by
  refine ⟨TxKept.atRest hqueued hrest (.inl rfl), ?_⟩
  rcases hanswer with rfl | rfl
  · refine TxEffect.none ?_ rfl rfl (by simp [TxAnswer.queues]) fun h => by cases h
    rw [hcall.progress]
    simp [newSlots, TxRing.progress]
  · refine TxEffect.none ?_ rfl rfl (by simp [TxAnswer.queues]) fun h => by cases h
    rw [hcall.progress]
    simp [newSlots, TxRing.progress]

/-- An iteration of `mvEthPortTxDone`. -/
theorem TxKept.txDone (hN : 2 ≤ N) (hs : TxKept N s q r) (hcall : s.call = .txDone) :
    ∃ q' r' out, TxKept N (s.mvEthPortTxDone N).2 q' r' ∧
      TxEffect s q .run (s.mvEthPortTxDone N).1 (s.mvEthPortTxDone N).2 q' out := by
  have hrests : s.call.Rests := .inr (.inl hcall)
  obtain ⟨hqueued, hcalled⟩ := hs
  have hrest := hrests.inCall.mp hcalled
  have howned : (s.desc s.used).cmdSts &&& txOwnedByDma ≠ 0 ↔ (s.desc s.used).owned = true :=
    and_txBit_ne_zero (by decide) _
  unfold mvEthPortTxDone
  dsimp only
  by_cases hdma : (s.desc s.used).cmdSts &&& txOwnedByDma ≠ 0
  · rw [if_pos hdma]
    exact ⟨q, r, [], TxKept.leave hqueued hrest hrests (.inl rfl)⟩
  · rw [if_neg hdma]
    by_cases hempty : s.used = s.curr ∧ s.resource ≠ 0
    · rw [if_pos hempty]
      exact ⟨q, r, [], TxKept.leave hqueued hrest hrests (.inr rfl)⟩
    · rw [if_neg hempty]
      obtain ⟨slot, q, rfl⟩ := hrest.exists_slot hN hqueued (by tauto)
      rw [howned, Bool.not_eq_true] at hdma
      have hreleased := hqueued.head_released hdma
      have hslot := hqueued.head_slot
      by_cases hlast : (s.desc s.used).cmdSts &&& txLastDescMask ≠ 0
      · rw [if_pos hlast] at hslot ⊢
        refine ⟨q, r - 1, [slot], TxKept.reclaim hqueued hrest hrests (.inl rfl) rfl rfl rfl
          (if_neg hreleased).symm hdma (fun k _ _ => rfl) rfl ?_ rfl fun _ _ _ => hreleased⟩
        rw [hslot]
        rfl
      · rw [if_neg hlast] at hslot ⊢
        refine ⟨q, r - 1, [slot], TxKept.reclaim hqueued hrest hrests hrests rfl rfl rfl
          (if_neg hreleased).symm hdma (fun k _ _ => rfl) rfl ?_ rfl fun _ _ _ => hreleased⟩
        rw [hslot]
        rfl

/-- The DMA loses the first queued descriptor when it has it. -/
theorem TxRing.Queued.erase_head {slot : Option (BitVec 32)} (hs : s.Queued N (slot :: q) r) :
    s.dma.erase s.used = if r = 0 then s.dma.tail else s.dma := by
  by_cases hzero : r = 0
  · subst hzero
    have hdma := hs.dma
    rw [Nat.sub_zero, List.length_cons, List.range_succ_eq_map, List.map_cons, Nat.add_zero,
      cell_zero hs.used_lt] at hdma
    rw [if_pos rfl, hdma, List.erase_cons_head, List.tail_cons]
  · rw [if_neg hzero]
    apply List.erase_of_not_mem
    rw [hs.head_mem_dma]
    exact hzero

/-- An iteration of `mvEthPortForceTxDone`. -/
theorem TxKept.forceTxDone (hN : 2 ≤ N) (hs : TxKept N s q r) (hcall : s.call = .forceTxDone) :
    ∃ q' r' out, TxKept N (s.mvEthPortForceTxDone N).2 q' r' ∧
      TxEffect s q .run (s.mvEthPortForceTxDone N).1 (s.mvEthPortForceTxDone N).2 q' out := by
  have hrests : s.call.Rests := .inr (.inr hcall)
  obtain ⟨hqueued, hcalled⟩ := hs
  have hrest := hrests.inCall.mp hcalled
  unfold mvEthPortForceTxDone
  dsimp only
  by_cases hmore : s.used ≠ s.curr ∨ s.resource = 0
  · rw [if_pos hmore]
    obtain ⟨slot, q, rfl⟩ := hrest.exists_slot hN hqueued hmore
    have hslot := hqueued.head_slot
    have hcleared : (s.setDesc s.used { s.desc s.used with cmdSts := 0, returnInfo := 0 }).desc
        s.used = { s.desc s.used with cmdSts := 0, returnInfo := 0 } := by
      simp [setDesc]
    have hkeep : ∀ k, 0 < k → k < N →
        (s.setDesc s.used { s.desc s.used with cmdSts := 0, returnInfo := 0 }).desc
          (cell N s.used k) = s.desc (cell N s.used k) := by
      intro k hpos hk
      have hne : cell N s.used k ≠ s.used := by
        rw [Ne, cell_eq_head hqueued.used_lt (by omega)]
        omega
      simp [setDesc, hne]
    have hfree : ((s.setDesc s.used { s.desc s.used with cmdSts := 0, returnInfo := 0 }).desc
        s.used).owned = false := by
      rw [hcleared]
      simp [TxDesc.owned]
    by_cases hlast : (s.desc s.used).cmdSts &&& txLastDescMask ≠ 0
    · rw [if_pos hlast] at hslot ⊢
      refine ⟨q, r - 1, [slot], TxKept.reclaim hqueued hrest hrests (.inl rfl) rfl rfl rfl
        hqueued.erase_head hfree hkeep rfl ?_ rfl ?_⟩
      · rw [hslot]
        rfl
      · intro _ _ h
        cases h
    · rw [if_neg hlast] at hslot ⊢
      refine ⟨q, r - 1, [slot], TxKept.reclaim hqueued hrest hrests hrests rfl rfl rfl
        hqueued.erase_head hfree hkeep rfl ?_ rfl ?_⟩
      · rw [hslot]
        rfl
      · intro _ _ h
        cases h
  · rw [if_neg hmore]
    exact ⟨q, r, [], TxKept.leave hqueued hrest hrests (.inr rfl)⟩

/-- The DMA gives a descriptor back. -/
theorem TxKept.release {i : ℕ} {dma : List ℕ} {error : BitVec 32} (hs : TxKept N s q r)
    (hdma : s.dma = i :: dma) :
    TxKept N { s.setDesc i (releaseDesc (s.desc i) error) with dma := dma } q (r + 1) := by
  obtain ⟨hlt, rfl⟩ := hs.queued.dma_head hdma
  have hlength := hs.queued.length_lt
  refine ⟨hs.queued.release error hlt rfl (by rw [hdma]; rfl) ?_,
    hs.inCall.congr rfl rfl rfl rfl ?_⟩
  · intro k hk
    refine (desc_setDesc hk (by omega)).trans ?_
    split_ifs with hself
    · rw [hself]
    · rfl
  · intro k hk hkN
    refine (desc_setDesc hkN (by omega)).trans ?_
    rw [if_neg (by omega)]

/-- One event keeps the descriptors in order. -/
theorem txStep_kept (hN : 2 ≤ N) (hs : TxKept N s q r)
    (hstep : txStep N s event = some (answer, s')) :
    ∃ q' r' out, TxKept N s' q' r' ∧ TxEffect s q event answer s' q' out := by
  cases event with
  | tx pkt =>
    cases hcall : s.call with
    | idle =>
      have hrests : s.call.Rests := .inl hcall
      simp only [txStep, hcall, Option.some.injEq] at hstep
      unfold mvEthPortTx at hstep
      split_ifs at hstep with hless
      · obtain ⟨rfl, rfl⟩ := Prod.mk.inj hstep
        exact ⟨q, r, [], hs, TxEffect.none (by simp [newSlots]) rfl rfl
          (by simp [TxAnswer.queues]) fun _ => rfl⟩
      · obtain ⟨rfl, rfl⟩ := Prod.mk.inj hstep
        refine ⟨q, r, [], hs.start hcall hless, TxEffect.none ?_ rfl rfl
          (by simp [TxAnswer.queues]) fun h => by cases h⟩
        rw [hrests.progress]
        simp [newSlots, TxRing.progress]
    | _ => simp [txStep, hcall] at hstep
  | txDone =>
    cases hcall : s.call with
    | idle =>
      have hrest := (TxCall.Rests.inCall (.inl hcall)).mp hs.inCall
      simp only [txStep, hcall, Option.some.injEq] at hstep
      obtain ⟨rfl, rfl⟩ := Prod.mk.inj hstep
      refine ⟨q, r, [], TxKept.atRest hs.queued hrest (.inr (.inl rfl)), TxEffect.none ?_ rfl rfl
        (by simp [TxAnswer.queues]) fun h => by cases h⟩
      simp [newSlots, TxRing.progress, hcall]
    | _ => simp [txStep, hcall] at hstep
  | forceTxDone =>
    cases hcall : s.call with
    | idle =>
      have hrest := (TxCall.Rests.inCall (.inl hcall)).mp hs.inCall
      simp only [txStep, hcall, Option.some.injEq] at hstep
      obtain ⟨rfl, rfl⟩ := Prod.mk.inj hstep
      refine ⟨q, r, [], TxKept.atRest hs.queued hrest (.inr (.inr rfl)), TxEffect.none ?_ rfl rfl
        (by simp [TxAnswer.queues]) fun h => by cases h⟩
      simp [newSlots, TxRing.progress, hcall]
    | _ => simp [txStep, hcall] at hstep
  | run =>
    cases hcall : s.call with
    | idle => simp [txStep, hcall] at hstep
    | txLoop pkt first cur bufCount =>
      simp only [txStep, hcall, Option.map_eq_some_iff] at hstep
      obtain ⟨frag, -, hstep⟩ := hstep
      obtain ⟨q', hs', hslots⟩ := hs.iteration frag hcall
      have hanswer : (s.mvEthPortTxIteration N pkt first cur bufCount frag).1 = .running := by
        unfold mvEthPortTxIteration
        dsimp only
        split_ifs <;> rfl
      have hresource : (s.mvEthPortTxIteration N pkt first cur bufCount frag).2.resource =
          s.resource := by
        unfold mvEthPortTxIteration
        dsimp only
        split_ifs <;> rfl
      rw [hstep] at hs' hslots hanswer hresource
      obtain rfl : answer = .running := hanswer
      refine ⟨q', r, [], hs', TxEffect.none ?_ rfl rfl (by simpa [TxAnswer.queues] using hresource)
        fun h => by cases h⟩
      rw [hslots]
      simp [newSlots, TxRing.progress, hcall]
    | txFirst pkt first cur bufCount =>
      simp only [txStep, hcall, Option.some.injEq] at hstep
      have hs' := hs.first hcall
      obtain ⟨rfl, rfl⟩ := Prod.mk.inj hstep
      refine ⟨_, r, [], hs', TxEffect.none ?_ rfl rfl
        (by simp [TxAnswer.queues, setDesc]) fun h => by cases h⟩
      simp [newSlots, TxRing.progress, hcall]
    | txUpdate pkt cur bufCount =>
      simp only [txStep, hcall, Option.some.injEq] at hstep
      have hs' := hs.update hcall
      obtain ⟨rfl, rfl⟩ := Prod.mk.inj hstep
      refine ⟨_, r, [], hs', TxEffect.none ?_ rfl rfl rfl fun h => by cases h⟩
      simp [newSlots, TxRing.progress, hcall]
    | txDone =>
      simp only [txStep, hcall, Option.some.injEq] at hstep
      have hs' := hs.txDone hN hcall
      rwa [hstep] at hs'
    | forceTxDone =>
      simp only [txStep, hcall, Option.some.injEq] at hstep
      have hs' := hs.forceTxDone hN hcall
      rwa [hstep] at hs'
  | release error =>
    cases hdma : s.dma with
    | nil => simp [txStep, hdma] at hstep
    | cons i dma =>
      simp only [txStep, hdma, Option.some.injEq] at hstep
      obtain ⟨rfl, rfl⟩ := Prod.mk.inj hstep
      refine ⟨q, r + 1, [], hs.release hdma, TxEffect.none ?_ rfl rfl
        (by simp [TxAnswer.queues, setDesc]) fun h => by cases h⟩
      simp [newSlots, TxRing.progress, setDesc]

/-- Only the calls that reclaim answer that there is no packet. -/
theorem txStep_ends (hstep : txStep N s event = some (answer, s'))
    (hanswer : answer = .notFound ∨ answer = .empty) :
    s.call = .txDone ∧ s.mvEthPortTxDone N = (answer, s') ∨
      s.call = .forceTxDone ∧ s.mvEthPortForceTxDone N = (answer, s') := by
  have hrunning : answer ≠ .running := by rintro rfl; simp at hanswer
  cases event with
  | run =>
    cases hcall : s.call with
    | idle => simp [txStep, hcall] at hstep
    | txDone => exact .inl ⟨rfl, by simpa [txStep, hcall] using hstep⟩
    | forceTxDone => exact .inr ⟨rfl, by simpa [txStep, hcall] using hstep⟩
    | txLoop pkt first cur bufCount =>
      simp only [txStep, hcall, Option.map_eq_some_iff] at hstep
      obtain ⟨frag, -, hstep⟩ := hstep
      unfold mvEthPortTxIteration at hstep
      dsimp only at hstep
      split_ifs at hstep
      all_goals exact absurd (Prod.mk.inj hstep).1.symm hrunning
    | txFirst pkt first cur bufCount =>
      simp only [txStep, hcall, Option.some.injEq] at hstep
      exact absurd (Prod.mk.inj hstep).1.symm hrunning
    | txUpdate pkt cur bufCount =>
      simp only [txStep, hcall, Option.some.injEq] at hstep
      obtain ⟨rfl, -⟩ := Prod.mk.inj hstep
      simp at hanswer
  | tx pkt =>
    cases hcall : s.call with
    | idle =>
      simp only [txStep, hcall, Option.some.injEq] at hstep
      unfold mvEthPortTx at hstep
      split_ifs at hstep
      all_goals
        obtain ⟨rfl, -⟩ := Prod.mk.inj hstep
        simp at hanswer
    | _ => simp [txStep, hcall] at hstep
  | release error =>
    cases hdma : s.dma with
    | nil => simp [txStep, hdma] at hstep
    | cons i dma =>
      simp only [txStep, hdma, Option.some.injEq] at hstep
      obtain ⟨rfl, -⟩ := Prod.mk.inj hstep
      simp at hanswer
  | _ =>
    cases hcall : s.call with
    | idle =>
      simp only [txStep, hcall, Option.some.injEq] at hstep
      exact absurd (Prod.mk.inj hstep).1.symm hrunning
    | _ => simp [txStep, hcall] at hstep

/-- The DMA owns the first descriptor only when it has it, and has given none back. -/
theorem TxRing.AtRest.head_owned (hqueued : s.Queued N q r) (hs : s.AtRest N q)
    (howned : (s.desc s.used).owned = true) : r = 0 ∧ s.used ∈ s.dma := by
  cases q with
  | nil =>
    have hfree := hs.free 0 (Nat.zero_le _)
      (Nat.lt_of_le_of_lt (Nat.zero_le _) hqueued.used_lt)
    rw [cell_zero hqueued.used_lt, howned] at hfree
    cases hfree
  | cons slot q =>
    have hfirst := hqueued.owned 0 (by simp)
    rw [cell_zero hqueued.used_lt, howned] at hfirst
    have hzero : r = 0 := Nat.le_zero.mp (of_decide_eq_true hfirst.symm)
    exact ⟨hzero, hqueued.head_mem_dma.mpr hzero⟩

/-- There is no packet to be found while the DMA has the first queued descriptor. -/
theorem TxKept.notFound (hs : TxKept N s q r) (hstep : txStep N s event = some (.notFound, s')) :
    s.used ∈ s.dma := by
  obtain ⟨hcall, hdone⟩ | ⟨-, hforce⟩ := txStep_ends hstep (.inl rfl)
  · obtain ⟨hqueued, hcalled⟩ := hs
    have hrest := (TxCall.Rests.inCall (.inr (.inl hcall))).mp hcalled
    have howned : (s.desc s.used).owned = true := by
      unfold mvEthPortTxDone at hdone
      dsimp only at hdone
      split_ifs at hdone with hdma
      · exact (and_txBit_ne_zero (by decide) _).mp hdma
      all_goals cases hdone
    exact (hrest.head_owned hqueued howned).2
  · unfold mvEthPortForceTxDone at hforce
    dsimp only at hforce
    split_ifs at hforce
    all_goals cases hforce

/-- The ring is empty where nothing is queued and no packet is being written. -/
theorem TxKept.empty (hs : TxKept N s q r) (hstep : txStep N s event = some (.empty, s')) :
    q ++ s.progress = [] := by
  have hends := txStep_ends hstep (.inr rfl)
  have hrests : s.call.Rests := .inr (hends.imp And.left And.left)
  have hmeet : s.used = s.curr := by
    obtain ⟨-, hdone⟩ | ⟨-, hforce⟩ := hends
    · unfold mvEthPortTxDone at hdone
      dsimp only at hdone
      split_ifs at hdone with hdma hempty
      · cases hdone
      · exact hempty.1
      all_goals cases hdone
    · unfold mvEthPortForceTxDone at hforce
      dsimp only at hforce
      split_ifs at hforce with hmore
      · cases hforce
      · cases hforce
      · by_contra hne
        exact hmore (.inl hne)
  have hrest := hrests.inCall.mp hs.inCall
  rw [(hrest.empty_iff hs.queued).mp hmeet, hrests.progress]
  rfl

/-- The slots of all packets that were accepted, oldest first. -/
def txSlots (trace : List (TxEvent × TxAnswer)) : List (Option (BitVec 32)) :=
  trace.flatMap fun p => newSlots p.1 p.2

/-- The packets that were accepted, oldest first. -/
def txSent (trace : List (TxEvent × TxAnswer)) : List (BitVec 32) :=
  trace.flatMap fun
    | (.tx pkt, .started) => [pkt.osInfo]
    | _ => []

/-- The number of descriptors that were queued. -/
def txQueued (trace : List (TxEvent × TxAnswer)) : ℕ := (trace.map fun p => p.2.queues).sum

/-- The number of descriptors that were reclaimed. -/
def txReclaimed (trace : List (TxEvent × TxAnswer)) : ℕ := (trace.map fun p => p.2.reclaims).sum

/-- The packets that came back, oldest first. -/
def txReturned (trace : List (TxEvent × TxAnswer)) : List (BitVec 32) :=
  trace.flatMap fun p => p.2.returns

/-- The descriptors that are not reclaimed, from `used` on, with those of the packet that is being
written. -/
def txPending (trace : List (TxEvent × TxAnswer)) : List (Option (BitVec 32)) :=
  (txSlots trace).drop (txReclaimed trace)

/-- A position begins a packet: it is the first one, or it is behind the last descriptor of a
packet. -/
def Begins (slots : List (Option (BitVec 32))) (a : ℕ) : Prop :=
  a = 0 ∨ ∃ osInfo, slots[a - 1]? = some (some osInfo)

/-- No first descriptor of a packet is owned by the DMA while a later one of it is not. -/
def OwnedInOrder (N : ℕ) (s : TxRing) (slots : List (Option (BitVec 32))) : Prop :=
  ∀ a j, a ≤ j → j < slots.length → Begins slots a →
    (∀ k, a ≤ k → k < j → slots[k]? = some none) →
    (s.desc (cell N s.used a)).owned = true → (s.desc (cell N s.used j)).owned = true

variable {trace : List (TxEvent × TxAnswer)}

/-- The packets of the slots are those that were accepted. -/
theorem txSlots_reduceOption (trace : List (TxEvent × TxAnswer)) :
    (txSlots trace).reduceOption = txSent trace := by
  induction trace with
  | nil => rfl
  | cons p trace ih =>
    obtain ⟨event, answer⟩ := p
    unfold txSlots txSent at ih ⊢
    rw [List.flatMap_cons, List.flatMap_cons, List.reduceOption_append, ih]
    congr 1
    cases event with
    | tx pkt =>
      cases answer with
      | started => exact slotsOf_reduceOption pkt
      | _ => rfl
    | _ => rfl

/-- The packet that is being written is not among the queued ones, and its descriptors fit behind
them. -/
theorem TxKept.progress_cases (hs : TxKept N s q r) :
    s.progress = [] ∨ ∃ pkt first written, s.progress = slotsOf pkt ∧
      s.Writing N q pkt first written := by
  have hcalled := hs.inCall
  unfold TxRing.InCall at hcalled
  unfold TxRing.progress
  cases hcall : s.call with
  | txLoop pkt first cur bufCount =>
    rw [hcall] at hcalled
    exact .inr ⟨pkt, first, bufCount, rfl, hcalled.1⟩
  | txFirst pkt first cur bufCount =>
    rw [hcall] at hcalled
    exact .inr ⟨pkt, first, bufCount, rfl, hcalled.1⟩
  | _ => exact .inl rfl

/-- A packet that begins behind the queued ones begins right behind them. -/
theorem Begins.eq_length {a : ℕ} (hbegins : Begins (q ++ slotsOf pkt) a) (hle : q.length ≤ a)
    (hlt : a < q.length + pkt.frags.length) : a = q.length := by
  rcases hbegins with rfl | ⟨osInfo, hslot⟩
  · omega
  · by_contra hne
    rw [List.getElem?_append_right (by omega), slotsOf_none (by omega)] at hslot
    cases hslot

/-- The descriptors are owned by the DMA in order. -/
theorem TxKept.ownedInOrder (hs : TxKept N s q r) : OwnedInOrder N s (q ++ s.progress) := by
  intro a j haj hj hbegins hmiddle howned
  by_cases hold : j < q.length
  · -- a queued packet: the DMA gives its descriptors back from the first one on
    rw [hs.queued.owned a (by omega), decide_eq_true_eq] at howned
    rw [hs.queued.owned j hold, decide_eq_true_eq]
    omega
  · rcases hs.progress_cases with hnone | ⟨pkt, first, written, hpkt, hwriting⟩
    · rw [hnone, List.append_nil] at hj
      exact absurd hj hold
    · rw [hpkt] at hj hbegins hmiddle
      rw [List.length_append, slotsOf_length] at hj
      have hfits := hwriting.fits
      have hle : q.length ≤ a := by
        by_contra hlt
        have hslot := hmiddle (q.length - 1) (by omega) (by omega)
        rw [List.getElem?_append_left (by omega), ← List.getLast?_eq_getElem?] at hslot
        have hsome := hs.queued.ends none hslot
        cases hsome
      -- the first descriptor of the packet that is being written is not owned
      obtain rfl := hbegins.eq_length hle (by omega)
      rw [hwriting.owned _ le_rfl (by omega), decide_eq_true_eq] at howned
      omega

/-- The descriptor that is being written is not with the DMA. -/
theorem TxKept.cur_not_mem_dma {first cur bufCount : ℕ} (hs : TxKept N s q r)
    (hcall : s.call = .txLoop pkt first cur bufCount) : cur ∉ s.dma := by
  have hcalled := hs.inCall
  unfold TxRing.InCall at hcalled
  rw [hcall] at hcalled
  obtain ⟨hwriting, hcount, rfl⟩ := hcalled
  have hfits := hwriting.fits
  have hle := hs.queued.released_le
  rw [hs.queued.dma, List.mem_map]
  rintro ⟨j, hj, hcell⟩
  rw [List.mem_range] at hj
  rw [cell_inj (by omega) (by omega)] at hcell
  omega

/-- The free descriptors are counted by `resource`, and there are never fewer than none. -/
theorem TxKept.resource_nonneg (hs : TxKept N s q r) : 0 ≤ s.resource := by
  have hlt := hs.queued.length_lt
  have hcalled := hs.inCall
  unfold TxRing.InCall at hcalled
  cases hcall : s.call with
  | idle | txDone | forceTxDone =>
    rw [hcall] at hcalled
    have hresource := hcalled.resource
    omega
  | txLoop pkt first cur bufCount =>
    rw [hcall] at hcalled
    have hresource := hcalled.1.resource
    omega
  | txFirst pkt first cur bufCount =>
    rw [hcall] at hcalled
    have hresource := hcalled.1.resource
    omega
  | txUpdate pkt cur bufCount =>
    rw [hcall] at hcalled
    obtain ⟨⟨⟨q₀, rfl, -, hresource⟩, -⟩, -⟩ := hcalled
    rw [List.length_append] at hlt
    omega

/-- The ring as it is initialised. -/
theorem txKept_init (hN : 2 ≤ N) : TxKept N (ethInitTxDescRing N) [] 0 := by
  refine ⟨⟨by simp [ethInitTxDescRing]; omega, by simp; omega, le_rfl, ?_, ?_, rfl, ?_⟩, ?_, ?_, ?_⟩
  · intro k slot hk
    cases hk
  · intro k hk
    cases hk
  · intro slot hslot
    cases hslot
  · exact (cell_zero (by simp [ethInitTxDescRing]; omega)).symm
  · simp [ethInitTxDescRing]
  · intro k _ _
    simp [ethInitTxDescRing, TxDesc.owned]

/-- What a run keeps, with the trace. -/
structure TxTraced (N : ℕ) (trace : List (TxEvent × TxAnswer)) (s : TxRing)
    (q : List (Option (BitVec 32))) (r : ℕ) (out : List (Option (BitVec 32))) : Prop where
  kept : TxKept N s q r
  slots : txSlots trace = out ++ (q ++ s.progress)
  length : out.length = txReclaimed trace
  returned : out.reduceOption = txReturned trace
  resource : s.resource = N - 1 - (txQueued trace - txReclaimed trace)

theorem TxTraced.next {out out' q' : List (Option (BitVec 32))} {r' : ℕ}
    (hs : TxTraced N trace s q r out) (hkept : TxKept N s' q' r')
    (heffect : TxEffect s q event answer s' q' out') :
    TxTraced N (trace ++ [(event, answer)]) s' q' r' (out ++ out') := by
  refine ⟨hkept, ?_, ?_, ?_, ?_⟩
  · have hslots := hs.slots
    unfold txSlots at hslots ⊢
    rw [List.flatMap_append, hslots, List.flatMap_singleton, List.append_assoc, heffect.slots,
      List.append_assoc]
  · have hlength := hs.length
    unfold txReclaimed at hlength ⊢
    rw [List.length_append, hlength, heffect.length]
    simp
  · have hreturned := hs.returned
    unfold txReturned at hreturned ⊢
    rw [List.reduceOption_append, hreturned, heffect.returns]
    simp
  · have hresource := hs.resource
    unfold txReclaimed txQueued at hresource ⊢
    rw [heffect.resource, hresource]
    simp only [List.map_append, List.map_cons, List.map_nil, List.sum_append, List.sum_cons,
      List.sum_nil]
    push_cast
    ring

theorem txRun_traced (hN : 2 ≤ N)
    (hrun : Run (txStep N) (fun _ _ => True) (ethInitTxDescRing N) trace s) :
    ∃ q r out, TxTraced N trace s q r out := by
  refine Run.invariant (I := fun trace s => ∃ q r out, TxTraced N trace s q r out) ?_ ?_ hrun
  · refine ⟨[], 0, [], txKept_init hN, rfl, rfl, rfl, ?_⟩
    simp [ethInitTxDescRing, txQueued, txReclaimed]
  · rintro trace s event answer s' ⟨q, r, out, hs⟩ - hstep
    obtain ⟨q', r', out', hkept, heffect⟩ := txStep_kept hN hs.kept hstep
    exact ⟨q', r', out ++ out', hs.next hkept heffect⟩

/-- The transmit ring. In every run `resource` is one less than the size of the ring, without the
descriptors queued and not reclaimed, and it is not negative; the descriptors that are pending fit
the ring, and none that the DMA has is written to. The packets that have come back are those whose
last descriptor is reclaimed, each once and in the order they were sent. `mvEthPortTxDone` returns a
packet only when the DMA does not have its last descriptor; it finds none only when the DMA has the
first descriptor that is queued, and it says that the ring is empty only when nothing is pending. A
packet that is refused leaves the ring as it is. The first descriptor of a packet is never owned by
the DMA while a later one of it is not. -/
theorem txRun_ring (hN : 2 ≤ N)
    (hrun : Run (txStep N) (fun _ _ => True) (ethInitTxDescRing N) trace s) :
    s.resource = N - 1 - (txQueued trace - txReclaimed trace) ∧ 0 ≤ s.resource ∧
      (txPending trace).length < N ∧
      (∀ pkt first cur bufCount, s.call = .txLoop pkt first cur bufCount → cur ∉ s.dma) ∧
      txReturned trace = ((txSlots trace).take (txReclaimed trace)).reduceOption ∧
      txReturned trace <+: txSent trace ∧
      (∀ event answer s', txStep N s event = some (answer, s') →
        (∀ status osInfo, answer = .done status osInfo → s.used ∉ s.dma) ∧
          (answer = .notFound → s.used ∈ s.dma) ∧ (answer = .empty → txPending trace = []) ∧
            (answer = .noResource → s' = s)) ∧
      OwnedInOrder N s (txPending trace) := by
  obtain ⟨q, r, out, hs⟩ := txRun_traced hN hrun
  have hslots := hs.slots
  have hpending : txPending trace = q ++ s.progress := by
    unfold txPending
    rw [hslots, ← hs.length, List.drop_left]
  refine ⟨hs.resource, hs.kept.resource_nonneg, ?_, ?_, ?_, ?_, ?_, ?_⟩
  · rw [hpending, List.length_append]
    rcases hs.kept.progress_cases with hnone | ⟨pkt, first, written, hpkt, hwriting⟩
    · rw [hnone]
      exact hs.kept.queued.length_lt
    · rw [hpkt, slotsOf_length]
      exact hwriting.fits
  · intro pkt first cur bufCount hcall
    exact hs.kept.cur_not_mem_dma hcall
  · rw [hslots, ← hs.length, List.take_left, hs.returned]
  · rw [← txSlots_reduceOption, hslots, List.reduceOption_append, hs.returned]
    exact List.prefix_append _ _
  · intro event answer s' hstep
    obtain ⟨q', r', out', -, heffect⟩ := txStep_kept hN hs.kept hstep
    refine ⟨heffect.done, ?_, ?_, heffect.unchanged⟩
    · rintro rfl
      exact hs.kept.notFound hstep
    · rintro rfl
      rw [hpending]
      exact hs.kept.empty hstep
  · rw [hpending]
    exact hs.kept.ownedInOrder

/-- A ring of three descriptors: a packet of two fragments is sent, a second one is refused, and the
first one comes back after the DMA has given its descriptors back. -/
theorem txRun_ring_three :
    ∃ trace s, Run (txStep 3) (fun _ _ => True) (ethInitTxDescRing 3) trace s ∧
      txReturned trace = [7] ∧ s.resource = 2 ∧ OwnedInOrder 3 s (txPending trace) := by
  obtain ⟨trace, s, hrun, hreturned, hresource⟩ : ∃ trace s,
      Run (txStep 3) (fun _ _ => True) (ethInitTxDescRing 3) trace s ∧ txReturned trace = [7] ∧
        s.resource = 2 := by
    refine ⟨_, _, Run.of_exec [.tx ⟨7, 0, [⟨0, 64⟩, ⟨64, 4⟩], by decide, by decide⟩,
      .run, .run, .run,
      .run, .tx ⟨8, 0, [⟨0, 64⟩], by decide, by decide⟩, .txDone, .run, .release 0, .release 0,
      .txDone, .run, .run] rfl, ?_, ?_⟩
    · rfl
    · rfl
  obtain ⟨-, -, -, -, -, -, -, hordered⟩ := txRun_ring (by decide) hrun
  exact ⟨trace, s, hrun, hreturned, hresource, hordered⟩

end Mv88fxx81.Eth
