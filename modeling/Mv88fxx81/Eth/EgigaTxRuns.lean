import Mv88fxx81.Eth.EgigaTxRing

/-!
# Back-pressure on the transmit queue

The queue of the interface should be stopped before the ring is too full for the largest
packet, and not be started again before there is room for it. That is so as long as no
packet is sent with fewer free descriptors left than it has page fragments, and no wake of
a stopped queue finds less room than for the largest packet.
-/

namespace Mv88fxx81.Eth

open RingIndex TransitionSystem TxRing

variable {N r fuel : ℕ} {s s' : EgigaTx} {q : List (Option (BitVec 32))} {skb : Skb}
  {event : EgigaTxEvent} {answer : EgigaTxAnswer}

/-! ### The property and its condition -/

/-- The descriptors in use that the DMA has given back, from `used` on. -/
def TxRing.givenBack (N : ℕ) (s : TxRing) : List TxDesc :=
  (List.range ((N - 1 - s.resource).toNat - s.dma.length)).map fun k => s.desc (cell N s.used k)

/-- One of the descriptors in use ends a packet. -/
def TxRing.HoldsPacket (N : ℕ) (s : TxRing) : Prop :=
  ∃ k < (N - 1 - s.resource).toNat, (s.desc (cell N s.used k)).last = true

/-- What the back-pressure has to achieve. -/
structure BackPressure (N : ℕ) (s : EgigaTx) : Prop where
  /-- There is room for the largest packet while the queue is not stopped. -/
  room : s.stopped = false → s.carrier = true → (MAX_SKB_FRAGS + 1 : ℤ) ≤ s.ring.resource
  /-- A stopped queue has a packet in the ring, whose end will start it again. -/
  packet : s.stopped = true → s.carrier = true → s.ring.HoldsPacket N

/-- The condition on an event. -/
def KeepsRoom (N : ℕ) (s : EgigaTx) : EgigaTxEvent → Prop
  /- after the packet there are as many free descriptors as it has page fragments -/
  | .tx skb => s.stopped = false → (2 * skb.frags.length + 1 : ℤ) ≤ s.ring.resource
  /- the end of a packet that starts the queue leaves room for the largest one -/
  | .txDone => s.stopped = true → (∃ d ∈ s.ring.givenBack N, d.last = true) →
    (MAX_SKB_FRAGS + 1 : ℤ) ≤ s.ring.resource + (s.ring.givenBack N).length
  /- the link comes up when there is room for the largest packet -/
  | .phy anDone => anDone = true → s.stopped = true →
    (MAX_SKB_FRAGS + 1 : ℤ) ≤ s.ring.resource
  | .release _ => True

instance (N : ℕ) (s : EgigaTx) : (event : EgigaTxEvent) → Decidable (KeepsRoom N s event)
  | .tx _ => inferInstanceAs (Decidable (s.stopped = false → (_ : ℤ) ≤ _))
  | .txDone => inferInstanceAs (Decidable (s.stopped = true → _ → (_ : ℤ) ≤ _))
  | .phy anDone => inferInstanceAs (Decidable (anDone = true → s.stopped = true → (_ : ℤ) ≤ _))
  | .release _ => inferInstanceAs (Decidable True)

/-- What every event keeps, whether or not it meets the condition: the slots of the ring
belong to packets of the stack. -/
structure EgigaTxKept (N : ℕ) (s : EgigaTx) (q : List (Option (BitVec 32))) (r : ℕ) : Prop where
  kept : TxKept N s.ring q r
  idle : s.ring.call = .idle
  skbs : ∀ slot ∈ q, slot ≠ some 0
  iffUp : s.iffUp = true

/-- What the events keep that meet the condition. -/
structure Roomy (s : EgigaTx) (q : List (Option (BitVec 32))) : Prop where
  room : s.stopped = false → (MAX_SKB_FRAGS + 1 : ℤ) ≤ s.ring.resource
  packet : s.stopped = true → s.carrier = true → q ≠ []
  down : s.carrier = false → s.stopped = true ∧ q = []

/-! ### The slots of the ring -/

/-- The free descriptors. -/
theorem EgigaTxKept.resource (hs : EgigaTxKept N s q r) :
    s.ring.resource = N - 1 - q.length ∧ q.length < N :=
  ⟨(hs.kept.atRest_of_idle hs.idle).resource, hs.kept.queued.length_lt⟩

/-- The descriptors that the DMA has given back are those of the first slots. -/
theorem EgigaTxKept.givenBack_length (hs : EgigaTxKept N s q r) :
    (s.ring.givenBack N).length = r := by
  have hdma := hs.kept.queued.dma_length
  have hreleased := hs.kept.queued.released_le
  obtain ⟨hresource, hlength⟩ := hs.resource
  unfold TxRing.givenBack
  rw [List.length_map, List.length_range, hdma, hresource]
  omega

/-- A descriptor ends a packet if its slot carries one. -/
theorem EgigaTxKept.last_iff (hs : EgigaTxKept N s q r) {k : ℕ} {slot : Option (BitVec 32)}
    (hslot : q[k]? = some slot) :
    (s.ring.desc (cell N s.ring.used k)).last = true ↔ ∃ osInfo, slot = some osInfo := by
  have hfills := hs.kept.queued.fills k slot hslot
  cases slot with
  | none =>
    have hno : (s.ring.desc (cell N s.ring.used k)).last = false := hfills
    simp [hno]
  | some osInfo =>
    have hyes : (s.ring.desc (cell N s.ring.used k)).last = true := hfills.1
    simp [hyes]

/-- A packet has been transmitted if one of the descriptors that were given back ends one. -/
theorem EgigaTxKept.exists_last_iff (hs : EgigaTxKept N s q r) :
    (∃ d ∈ s.ring.givenBack N, d.last = true) ↔ ∃ k < r, ∃ osInfo, q[k]? = some (some osInfo) := by
  have hlength := hs.givenBack_length
  have hreleased := hs.kept.queued.released_le
  unfold TxRing.givenBack at hlength ⊢
  rw [List.length_map, List.length_range] at hlength
  rw [hlength]
  constructor
  · rintro ⟨d, hd, hlast⟩
    obtain ⟨k, hk, rfl⟩ := List.mem_map.mp hd
    rw [List.mem_range] at hk
    have hslot := List.getElem?_eq_getElem (l := q) (i := k) (by omega)
    obtain ⟨osInfo, hsome⟩ := (hs.last_iff hslot).mp hlast
    exact ⟨k, hk, osInfo, by rw [hslot, hsome]⟩
  · rintro ⟨k, hk, osInfo, hslot⟩
    exact ⟨_, List.mem_map.mpr ⟨k, List.mem_range.mpr hk, rfl⟩,
      (hs.last_iff hslot).mpr ⟨osInfo, rfl⟩⟩

/-- A ring with queued slots holds a packet. -/
theorem EgigaTxKept.holdsPacket (hs : EgigaTxKept N s q r) (hq : q ≠ []) :
    s.ring.HoldsPacket N := by
  obtain ⟨hresource, hlength⟩ := hs.resource
  have hpos := List.length_pos_iff.mpr hq
  have hlast : q[q.length - 1]? = some (q.getLast hq) := by
    rw [← List.getLast?_eq_getElem?, List.getLast?_eq_some_getLast hq]
  have hsome := hs.kept.queued.ends _ (List.getLast?_eq_some_getLast hq)
  obtain ⟨osInfo, hosInfo⟩ := Option.isSome_iff_exists.mp hsome
  refine ⟨q.length - 1, by omega, (hs.last_iff hlast).mpr ⟨osInfo, hosInfo⟩⟩

/-- The property, from what is kept. -/
theorem EgigaTxKept.backPressure (hs : EgigaTxKept N s q r) (hroomy : Roomy s q) :
    BackPressure N s :=
  ⟨fun hstopped _ => hroomy.room hstopped,
    fun hstopped hcarrier => hs.holdsPacket (hroomy.packet hstopped hcarrier)⟩

/-! ### Sending -/

/-- The queue is stopped when the free descriptors less the page fragments are at most
`MAX_SKB_FRAGS`, but not when there are fewer of them than page fragments. -/
theorem stopIfFull_eq {free : ℕ} (hfree : s.ring.resource = free) (hlt : free < 2 ^ 31) :
    s.stopIfFull skb = { s with
      stopped := s.stopped || decide (skb.frags.length ≤ free ∧
        free ≤ skb.frags.length + MAX_SKB_FRAGS) } := by
  have hfrags := skb.frags_le
  unfold MAX_SKB_FRAGS at hfrags
  have hdifference : (BitVec.ofInt 32 s.ring.resource - BitVec.ofNat 32 skb.frags.length).toNat =
      (2 ^ 32 - skb.frags.length + free) % 2 ^ 32 := by
    rw [hfree, BitVec.toNat_sub, BitVec.ofInt_natCast, BitVec.toNat_ofNat, BitVec.toNat_ofNat]
    omega
  unfold EgigaTx.stopIfFull
  rw [hdifference]
  by_cases hfull : skb.frags.length ≤ free ∧ free ≤ skb.frags.length + MAX_SKB_FRAGS
  · unfold MAX_SKB_FRAGS at hfull ⊢
    rw [if_pos (by omega), decide_eq_true hfull, Bool.or_true]
  · unfold MAX_SKB_FRAGS at hfull ⊢
    rw [if_neg (by omega), decide_eq_false hfull, Bool.or_false]

/-- `egiga_tx` does nothing while the queue is stopped. -/
theorem egigaTx_stopped (hstopped : s.stopped = true) :
    s.egigaTx N skb = (.whileStopped, s) :=
  if_pos hstopped

/-- `egiga_tx` sends a packet that the ring has room for. -/
theorem EgigaTxKept.egigaTx_sent (hs : EgigaTxKept N s q r) (skb : Skb) (hlt : N < 2 ^ 31)
    (hstopped : s.stopped = false) (henough : (skb.frags.length + 1 : ℤ) ≤ s.ring.resource) :
    (s.egigaTx N skb).1 = .sent ∧
      EgigaTxKept N (s.egigaTx N skb).2 (q ++ slotsOf (txPktInfo skb)) r ∧
      (s.egigaTx N skb).2.carrier = s.carrier ∧
      (s.egigaTx N skb).2.ring.resource = s.ring.resource - (skb.frags.length + 1) ∧
      ((s.egigaTx N skb).2.stopped = true ↔
        (skb.frags.length : ℤ) ≤ (s.egigaTx N skb).2.ring.resource ∧
          (s.egigaTx N skb).2.ring.resource ≤ skb.frags.length + MAX_SKB_FRAGS) := by
  obtain ⟨hresource, hlength⟩ := hs.resource
  have hfrags : (txPktInfo skb).frags.length = skb.frags.length + 1 := List.length_cons
  have hsent : SentBy N s.ring (q ++ slotsOf (txPktInfo skb)) r (txPktInfo skb).frags.length
      (ringCall N (.tx (txPktInfo skb)) s.ring) :=
    ringCall_tx_sent hs.kept hs.idle (by rw [hfrags]; omega)
  unfold EgigaTx.egigaTx
  rw [if_neg (by simp [hstopped])]
  generalize ringCall N (.tx (txPktInfo skb)) s.ring = result at hsent
  obtain ⟨answer, ring⟩ := result
  obtain ⟨hanswer, hkept, hidle, hresource'⟩ := hsent
  dsimp only at hanswer hkept hidle hresource'
  rw [hfrags] at hanswer hresource'
  subst hanswer
  dsimp only
  obtain ⟨free, hfree⟩ : ∃ free : ℕ, ring.resource = free := ⟨ring.resource.toNat, by omega⟩
  rw [stopIfFull_eq hfree (by omega)]
  refine ⟨rfl, ⟨hkept, hidle, ?_, hs.iffUp⟩, rfl, ?_, ?_⟩
  · intro slot hslot
    rcases List.mem_append.mp hslot with hslot | hslot
    · exact hs.skbs slot hslot
    · unfold slotsOf at hslot
      rcases List.mem_append.mp hslot with hslot | hslot
      · rw [(List.mem_replicate.mp hslot).2]
        simp
      · rw [List.mem_singleton.mp hslot]
        intro hzero
        exact skb.addr_ne_zero (Option.some.inj hzero)
  · dsimp only
    rw [hresource']
    push_cast
    rfl
  · dsimp only
    rw [hstopped, Bool.false_or, decide_eq_true_eq, hfree]
    omega

/-! ### Reclaiming -/

/-- The turns of `egiga_tx_done` reclaim the descriptors that the DMA has given back, and start
the queue if one of them ends a packet. -/
theorem EgigaTxKept.txDoneLoop (hN : 2 ≤ N) (hs : EgigaTxKept N s q r) (hfuel : r + 1 ≤ fuel)
    (count : ℕ) :
    EgigaTxKept N (EgigaTx.txDoneLoop N fuel count s).2 (q.drop r) 0 ∧
      (EgigaTx.txDoneLoop N fuel count s).2.carrier = s.carrier ∧
      (EgigaTx.txDoneLoop N fuel count s).2.ring.resource = s.ring.resource + r ∧
      ((EgigaTx.txDoneLoop N fuel count s).2.stopped = true ↔
        s.stopped = true ∧ ¬ ∃ k < r, ∃ osInfo, q[k]? = some (some osInfo)) := by
  induction fuel generalizing s q r count with
  | zero => omega
  | succ fuel ih =>
    obtain ⟨k, hby, hend⟩ := ringCall_txDone hN hs.kept hs.idle
    unfold EgigaTx.txDoneLoop
    generalize ringCall N .txDone s.ring = result at hby hend
    obtain ⟨answer, ring⟩ := result
    obtain ⟨hle, hkept, hidle, hresource⟩ := hby
    dsimp only at hend hkept hidle hresource
    have hskbs : ∀ slot ∈ q.drop k, slot ≠ some 0 :=
      fun slot hslot => hs.skbs slot (List.mem_of_mem_drop hslot)
    rcases hend with ⟨status, osInfo, rfl, hpos, hslot⟩ | ⟨hanswer, rfl, hnone⟩
    · -- a packet: the queue is started
      have hne : osInfo ≠ 0 := by
        rintro rfl
        exact hs.skbs _ (List.mem_of_getElem? hslot) rfl
      dsimp only
      rw [if_neg hne]
      have hs₁ : EgigaTxKept N { s with ring := ring, stopped := s.stopped && !s.iffUp }
          (q.drop k) (r - k) := ⟨hkept, hidle, hskbs, hs.iffUp⟩
      obtain ⟨hkept', hcarrier, hresource', hstopped⟩ := ih hs₁ (by omega) (count + 1)
      rw [List.drop_drop, Nat.add_sub_cancel' hle] at hkept'
      refine ⟨hkept', hcarrier, ?_, ?_⟩
      · rw [hresource']
        dsimp only
        rw [hresource]
        omega
      · rw [hstopped]
        dsimp only
        rw [hs.iffUp, Bool.not_true, Bool.and_false]
        constructor
        · rintro ⟨hno, -⟩
          cases hno
        · rintro ⟨-, hno⟩
          exact absurd ⟨k - 1, by omega, osInfo, hslot⟩ hno
    · -- no more packets
      have hover : EgigaTxKept N { s with ring := ring } (q.drop k) 0 := by
        rw [Nat.sub_self] at hkept
        exact ⟨hkept, hidle, hskbs, hs.iffUp⟩
      have hno : ¬ ∃ i < k, ∃ osInfo, q[i]? = some (some osInfo) := by
        rintro ⟨i, hi, osInfo, hslot⟩
        rw [hnone i hi] at hslot
        cases hslot
      rcases hanswer with rfl | rfl
      · exact ⟨hover, rfl, hresource, by simp only [hno, not_false_iff, and_true]⟩
      · exact ⟨hover, rfl, hresource, by simp only [hno, not_false_iff, and_true]⟩

/-- The ring is empty after `egiga_down_internals`. -/
theorem downLoop_empty (hN : 2 ≤ N) {ring : TxRing} (hkept : TxKept N ring q r)
    (hidle : ring.call = .idle) (hskbs : ∀ slot ∈ q, slot ≠ some 0) (hfuel : q.length + 1 ≤ fuel) :
    ∃ r', TxKept N (EgigaTx.downLoop N fuel ring) [] r' ∧
      (EgigaTx.downLoop N fuel ring).call = .idle := by
  induction fuel generalizing ring q r with
  | zero => omega
  | succ fuel ih =>
    obtain ⟨k, r', hkept', hidle', hend⟩ := ringCall_forceTxDone hN hkept hidle
    unfold EgigaTx.downLoop
    generalize ringCall N .forceTxDone ring = result at hkept' hidle' hend
    obtain ⟨answer, ring'⟩ := result
    dsimp only at hkept' hidle' hend
    rcases hend with ⟨status, osInfo, rfl, hpos, hle, hslot⟩ | ⟨rfl, hnil⟩
    · have hne : osInfo ≠ 0 := by
        rintro rfl
        exact hskbs _ (List.mem_of_getElem? hslot) rfl
      dsimp only
      rw [if_neg hne]
      refine ih hkept' hidle' (fun slot hslot => hskbs slot (List.mem_of_mem_drop hslot)) ?_
      rw [List.length_drop]
      omega
    · rw [hnil] at hkept'
      exact ⟨r', hkept', hidle'⟩

/-! ### Runs -/

/-- One event that meets its condition keeps the room in the ring, and is not refused. -/
theorem egigaTxStep_roomy (hN : MAX_SKB_FRAGS + 3 ≤ N) (hlt : N < 2 ^ 31)
    (hs : EgigaTxKept N s q r) (hroomy : Roomy s q) (hok : KeepsRoom N s event)
    (hstep : egigaTxStep N s event = some (answer, s')) :
    answer ≠ .noResource ∧ ∃ q' r', EgigaTxKept N s' q' r' ∧ Roomy s' q' := by
  have hN₂ : 2 ≤ N := by omega
  obtain ⟨hresource, hlength⟩ := hs.resource
  cases event with
  | tx skb =>
    simp only [egigaTxStep, Option.some.injEq] at hstep
    cases hstopped : s.stopped with
    | true =>
      rw [egigaTx_stopped hstopped] at hstep
      obtain ⟨rfl, rfl⟩ := Prod.mk.inj hstep
      exact ⟨by simp, q, r, hs, hroomy⟩
    | false =>
      have hfrags := skb.frags_le
      have hroom := hroomy.room hstopped
      have hleft := hok hstopped
      obtain ⟨hanswer, hkept, hcarrier, hfree, hstop⟩ :=
        hs.egigaTx_sent skb hlt hstopped (by omega)
      rw [hstep] at hanswer hkept hcarrier hfree hstop
      dsimp only at hanswer hkept hcarrier hfree hstop
      refine ⟨by rw [hanswer]; simp, _, r, hkept, ?_, ?_, ?_⟩
      · intro hrunning
        have hno := mt hstop.mpr (by simp [hrunning])
        rw [not_and_or] at hno
        omega
      · intro _ _
        simp [slotsOf]
      · intro hdown
        rw [hcarrier] at hdown
        have hwas := (hroomy.down hdown).1
        rw [hstopped] at hwas
        cases hwas
  | txDone =>
    simp only [egigaTxStep, Option.some.injEq] at hstep
    have hreleased := hs.kept.queued.released_le
    obtain ⟨hkept, hcarrier, hfree, hstop⟩ := hs.txDoneLoop hN₂ (by omega : r + 1 ≤ N + 1) 0
    obtain ⟨rfl, rfl⟩ := Prod.mk.inj hstep
    refine ⟨by simp, _, 0, hkept, ?_, ?_, ?_⟩
    · intro hrunning
      have hno := mt hstop.mpr (by simp [hrunning])
      rw [not_and, not_not] at hno
      change _ ≤ (EgigaTx.txDoneLoop N (N + 1) 0 s).2.ring.resource
      rw [hfree]
      cases hstopped : s.stopped with
      | false =>
        have hroom := hroomy.room hstopped
        omega
      | true =>
        have hroom := hok hstopped (hs.exists_last_iff.mpr (hno hstopped))
        rw [hs.givenBack_length] at hroom
        exact hroom
    · intro hstopped hup
      obtain ⟨hwas, hnone⟩ := hstop.mp hstopped
      rw [hcarrier] at hup
      have hne := hroomy.packet hwas hup
      -- the last slot ends a packet, so that the DMA has it
      intro hempty
      rw [List.drop_eq_nil_iff] at hempty
      have hpos := List.length_pos_iff.mpr hne
      have hends := hs.kept.queued.ends _ (List.getLast?_eq_some_getLast hne)
      obtain ⟨osInfo, hosInfo⟩ := Option.isSome_iff_exists.mp hends
      refine hnone ⟨q.length - 1, by omega, osInfo, ?_⟩
      rw [← List.getLast?_eq_getElem?, List.getLast?_eq_some_getLast hne, hosInfo]
    · intro hdown
      rw [hcarrier] at hdown
      obtain ⟨hwas, rfl⟩ := hroomy.down hdown
      refine ⟨hstop.mpr ⟨hwas, ?_⟩, List.drop_nil⟩
      rintro ⟨k, -, osInfo, hslot⟩
      simp at hslot
  | phy anDone =>
    simp only [egigaTxStep, Option.some.injEq] at hstep
    unfold EgigaTx.phyChange at hstep
    cases anDone with
    | true =>
      rw [if_pos rfl] at hstep
      obtain ⟨rfl, rfl⟩ := Prod.mk.inj hstep
      refine ⟨by simp, q, r, ⟨hs.kept, hs.idle, hs.skbs, hs.iffUp⟩, ?_, ?_, ?_⟩
      · intro _
        cases hstopped : s.stopped with
        | false => exact hroomy.room hstopped
        | true => exact hok rfl hstopped
      · intro h
        cases h
      · intro h
        cases h
    | false =>
      rw [if_neg Bool.false_ne_true] at hstep
      obtain ⟨rfl, rfl⟩ := Prod.mk.inj hstep
      obtain ⟨r', hkept, hidle⟩ :=
        downLoop_empty hN₂ hs.kept hs.idle hs.skbs (by omega : q.length + 1 ≤ N + 1)
      refine ⟨by simp, [], r', ⟨hkept, hidle, by simp, hs.iffUp⟩, ?_, ?_, ?_⟩
      · intro h
        cases h
      · intro _ h
        cases h
      · intro _
        exact ⟨rfl, rfl⟩
  | release error =>
    simp only [egigaTxStep, Option.map_eq_some_iff] at hstep
    obtain ⟨⟨answer', ring⟩, hring, hstep⟩ := hstep
    obtain ⟨rfl, rfl⟩ := Prod.mk.inj hstep
    cases hdma : s.ring.dma with
    | nil => simp [txStep, hdma] at hring
    | cons i dma =>
      simp only [txStep, hdma, Option.some.injEq] at hring
      obtain ⟨rfl, rfl⟩ := Prod.mk.inj hring
      exact ⟨by simp, q, r + 1, ⟨hs.kept.release hdma, hs.idle, hs.skbs, hs.iffUp⟩,
        hroomy.room, hroomy.packet, hroomy.down⟩

/-- The interface that is up, with an empty ring. -/
theorem egigaTxUp_kept (hN : MAX_SKB_FRAGS + 3 ≤ N) :
    EgigaTxKept N (egigaTxUp N) [] 0 ∧ Roomy (egigaTxUp N) [] := by
  refine ⟨⟨txKept_init (by omega), rfl, by simp, rfl⟩, ?_, ?_, ?_⟩
  · intro _
    change (MAX_SKB_FRAGS + 1 : ℤ) ≤ N - 1
    omega
  · intro h
    cases h
  · intro h
    cases h

/-- In every run whose events meet their condition, the back-pressure works in every state, and
no packet is refused. -/
theorem egigaTxRun_backPressure (N : ℕ) (hN : MAX_SKB_FRAGS + 3 ≤ N) (hlt : N < 2 ^ 31)
    {trace : List (EgigaTxEvent × EgigaTxAnswer)} {s : EgigaTx}
    (hrun : Run (egigaTxStep N) (KeepsRoom N) (egigaTxUp N) trace s) :
    BackPressure N s ∧ ∀ p ∈ trace, p.2 ≠ .noResource := by
  have hkept : (∃ q r, EgigaTxKept N s q r ∧ Roomy s q) ∧ ∀ p ∈ trace, p.2 ≠ .noResource := by
    refine Run.invariant (I := fun trace s => (∃ q r, EgigaTxKept N s q r ∧ Roomy s q) ∧
      ∀ p ∈ trace, p.2 ≠ .noResource) ⟨⟨[], 0, egigaTxUp_kept hN⟩, by simp⟩ ?_ hrun
    rintro trace s event answer s' ⟨⟨q, r, hs, hroomy⟩, hanswers⟩ hok hstep
    obtain ⟨hanswer, hnext⟩ := egigaTxStep_roomy hN hlt hs hroomy hok hstep
    refine ⟨hnext, fun p hp => ?_⟩
    rcases List.mem_append.mp hp with hp | hp
    · exact hanswers p hp
    · rw [List.mem_singleton.mp hp]
      exact hanswer
  obtain ⟨⟨q, r, hs, hroomy⟩, hanswers⟩ := hkept
  exact ⟨hs.backPressure hroomy, hanswers⟩

/-- A packet with a number of page fragments. -/
def fragmentedSkb (frags : ℕ) (hfrags : frags ≤ MAX_SKB_FRAGS) : Skb where
  addr := 0xc1000000
  head := ⟨0xc1000100, 66⟩
  frags := List.replicate frags ⟨0xc2000000, 1448⟩
  csumHw := true
  ihl := 5
  tcp := true
  addr_ne_zero := by decide
  frags_le := by rwa [List.length_replicate]

/-- A packet stops the queue, and its end starts it again; another one is in the ring when the link
goes down and comes up. -/
theorem smallPacket_backPressure :
    ∃ (trace : List (EgigaTxEvent × EgigaTxAnswer)) (s : EgigaTx),
      trace.map Prod.snd = [.sent, .whileStopped, .released, .released, .reclaimed 1, .sent,
          .linkDown, .linkUp, .sent] ∧
        BackPressure 21 s ∧ ∀ p ∈ trace, p.2 ≠ .noResource := by
  have hexec : (exec (egigaTxStep 21) (KeepsRoom 21) (egigaTxUp 21)
      [.tx (fragmentedSkb 1 (by decide)), .tx (fragmentedSkb 0 (Nat.zero_le _)), .release 0,
        .release 0, .txDone, .tx (fragmentedSkb 0 (Nat.zero_le _)), .phy false, .phy true,
        .tx (fragmentedSkb 9 (by decide))]).map (fun result => result.1.map Prod.snd) =
      some [.sent, .whileStopped, .released, .released, .reclaimed 1, .sent, .linkDown, .linkUp,
        .sent] := by
    decide
  obtain ⟨⟨trace, s⟩, hrun, hanswers⟩ := Option.map_eq_some_iff.mp hexec
  have hworks := egigaTxRun_backPressure 21 (by decide) (by decide) (Run.of_exec _ hrun)
  exact ⟨trace, s, hanswers, hworks⟩

/-- A packet with the largest number of page fragments leaves one free descriptor in a ring of 21,
and does not stop the queue; the next one is refused. -/
theorem largestPacket_noResource :
    (∃ trace s, Run (egigaTxStep 21) (fun _ _ => True) (egigaTxUp 21) trace s ∧
      ¬ BackPressure 21 s) ∧
    ∃ trace s, Run (egigaTxStep 21) (fun _ _ => True) (egigaTxUp 21) trace s ∧
      ∃ p ∈ trace, p.2 = .noResource := by
  constructor
  · have hexec : (exec (egigaTxStep 21) (fun _ _ => True) (egigaTxUp 21)
        [.tx (fragmentedSkb 18 (by decide))]).map
          (fun result => (result.2.stopped, result.2.carrier, result.2.ring.resource)) =
            some (false, true, 1) := by
      decide
    obtain ⟨⟨trace, s⟩, hrun, hstate⟩ := Option.map_eq_some_iff.mp hexec
    obtain ⟨hstopped, hstate⟩ := Prod.mk.inj hstate
    obtain ⟨hcarrier, hresource⟩ := Prod.mk.inj hstate
    refine ⟨trace, s, Run.of_exec _ hrun, fun hworks => ?_⟩
    have hroom := hworks.room hstopped hcarrier
    dsimp only at hresource
    rw [hresource] at hroom
    exact absurd hroom (by decide)
  · have hexec : (exec (egigaTxStep 21) (fun _ _ => True) (egigaTxUp 21)
        [.tx (fragmentedSkb 18 (by decide)), .tx (fragmentedSkb 18 (by decide))]).map
          (fun result => result.1.map Prod.snd) = some [.sent, .noResource] := by
      decide
    obtain ⟨⟨trace, s⟩, hrun, hanswers⟩ := Option.map_eq_some_iff.mp hexec
    have hlast : EgigaTxAnswer.noResource ∈ trace.map Prod.snd := by
      rw [hanswers]
      simp
    obtain ⟨p, hp, hanswer⟩ := List.mem_map.mp hlast
    exact ⟨trace, s, Run.of_exec _ hrun, p, hp, hanswer⟩

end Mv88fxx81.Eth
