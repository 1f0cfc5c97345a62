import Mv88fxx81.Eth.RxPolicy
import Mv88fxx81.Lib.Literals

/-!
# Termination and fairness of the receive policy

A call in WRR mode serves one queue of a weighted round robin. It goes round for ever where the
current queue is not ready or has nothing left, and no queue that is ready has a quota. With
positive quotas it is fair, unless more is left of the current turn than the quota of its queue,
which `mvEthRxPolicyQueueCfg` makes so when it lowers that quota.
-/

namespace Mv88fxx81.Eth

open RoundRobin EthRxPolicy

variable {N : ℕ} {s s' : EthRxPolicy N} {cause : BitVec 32} {queue : Fin N} {fuel : ℕ}
  {trace : List (BitVec 32 × Fin N)}

/-- Whose turn it is. -/
def EthRxPolicy.turn (s : EthRxPolicy N) : Turn N := ⟨s.rxCurQ, s.rxCurQuota⟩

/-- A queue that the search may return. -/
def mayServe (quota : Fin N → ℤ) (cause : BitVec 32) (queue : Fin N) : Bool :=
  rxReady cause queue && decide (quota queue ≠ 0)

/-- The search for the next queue is that of a round robin. -/
theorem wrrLoop_eq (cause : BitVec 32) (fuel : ℕ) (s : EthRxPolicy N) :
    wrrLoop cause fuel s = (search (mayServe s.rxQuota cause) fuel s.rxCurQ).map fun queue =>
      (queue, { s with rxCurQ := queue, rxCurQuota := s.rxQuota queue - 1 }) := by
  induction fuel generalizing s with
  | zero => rfl
  | succ fuel ih =>
    have hserve : mayServe s.rxQuota cause (back s.rxCurQ) = true ↔
        rxReady cause (back s.rxCurQ) = true ∧ s.rxQuota (back s.rxCurQ) ≠ 0 := by
      unfold mayServe
      rw [Bool.and_eq_true, decide_eq_true_iff]
    unfold wrrLoop search
    dsimp only
    by_cases hfound : rxReady cause (back s.rxCurQ) = true ∧ s.rxQuota (back s.rxCurQ) ≠ 0
    · rw [if_pos hfound, if_pos (hserve.mpr hfound), Option.map_some]
    · rw [if_neg hfound, if_neg (mt hserve.mp hfound), ih]

/-- A call in WRR mode that returns serves a queue of the round robin, and leaves the quotas. -/
theorem EthRxPolicy.Returns.serves (hreturns : s.Returns cause queue s')
    (hwrr : s.rxPrioMode = .wrr) :
    Serves s.rxQuota s.turn (rxReady cause) queue s'.turn ∧ s'.rxQuota = s.rxQuota ∧
      s'.rxPrioMode = .wrr := by
  obtain ⟨fuel, hget⟩ := hreturns
  unfold mvEthRxPolicyGet at hget
  rw [hwrr] at hget
  dsimp only at hget
  by_cases hturn : rxReady cause s.rxCurQ = true ∧ 0 < s.rxCurQuota
  · rw [if_pos hturn] at hget
    obtain ⟨hqueue, hs'⟩ := Prod.mk.inj (Option.some.inj hget)
    obtain rfl := Option.some.inj hqueue
    rw [← hs']
    exact ⟨.stay hturn.1 hturn.2, rfl, rfl⟩
  · rw [if_neg hturn, wrrLoop_eq, Option.map_map] at hget
    obtain ⟨found, hsearch, hfound⟩ := Option.map_eq_some_iff.mp hget
    obtain ⟨hqueue, hs'⟩ := Prod.mk.inj hfound
    obtain rfl := Option.some.inj hqueue
    rw [← hs']
    exact ⟨.move hturn hsearch, rfl, hwrr⟩

/-- A call in WRR mode returns exactly when it is sound. -/
theorem returns_iff (hwrr : s.rxPrioMode = .wrr) :
    (∃ queue s', s.Returns cause queue s') ↔ RxCallSound s cause := by
  unfold Returns mvEthRxPolicyGet RxCallSound
  rw [hwrr]
  dsimp only
  by_cases hturn : rxReady cause s.rxCurQ = true ∧ 0 < s.rxCurQuota
  · simp only [if_pos hturn]
    exact ⟨fun _ => Or.inl hturn, fun _ => ⟨_, _, 0, rfl⟩⟩
  · simp only [if_neg hturn, wrrLoop_eq]
    constructor
    · rintro ⟨queue, s', fuel, hget⟩
      rw [Option.map_map] at hget
      obtain ⟨found, hsearch, -⟩ := Option.map_eq_some_iff.mp hget
      obtain ⟨-, -, -, -, hok, -⟩ := search_eq_some hsearch
      unfold mayServe at hok
      rw [Bool.and_eq_true, decide_eq_true_iff] at hok
      exact Or.inr ⟨found, hok⟩
    · rintro (hstay | ⟨queue, hready, hquota⟩)
      · exact absurd hstay hturn
      · have hok : mayServe s.rxQuota cause queue = true := by
          unfold mayServe
          rw [hready, decide_eq_true hquota]
          rfl
        obtain ⟨found, hsearch⟩ :=
          Option.isSome_iff_exists.mp (search_isSome_of_ok s.rxCurQ hok)
        refine ⟨found, { s with rxCurQ := found, rxCurQuota := s.rxQuota found - 1 }, N, ?_⟩
        rw [hsearch]
        rfl

/-- A call returns one queue only. -/
theorem EthRxPolicy.Returns.unique {queue' : Fin N} {t : EthRxPolicy N}
    (hreturns : s.Returns cause queue s') (hreturns' : s.Returns cause queue' t)
    (hwrr : s.rxPrioMode = .wrr) : queue = queue' ∧ s' = t := by
  obtain ⟨fuel, hget⟩ := hreturns
  obtain ⟨fuel', hget'⟩ := hreturns'
  unfold mvEthRxPolicyGet at hget hget'
  rw [hwrr] at hget hget'
  dsimp only at hget hget'
  by_cases hturn : rxReady cause s.rxCurQ = true ∧ 0 < s.rxCurQuota
  · rw [if_pos hturn] at hget hget'
    obtain ⟨hqueue, hs⟩ := Prod.mk.inj (Option.some.inj (hget.symm.trans hget'))
    exact ⟨Option.some.inj hqueue, hs⟩
  · rw [if_neg hturn, wrrLoop_eq, Option.map_map] at hget hget'
    obtain ⟨found, hsearch, hfound⟩ := Option.map_eq_some_iff.mp hget
    obtain ⟨found', hsearch', hfound'⟩ := Option.map_eq_some_iff.mp hget'
    have hlong := search_mono (Nat.le_max_left fuel fuel') hsearch
    rw [search_mono (Nat.le_max_right fuel fuel') hsearch'] at hlong
    obtain rfl := Option.some.inj hlong
    obtain ⟨hqueue, hs⟩ := Prod.mk.inj (hfound.symm.trans hfound')
    exact ⟨Option.some.inj hqueue, hs⟩

/-- Some calls in WRR mode are right exactly when each of them is sound. -/
theorem callsRight_iff (hwrr : s.rxPrioMode = .wrr) (causes : List (BitVec 32)) :
    CallsRight s causes ↔ RxCallsSound s causes := by
  induction causes generalizing s with
  | nil => exact Iff.rfl
  | cons cause causes ih =>
    unfold CallsRight RxCallsSound
    constructor
    · rintro ⟨queue, s', hreturns, -, hrest⟩
      refine ⟨(returns_iff hwrr).mp ⟨queue, s', hreturns⟩, fun queue' t hreturns' => ?_⟩
      obtain ⟨-, rfl⟩ := hreturns.unique hreturns' hwrr
      exact (ih (hreturns.serves hwrr).2.2).mp hrest
    · rintro ⟨hsound, hrest⟩
      obtain ⟨queue, s', hreturns⟩ := (returns_iff hwrr).mpr hsound
      obtain ⟨hserves, -, hwrr'⟩ := hreturns.serves hwrr
      exact ⟨queue, s', hreturns, hserves.isReady, (ih hwrr').mpr (hrest queue s' hreturns)⟩

/-- What the round robin sees of a call. -/
def served (call : BitVec 32 × Fin N) : (Fin N → Bool) × Fin N := (rxReady call.1, call.2)

/-- Some calls serve the queues of the round robin. -/
theorem RxCalls.serve (hcalls : RxCalls s trace s') (hwrr : s.rxPrioMode = .wrr) :
    Serve s.rxQuota s.turn (trace.map served) s'.turn := by
  induction hcalls with
  | nil => exact .nil
  | cons hreturns _ ih =>
    obtain ⟨hserves, hquota, hwrr'⟩ := hreturns.serves hwrr
    have hrest := ih hwrr'
    rw [hquota] at hrest
    exact .cons hserves hrest

/-- A piece of a trace starts in a turn that has no more left than its quota. -/
theorem serve_piece {quota : Fin N → ℤ} {t t' : Turn N} {first row rest : List (BitVec 32 × Fin N)}
    (hfits : Fits quota t)
    (hserve : Serve quota t ((first ++ row ++ rest).map served) t') :
    ∃ u u', Fits quota u ∧ Serve quota u (row.map served) u' := by
  rw [List.map_append, List.map_append] at hserve
  obtain ⟨u', hstart, -⟩ := hserve.append
  obtain ⟨u, hfirst, hrow⟩ := hstart.append
  exact ⟨u, u', hfirst.fits hfits, hrow⟩

/-- The calls are fair when no more is left of the current turn than its quota. -/
theorem RxCalls.fair (hcalls : RxCalls s trace s') (hwrr : s.rxPrioMode = .wrr)
    (hpos : ∀ queue, 0 < s.rxQuota queue) (hfits : s.rxCurQuota ≤ s.rxQuota s.rxCurQ) :
    WithinQuota s.rxQuota trace ∧ ServedAgain s.rxQuota trace := by
  have hserve := hcalls.serve hwrr
  have hturn : Fits s.rxQuota s.turn := hfits
  constructor
  · rintro first row rest queue rfl hrow
    obtain ⟨u, u', hfits', hpiece⟩ := serve_piece hturn hserve
    have hle := hpiece.inRow hpos (q := queue) (by
      intro entry hentry
      obtain ⟨call, hcall, rfl⟩ := List.mem_map.mp hentry
      exact hrow call hcall)
    rw [List.length_map] at hle
    exact le_trans hle (inRow_le hpos hfits' queue)
  · rintro first wait rest queue rfl hwait
    obtain ⟨u, u', hfits', hpiece⟩ := serve_piece hturn hserve
    have hle := hpiece.before hpos (q := queue) (by
      intro entry hentry
      obtain ⟨call, hcall, rfl⟩ := List.mem_map.mp hentry
      exact hwait call hcall)
    rw [List.length_map] at hle
    exact le_trans hle (before_le hpos hfits' queue)

/-- The calls are fair where there is one queue only. -/
theorem fair_one {s : EthRxPolicy 1} (trace : List (BitVec 32 × Fin 1))
    (hpos : ∀ queue, 0 < s.rxQuota queue) :
    WithinQuota s.rxQuota trace ∧ ServedAgain s.rxQuota trace := by
  constructor
  · rintro first row rest queue - hrow
    cases row with
    | nil => exact le_of_lt (hpos queue)
    | cons call row =>
      obtain ⟨-, other, hne, -⟩ := hrow call List.mem_cons_self
      exact absurd (Subsingleton.elim other queue) hne
  · rintro first wait rest queue - hwait
    cases wait with
    | nil => exact Finset.sum_nonneg fun other _ => le_of_lt (hpos other)
    | cons call wait =>
      exact absurd (Subsingleton.elim _ _) (hwait call List.mem_cons_self).2

/-- The current queue is returned as often as is left of its turn, while every queue is ready. -/
theorem rxCalls_stay (hN : N ≤ 30) (hwrr : s.rxPrioMode = .wrr) {n : ℕ}
    (hleft : (n : ℤ) ≤ s.rxCurQuota) :
    ∃ s', RxCalls s (List.replicate n (BitVec.allOnes 32, s.rxCurQ)) s' := by
  induction n generalizing s with
  | zero => exact ⟨s, .nil⟩
  | succ n ih =>
    have hready : rxReady (BitVec.allOnes 32) s.rxCurQ = true := by
      have hlt := s.rxCurQ.isLt
      unfold rxReady
      rw [BitVec.getLsbD_allOnes, decide_eq_true_iff]
      omega
    push_cast at hleft
    obtain ⟨s', hrest⟩ := ih (s := { s with rxCurQuota := s.rxCurQuota - 1 }) hwrr
      (by dsimp only; omega)
    refine ⟨s', .cons ⟨0, ?_⟩ hrest⟩
    unfold mvEthRxPolicyGet
    rw [hwrr]
    dsimp only
    rw [if_pos ⟨hready, by omega⟩]

/-- The calls are not fair when more is left of the current turn than its quota. -/
theorem not_fair (hN : N ≤ 30) (hwrr : s.rxPrioMode = .wrr)
    (hpos : ∀ queue, 0 < s.rxQuota queue) (hleft : s.rxQuota s.rxCurQ < s.rxCurQuota)
    (hother : ∃ other, other ≠ s.rxCurQ) :
    ∃ trace s', RxCalls s trace s' ∧ ¬ WithinQuota s.rxQuota trace := by
  have hquota := hpos s.rxCurQ
  obtain ⟨n, hn⟩ := Int.eq_ofNat_of_zero_le (le_of_lt hquota)
  obtain ⟨s', hcalls⟩ := rxCalls_stay hN hwrr (n := n + 1) (by push_cast; omega)
  refine ⟨_, s', hcalls, fun hwithin => ?_⟩
  have hle := hwithin [] _ [] s.rxCurQ (by rw [List.nil_append, List.append_nil]) (by
    intro call hcall
    obtain rfl := List.eq_of_mem_replicate hcall
    obtain ⟨other, hne⟩ := hother
    refine ⟨rfl, other, hne, ?_⟩
    have hlt := other.isLt
    unfold rxReady
    rw [BitVec.getLsbD_allOnes, decide_eq_true_iff]
    omega)
  rw [List.length_replicate] at hle
  push_cast at hle
  omega

/-- Exactly when the calls in WRR mode are right: each of them terminates and returns a ready queue
when it is sound; and with positive quotas every sequence of calls is fair when there is one queue
only, or no more is left of the current turn than its quota. -/
theorem mvEthRxPolicyGet_wrr_iff (multiQueue : Bool)
    (s : EthRxPolicy (MV_ETH_RX_Q_NUM multiQueue)) (hwrr : s.rxPrioMode = .wrr) :
    (∀ causes, CallsRight s causes ↔ RxCallsSound s causes) ∧
      ((∀ queue, 0 < s.rxQuota queue) →
        ((∀ trace s', RxCalls s trace s' →
            WithinQuota s.rxQuota trace ∧ ServedAgain s.rxQuota trace) ↔
          multiQueue = false ∨ s.rxCurQuota ≤ s.rxQuota s.rxCurQ)) := by
  refine ⟨callsRight_iff hwrr, fun hpos => ⟨fun hfair => ?_, ?_⟩⟩
  · by_contra hnot
    rw [not_or, Bool.not_eq_false, not_le] at hnot
    obtain ⟨rfl, hleft⟩ := hnot
    have hother : ∃ other : Fin (MV_ETH_RX_Q_NUM true), other ≠ s.rxCurQ := by
      have hnontrivial : Nontrivial (Fin (MV_ETH_RX_Q_NUM true)) :=
        inferInstanceAs (Nontrivial (Fin 8))
      exact exists_ne s.rxCurQ
    obtain ⟨trace, s', hcalls, hexceeds⟩ := not_fair (by decide) hwrr hpos hleft hother
    exact hexceeds (hfair trace s' hcalls).1
  · rintro (rfl | hfits) trace s' hcalls
    · exact fair_one trace hpos
    · exact hcalls.fair hwrr hpos hfits

/-- A policy in WRR mode as it is initialised, with eight queues. -/
def initPolicy : EthRxPolicy (MV_ETH_RX_Q_NUM true) := mvEthRxPolicyInit (by decide) 10 .wrr

/-- Its first two calls return queues that are ready, and all its calls are fair. -/
theorem initPolicy_callsRight :
    CallsRight initPolicy [4, 20] ∧ ∀ trace s', RxCalls initPolicy trace s' →
      WithinQuota initPolicy.rxQuota trace ∧ ServedAgain initPolicy.rxQuota trace := by
  obtain ⟨hcalls, hfair⟩ := mvEthRxPolicyGet_wrr_iff true initPolicy rfl
  refine ⟨(hcalls [4, 20]).mpr ⟨Or.inr ⟨⟨0, by decide⟩, by decide, by decide⟩, ?_⟩,
    (hfair (by decide)).mpr (Or.inr (by decide))⟩
  intro queue s' hreturns
  refine ⟨Or.inr ⟨⟨2, by decide⟩, by decide, ?_⟩, fun _ _ _ => trivial⟩
  rw [(hreturns.serves rfl).2.1]
  decide

/-- Without a quota for the only queue that is ready, the call does not terminate. -/
theorem initPolicy_withoutQuota_not_right :
    rxReady 4 (⟨0, by decide⟩ : Fin (MV_ETH_RX_Q_NUM true)) = true ∧
      ¬ CallsRight (initPolicy.mvEthRxPolicyQueueCfg ⟨0, by decide⟩ 0) [4] := by
  refine ⟨by decide, fun hright => ?_⟩
  have hwrr : (initPolicy.mvEthRxPolicyQueueCfg ⟨0, by decide⟩ 0).rxPrioMode = .wrr := rfl
  obtain ⟨hsound, -⟩ := (callsRight_iff hwrr _).mp hright
  revert hsound
  unfold RxCallSound
  decide

end Mv88fxx81.Eth
