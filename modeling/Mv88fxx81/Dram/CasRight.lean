import Mathlib.Data.List.Basic
import Mathlib.Order.WellFounded
import Mv88fxx81.Dram.CasLatency

/-!
# The latency that is chosen

A bank meets a latency when it supports it and its own cycle time at that latency, found by the
rank of the latency among those it supports, fits the clock. The code looks at the rank among the
latencies that all banks support, and at the cycle times of bank 0 only. The choice is the least
latency that every bank meets as long as the two tests agree.
-/

namespace Mv88fxx81.Dram

open CheckedWords

/-! ### What the loops compute -/

/-- The number of supported latencies above a bit. -/
def above (supported : ℕ → Bool) (j : ℕ) : ℕ := (List.range' (j + 1) (7 - j)).countP supported

/-- The rank of a latency from the highest supported one down. -/
def rank (supported : ℕ → Bool) (j : ℕ) : ℕ := above supported j + 1

theorem above_eq {supported : ℕ → Bool} {j : ℕ} (hj : j < 7) :
    above supported j =
      above supported (j + 1) + if supported (j + 1) = true then 1 else 0 := by
  unfold above
  have hlength : 7 - j = 7 - (j + 1) + 1 := by omega
  rw [hlength, List.range'_succ, List.countP_cons]

/-- The cycle time of a rank fits a clock period. -/
def Fits (pBankInfo : DramBankInfo) (busClkPs : BitVec 32) (r : ℕ) : Prop :=
  ∃ time, pBankInfo.cycleTime? r = some time ∧ time ≤ busClkPs

section Loop

variable {pBankInfo : DramBankInfo} {busClkPs latencies : BitVec 32} {count i j r : ℕ}

theorem getLsbD_shiftOne (hi : i < 32) : ((1 : BitVec 32) <<< j).getLsbD i = decide (i = j) := by
  have hone : (1 : BitVec 32).getLsbD (i - j) = decide (i - j = 0) := by
    rw [show (1 : BitVec 32) = 1#32 from rfl, BitVec.getLsbD_one]
    simp
  rw [BitVec.getLsbD_shiftLeft, hone]
  by_cases hlt : i < j
  · simp [hlt, Nat.ne_of_lt hlt]
  · have heq : i - j = 0 ↔ i = j := by omega
    simp [hlt, hi, heq]

/-- The count of the loop stops at four. -/
theorem cycleTime_min (hr : 1 ≤ r) : pBankInfo.cycleTime? (min 4 r) = pBankInfo.cycleTime? r := by
  by_cases hle : r ≤ 4
  · rw [Nat.min_eq_right hle]
  · have hbig : pBankInfo.cycleTime? r = none := by
      obtain ⟨n, rfl⟩ : ∃ n, r = n + 4 := ⟨r - 4, by omega⟩
      rfl
    rw [Nat.min_eq_left (by omega), hbig]
    rfl

theorem getLsbD_strikeOut (hi : i < 32) :
    (strikeOut latencies j).getLsbD i = (latencies.getLsbD i && decide (i ≠ j)) := by
  unfold strikeOut
  rw [BitVec.getLsbD_and, BitVec.getLsbD_not, getLsbD_shiftOne hi]
  simp [hi]

/-- A turn leaves the other bits alone. -/
theorem latencyTurn_others (hi : i < 32) (hne : i ≠ j) :
    (latencyTurn pBankInfo busClkPs j (count, latencies)).2.getLsbD i = latencies.getLsbD i := by
  unfold latencyTurn
  dsimp only
  by_cases hbit : latencies.getLsbD j = true
  · rw [if_pos hbit]
    cases htime : pBankInfo.cycleTime? count with
    | none => simp [getLsbD_strikeOut hi, hne]
    | some time =>
      by_cases hslow : busClkPs < time
      · simp [hslow, getLsbD_strikeOut hi, hne]
      · simp [hslow]
  · rw [if_neg hbit]

/-- A latency that is not supported changes nothing. -/
theorem latencyTurn_absent (hbit : latencies.getLsbD j = false) :
    latencyTurn pBankInfo busClkPs j (count, latencies) = (count, latencies) := by
  unfold latencyTurn
  dsimp only
  rw [if_neg (by rw [hbit]; decide)]

/-- A supported latency is counted. -/
theorem latencyTurn_count (hbit : latencies.getLsbD j = true) (hr : 1 ≤ r) :
    (latencyTurn pBankInfo busClkPs j (min 4 r, latencies)).1 = min 4 (r + 1) := by
  unfold latencyTurn
  dsimp only
  rw [if_pos hbit, cycleTime_min hr]
  cases htime : pBankInfo.cycleTime? r with
  | none =>
    have hbig : 4 ≤ r := by
      by_contra hlt
      have hcases : r = 1 ∨ r = 2 ∨ r = 3 := by omega
      rcases hcases with rfl | rfl | rfl <;> cases htime
    dsimp only
    omega
  | some time =>
    have hsmall : r < 4 := by
      by_contra hge
      obtain ⟨n, rfl⟩ : ∃ n, r = n + 4 := ⟨r - 4, by omega⟩
      cases htime
    dsimp only
    omega

/-- A supported latency stays when its cycle time fits. -/
theorem latencyTurn_bit (hj : j < 32) (hbit : latencies.getLsbD j = true) (hr : 1 ≤ r) :
    (latencyTurn pBankInfo busClkPs j (min 4 r, latencies)).2.getLsbD j = true ↔
      Fits pBankInfo busClkPs r := by
  unfold latencyTurn Fits
  dsimp only
  rw [if_pos hbit, cycleTime_min hr]
  cases htime : pBankInfo.cycleTime? r with
  | none => simp [getLsbD_strikeOut hj]
  | some time =>
    by_cases hslow : busClkPs < time
    · simp [hslow, getLsbD_strikeOut hj]
    · simp [hslow, hbit, BitVec.not_lt.mp hslow]

/-- What the loop leaves: the supported latencies whose cycle times fit, by their ranks. -/
theorem latencyLoop_spec {start : BitVec 32} (hj : j ≤ 7)
    (hcount : count = min 4 (rank start.getLsbD j))
    (hsame : ∀ i ≤ j, latencies.getLsbD i = start.getLsbD i) :
    (∀ i, 1 ≤ i → i ≤ j →
      ((latencyLoop pBankInfo busClkPs j (count, latencies)).2.getLsbD i = true ↔
        start.getLsbD i = true ∧ Fits pBankInfo busClkPs (rank start.getLsbD i))) ∧
    ∀ i, j < i → i < 32 →
      (latencyLoop pBankInfo busClkPs j (count, latencies)).2.getLsbD i = latencies.getLsbD i := by
  induction j generalizing count latencies with
  | zero => exact ⟨fun i hpos hle => absurd hle (by omega), fun i _ _ => rfl⟩
  | succ j ih =>
    have hpos : 1 ≤ rank start.getLsbD (j + 1) := Nat.le_add_left _ _
    have habove := @above_eq start.getLsbD j (by omega)
    have hbit := hsame (j + 1) le_rfl
    rw [latencyLoop]
    generalize hturn : latencyTurn pBankInfo busClkPs (j + 1) (count, latencies) = state
    obtain ⟨count', latencies'⟩ := state
    have hothers : ∀ i, i < 32 → i ≠ j + 1 → latencies'.getLsbD i = latencies.getLsbD i := by
      intro i hi hne
      have h := @latencyTurn_others pBankInfo busClkPs latencies count i (j + 1) hi hne
      rw [hturn] at h
      exact h
    have hcount' : count' = min 4 (rank start.getLsbD j) := by
      unfold rank at hcount ⊢
      rw [habove]
      cases hsupported : latencies.getLsbD (j + 1) with
      | false =>
        rw [latencyTurn_absent hsupported] at hturn
        rw [← hbit, hsupported]
        simp only [Prod.mk.injEq] at hturn
        rw [← hturn.1, hcount]
        simp
      | true =>
        have h := @latencyTurn_count pBankInfo busClkPs latencies (j + 1) _ hsupported hpos
        unfold rank at h
        rw [← hcount, hturn] at h
        rw [← hbit, hsupported, if_pos rfl]
        exact h
    obtain ⟨hinner, houter⟩ := ih (by omega) hcount'
      (fun i hi => (hothers i (by omega) (by omega)).trans (hsame i (by omega)))
    refine ⟨fun i hi hle => ?_, fun i hlt hi => ?_⟩
    · by_cases heq : i = j + 1
      · subst heq
        rw [houter (j + 1) (by omega) (by omega)]
        cases hsupported : latencies.getLsbD (j + 1) with
        | false =>
          rw [latencyTurn_absent hsupported] at hturn
          simp only [Prod.mk.injEq] at hturn
          rw [← hturn.2, ← hbit, hsupported]
          simp
        | true =>
          have h := @latencyTurn_bit pBankInfo busClkPs latencies (j + 1) _ (by omega)
            hsupported hpos
          rw [← hcount, hturn] at h
          rw [← hbit, hsupported]
          simpa using h
      · exact hinner i hi (by omega)
    · rw [houter i (by omega) hi, hothers i hi (by omega)]

end Loop

theorem shiftOne_inj {i j : ℕ} (hi : i < 32) :
    (1 : BitVec 32) <<< i = (1 : BitVec 32) <<< j ↔ i = j := by
  constructor
  · intro h
    have hbit := congrArg (BitVec.getLsbD · i) h
    simp only [getLsbD_shiftOne hi, decide_true] at hbit
    exact of_decide_eq_true hbit.symm
  · exact fun h => h ▸ rfl

theorem shiftOne_ne_zero {j : ℕ} (hj : j < 32) : (1 : BitVec 32) <<< j ≠ 0 := by
  intro h
  have hbit := congrArg (BitVec.getLsbD · j) h
  simp only [getLsbD_shiftOne hj, decide_true] at hbit
  simp at hbit

/-- The first supported latency of a range in its order. -/
theorem firstSupported_eq_iff {latencies : BitVec 32} {range : List ℕ}
    (hsorted : range.Pairwise (· < ·)) (hrange : ∀ j ∈ range, j < 32) {j : ℕ} (hj : j < 32) :
    firstSupported latencies range = (1 : BitVec 32) <<< j ↔
      j ∈ range ∧ latencies.getLsbD j = true ∧
        ∀ j' ∈ range, j' < j → ¬ latencies.getLsbD j' = true := by
  induction range with
  | nil =>
    constructor
    · exact fun h => absurd h.symm (shiftOne_ne_zero hj)
    · exact fun h => absurd h.1 List.not_mem_nil
  | cons first range ih =>
    obtain ⟨hfirst, hsorted'⟩ := List.pairwise_cons.mp hsorted
    have hlt := hrange first List.mem_cons_self
    by_cases hbit : latencies.getLsbD first = true
    · have hvalue : firstSupported latencies (first :: range) = (1 : BitVec 32) <<< first := by
        unfold firstSupported
        rw [List.find?_cons_of_pos hbit]
      rw [hvalue, shiftOne_inj hlt]
      constructor
      · rintro rfl
        refine ⟨List.mem_cons_self, hbit, fun j' hmem hless => ?_⟩
        rcases List.mem_cons.mp hmem with rfl | hin
        · exact absurd hless (lt_irrefl _)
        · exact absurd (hfirst j' hin) (Nat.lt_asymm hless)
      · rintro ⟨hmem, -, hleast⟩
        rcases List.mem_cons.mp hmem with rfl | hin
        · rfl
        · exact absurd hbit (hleast first List.mem_cons_self (hfirst j hin))
    · have hvalue : firstSupported latencies (first :: range) =
          firstSupported latencies range := by
        unfold firstSupported
        rw [List.find?_cons_of_neg hbit]
      rw [hvalue, ih hsorted' fun j' hmem => hrange j' (List.mem_cons_of_mem _ hmem)]
      constructor
      · rintro ⟨hmem, hj', hleast⟩
        refine ⟨List.mem_cons_of_mem _ hmem, hj', fun j' hin hless => ?_⟩
        rcases List.mem_cons.mp hin with rfl | hin
        · exact hbit
        · exact hleast j' hin hless
      · rintro ⟨hmem, hj', hleast⟩
        rcases List.mem_cons.mp hmem with rfl | hin
        · exact absurd hj' hbit
        · exact ⟨hin, hj', fun j' hmem' => hleast j' (List.mem_cons_of_mem _ hmem')⟩

theorem controllerRange_sorted (sdramConfigReg : BitVec 32) :
    (controllerRange sdramConfigReg).Pairwise (· < ·) := by
  unfold controllerRange
  split_ifs <;> decide

theorem controllerRange_bounds {sdramConfigReg : BitVec 32} {j : ℕ}
    (hmem : j ∈ controllerRange sdramConfigReg) : 1 ≤ j ∧ j ≤ 7 := by
  unfold controllerRange at hmem
  split_ifs at hmem
  · have hall : ∀ i ∈ [3, 4, 5], 1 ≤ i ∧ i ≤ 7 := by decide
    exact hall j hmem
  · have hall : ∀ i ∈ [1, 2, 3, 4], 1 ≤ i ∧ i ≤ 7 := by decide
    exact hall j hmem

/-- The test of the code: the latency is in the mask, and the cycle time of its rank there fits the
period of the clock in ps. -/
def CodeMeets (pBankInfo : DramBankInfo) (busClk : BitVec 32) (j : ℕ) : Prop :=
  pBankInfo.suportedCasLatencies.getLsbD j = true ∧
    Fits pBankInfo (1000000000 / (busClk / 1000)) (rank pBankInfo.suportedCasLatencies.getLsbD j)

/-- The least latency of the range that passes the test of the code is returned. -/
theorem minCasCalc_eq_iff {sdramConfigReg busClk : BitVec 32} {pBankInfo : DramBankInfo} {j : ℕ}
    (hj : j < 32) :
    minCasCalc sdramConfigReg pBankInfo busClk 0 = .ok ((1 : BitVec 32) <<< j) ↔
      busClk / 1000 ≠ 0 ∧ j ∈ controllerRange sdramConfigReg ∧ CodeMeets pBankInfo busClk j ∧
        ∀ j' ∈ controllerRange sdramConfigReg, j' < j → ¬ CodeMeets pBankInfo busClk j' := by
  unfold minCasCalc div
  by_cases hzero : busClk / 1000 = 0
  · rw [if_pos hzero]
    constructor
    · intro h
      cases h
    · exact fun h => absurd hzero h.1
  · rw [if_neg hzero]
    have hloop := (@latencyLoop_spec pBankInfo (1000000000 / (busClk / 1000))
      pBankInfo.suportedCasLatencies 1 7 pBankInfo.suportedCasLatencies le_rfl
        (by simp [rank, above])
      (fun _ _ => rfl)).1
    have hbits : ∀ i ∈ controllerRange sdramConfigReg,
        ((latencyLoop pBankInfo (1000000000 / (busClk / 1000)) 7
          (1, pBankInfo.suportedCasLatencies)).2.getLsbD i = true ↔
          CodeMeets pBankInfo busClk i) :=
      fun i hmem => hloop i (controllerRange_bounds hmem).1 (controllerRange_bounds hmem).2
    have hfirst := @firstSupported_eq_iff (latencyLoop pBankInfo (1000000000 / (busClk / 1000)) 7
      (1, pBankInfo.suportedCasLatencies)).2 _ (controllerRange_sorted sdramConfigReg)
      (fun i hmem => by have h := (controllerRange_bounds hmem).2; omega) j hj
    change (Except.ok (firstSupported (latencyLoop pBankInfo (1000000000 / (busClk / 1000)) 7
      (1, pBankInfo.suportedCasLatencies)).2 (controllerRange sdramConfigReg)) :
        Checked (BitVec 32)) = .ok ((1 : BitVec 32) <<< j) ↔ _
    rw [Except.ok.injEq, hfirst]
    constructor
    · rintro ⟨hmem, hbit, hleast⟩
      exact ⟨hzero, hmem, (hbits j hmem).mp hbit, fun j' hmem' hless hmeets =>
        hleast j' hmem' hless ((hbits j' hmem').mpr hmeets)⟩
    · rintro ⟨-, hmem, hmeets, hleast⟩
      exact ⟨hmem, (hbits j hmem).mpr hmeets, fun j' hmem' hless hbit =>
        hleast j' hmem' hless ((hbits j' hmem').mp hbit)⟩

/-! ### What the modules say -/

/-- The latencies a module supports. -/
def supported (data : Spd) (j : ℕ) : Bool := (data 18).getLsbD j

/-- The cycle times of a module in ps, from its highest latency down. -/
def moduleCycleTime? (data : Spd) : ℕ → Option (BitVec 32)
  | 1 => some (cas2ps (data 9))
  | 2 => some (cas2ps (data 23))
  | 3 => some (cas2ps (data 25))
  | _ => none

/-- A module supports a latency, and its cycle time there does not exceed the period of the clock,
10¹² ps over the clock in Hz. -/
def Meets (data : Spd) (busClk : BitVec 32) (j : ℕ) : Prop :=
  supported data j = true ∧
    ∃ time, moduleCycleTime? data (rank (supported data) j) = some time ∧
      time.toNat * busClk.toNat ≤ 10 ^ 12

section Modules

variable (dimms : Fin 2 → Option Spd) (banks : Fin 4 → Option DramBankInfo)

/-- Every populated bank meets a latency. -/
def EveryBankMeets (busClk : BitVec 32) (j : ℕ) : Prop :=
  ∀ bankNum, (banks bankNum).isSome = true →
    ∃ data, dimms (dimmOf bankNum) = some data ∧ Meets data busClk j

/-- The latencies that every populated bank supports. -/
def supportedByAll (j : ℕ) : Bool :=
  (List.finRange 4).all fun bankNum =>
    (banks bankNum).isNone || (dimms (dimmOf bankNum)).any (supported · j)

/-- The test of the code, on the contents of the modules: the cycle time of the first module at the
rank among the common latencies fits the period, in whole ps of a clock in whole kHz. -/
def CommonMeets (data : Spd) (busClk : BitVec 32) (j : ℕ) : Prop :=
  supportedByAll dimms banks j = true ∧
    ∃ time, moduleCycleTime? data (rank (supportedByAll dimms banks) j) = some time ∧
      time.toNat ≤ 10 ^ 9 / (busClk.toNat / 1000)

/-- A latency is the least one in the range of the controller that every populated bank meets. -/
def ChoiceRight (sdramConfigReg busClk : BitVec 32) (j : ℕ) : Prop :=
  EveryBankMeets dimms banks busClk j ∧
    ∀ j' ∈ controllerRange sdramConfigReg, j' < j → ¬ EveryBankMeets dimms banks busClk j'

/-- The test of the code agrees with the banks' own tests, for every latency up to the first that
passes it. A clock below one kHz has no period. -/
def TestsAgree (data : Spd) (sdramConfigReg busClk : BitVec 32) : Prop :=
  1000 ≤ busClk.toNat →
    (∃ j ∈ controllerRange sdramConfigReg, CommonMeets dimms banks data busClk j) →
    ∀ j ∈ controllerRange sdramConfigReg,
      (∀ j' ∈ controllerRange sdramConfigReg, j' < j → ¬ CommonMeets dimms banks data busClk j') →
      (CommonMeets dimms banks data busClk j ↔ EveryBankMeets dimms banks busClk j)

end Modules

section Choice

variable {dimms : Fin 2 → Option Spd} {banks : Fin 4 → Option DramBankInfo} {bank : DramBankInfo}
  {data : Spd} {sdramConfigReg busClk : BitVec 32} {j : ℕ}

theorem rank_congr {p q : ℕ → Bool} (hsame : ∀ i ≤ 7, p i = q i) {j : ℕ} : rank p j = rank q j := by
  unfold rank above
  refine congrArg (· + 1) (List.countP_congr fun i hi => ?_)
  obtain ⟨hlow, hhigh⟩ := List.mem_range'_1.mp hi
  rw [hsame i (by omega)]

/-- The mask and the cycle times of a record are those of its module. -/
theorem record_content (hinfo : ∀ bankNum, mvDramBankInfoGet dimms bankNum = .ok (banks bankNum))
    {bankNum : Fin 4} {other : DramBankInfo} (hother : banks bankNum = some other) :
    ∃ data, dimms (dimmOf bankNum) = some data ∧
      other.suportedCasLatencies = (data 18).setWidth 32 ∧
      other.cycleTime? = moduleCycleTime? data := by
  obtain ⟨data, memoryType, -, -, -, -, -, hdata, -, rfl⟩ :=
    mvDramBankInfoGet_content ((hinfo bankNum).trans (congrArg _ hother))
  refine ⟨data, hdata, rfl, funext fun r => ?_⟩
  match r with
  | 0 => rfl
  | 1 => rfl
  | 2 => rfl
  | 3 => rfl
  | _ + 4 => rfl

theorem getLsbD_supported {latencies : BitVec 32} (hmask : latencies = (data 18).setWidth 32)
    (hj : j ≤ 7) : latencies.getLsbD j = supported data j := by
  have hlt : j < 32 := by omega
  unfold supported
  rw [hmask, BitVec.getLsbD_setWidth]
  simp [hlt]

/-- The mask that the code joins holds the latencies that every populated bank supports. -/
theorem representative_supported
    (hinfo : ∀ bankNum, mvDramBankInfoGet dimms bankNum = .ok (banks bankNum))
    (hbank : banks 0 = some bank) (hj : j ≤ 7) :
    (representative bank banks).suportedCasLatencies.getLsbD j =
      supportedByAll dimms banks j := by
  have hfold : ∀ (l : List (Fin 4)) (start : BitVec 32),
      (l.foldl (joinLatencies banks) start).getLsbD j = (start.getLsbD j && l.all fun bankNum =>
        (banks bankNum).isNone || (dimms (dimmOf bankNum)).any (supported · j)) := by
    intro l
    induction l with
    | nil => intro start; simp
    | cons bankNum l ih =>
      intro start
      rw [List.foldl_cons, ih, List.all_cons]
      unfold joinLatencies
      cases hother : banks bankNum with
      | none => simp
      | some other =>
        obtain ⟨data, hdata, hmask, -⟩ := record_content hinfo hother
        rw [BitVec.getLsbD_and, getLsbD_supported hmask hj, hdata]
        simp [Bool.and_assoc]
  obtain ⟨data, hdata, hmask, -⟩ := record_content hinfo hbank
  unfold representative supportedByAll
  dsimp only
  rw [hfold, getLsbD_supported hmask hj]
  have hfirst : List.finRange 4 = 0 :: [1, 2, 3] := by decide
  have hzero : (banks 0).isNone = false := by rw [hbank]; rfl
  rw [hfirst, List.all_cons, hzero, hdata]
  simp [← Bool.and_assoc]

/-- The code's test is that of the contents. -/
theorem codeMeets_iff (hinfo : ∀ bankNum, mvDramBankInfoGet dimms bankNum = .ok (banks bankNum))
    (hbank : banks 0 = some bank) (hdata : dimms 0 = some data) (hj : j ≤ 7) :
    CodeMeets (representative bank banks) busClk j ↔ CommonMeets dimms banks data busClk j := by
  have hsupported := fun i hi => @representative_supported dimms banks bank i hinfo hbank hi
  obtain ⟨data', hdata', -, htimes⟩ := record_content hinfo hbank
  have hsame : data' = data := Option.some.inj (hdata'.symm.trans hdata)
  rw [hsame] at htimes
  have htimes' : (representative bank banks).cycleTime? = moduleCycleTime? data := htimes
  have hperiod : (1000000000 / (busClk / 1000) : BitVec 32).toNat =
      10 ^ 9 / (busClk.toNat / 1000) := by
    rw [BitVec.toNat_udiv, BitVec.toNat_udiv]
    rfl
  unfold CodeMeets CommonMeets Fits
  rw [hsupported j hj, rank_congr hsupported, htimes']
  simp only [BitVec.le_def, hperiod]

/-- The least latency of a range with a property. -/
theorem exists_least {range : List ℕ} {p : ℕ → Prop} (hsome : ∃ j ∈ range, p j) :
    ∃ first ∈ range, p first ∧ ∀ j' ∈ range, j' < first → ¬ p j' := by
  obtain ⟨first, ⟨hfirst, hp⟩, hmin⟩ :=
    WellFounded.has_min Nat.lt_wfRel.wf {j | j ∈ range ∧ p j} hsome
  exact ⟨first, hfirst, hp, fun j' hmem' hless hp' => hmin j' ⟨hmem', hp'⟩ hless⟩

theorem div_ne_zero_iff : busClk / 1000 ≠ 0 ↔ 1000 ≤ busClk.toNat := by
  rw [ne_eq, ← BitVec.toNat_inj, BitVec.toNat_udiv]
  change ¬ busClk.toNat / 1000 = 0 ↔ _
  omega

/-- A latency that `minCasCalc` returns is the least one every populated bank meets, as long as the
two tests agree and no longer. -/
theorem minCasCalc_right_iff
    (hinfo : ∀ bankNum, mvDramBankInfoGet dimms bankNum = .ok (banks bankNum))
    (hbank : banks 0 = some bank) (hdata : dimms 0 = some data) :
    (∀ j < 32, minCasCalc sdramConfigReg (representative bank banks) busClk 0 =
        .ok ((1 : BitVec 32) <<< j) → ChoiceRight dimms banks sdramConfigReg busClk j) ↔
      TestsAgree dimms banks data sdramConfigReg busClk := by
  have hcode : ∀ i ∈ controllerRange sdramConfigReg,
      (CodeMeets (representative bank banks) busClk i ↔ CommonMeets dimms banks data busClk i) :=
    fun i hmem => codeMeets_iff hinfo hbank hdata (controllerRange_bounds hmem).2
  have hreturns : ∀ {i}, i ∈ controllerRange sdramConfigReg → 1000 ≤ busClk.toNat →
      CommonMeets dimms banks data busClk i →
      (∀ j' ∈ controllerRange sdramConfigReg, j' < i → ¬ CommonMeets dimms banks data busClk j') →
      minCasCalc sdramConfigReg (representative bank banks) busClk 0 =
        .ok ((1 : BitVec 32) <<< i) := by
    intro i hmem hclk hmeets hleast
    have hlt := (controllerRange_bounds hmem).2
    refine (minCasCalc_eq_iff (by omega)).mpr
      ⟨div_ne_zero_iff.mpr hclk, hmem, (hcode i hmem).mpr hmeets, fun j' hmem' hless hcode' => ?_⟩
    exact hleast j' hmem' hless ((hcode j' hmem').mp hcode')
  constructor
  · rintro hright hclk ⟨j', hmem', hmeets'⟩ j hmem hleast
    constructor
    · intro hmeets
      have hlt := (controllerRange_bounds hmem).2
      exact (hright j (by omega) (hreturns hmem hclk hmeets hleast)).1
    · intro hevery
      obtain ⟨first, hfirst, hmeetsFirst, hmin⟩ := exists_least ⟨j', hmem', hmeets'⟩
      have hlt := (controllerRange_bounds hfirst).2
      have hchosen := hright first (by omega) (hreturns hfirst hclk hmeetsFirst hmin)
      rcases Nat.lt_trichotomy j first with hless | rfl | hmore
      · exact absurd hevery (hchosen.2 j hmem hless)
      · exact hmeetsFirst
      · exact absurd hmeetsFirst (hleast first hfirst hmore)
  · intro hagree j hj hreturn
    obtain ⟨hclk, hmem, hmeets, hleast⟩ := (minCasCalc_eq_iff hj).mp hreturn
    have hmeets' := (hcode j hmem).mp hmeets
    have hleast' : ∀ j' ∈ controllerRange sdramConfigReg, j' < j →
        ¬ CommonMeets dimms banks data busClk j' :=
      fun j' hmem' hless h => hleast j' hmem' hless ((hcode j' hmem').mpr h)
    have hagree' := hagree (div_ne_zero_iff.mp hclk) ⟨j, hmem, hmeets'⟩
    refine ⟨(hagree' j hmem hleast').mp hmeets', fun j' hmem' hless hevery => ?_⟩
    have hsmaller : ∀ i ∈ controllerRange sdramConfigReg, i < j' →
        ¬ CommonMeets dimms banks data busClk i :=
      fun i hi hlt => hleast' i hi (hlt.trans hless)
    exact hleast' j' hmem' hless ((hagree' j' hmem' hsmaller).mpr hevery)

/-- The tests agree where all populated banks are of modules with one content, for a clock in whole
kHz. -/
theorem testsAgree_of_same (hfirst : (banks 0).isSome = true)
    (hsame : ∀ bankNum, (banks bankNum).isSome = true → dimms (dimmOf bankNum) = some data)
    (hkhz : 1000 ∣ busClk.toNat) : TestsAgree dimms banks data sdramConfigReg busClk := by
  intro hclk _ j _ _
  obtain ⟨khz, hkhz⟩ := hkhz
  have hall : ∀ i, supportedByAll dimms banks i = supported data i := by
    intro i
    unfold supportedByAll
    rw [Bool.eq_iff_iff, List.all_eq_true]
    constructor
    · intro h
      have hzero := h 0 (List.mem_finRange 0)
      rw [hsame 0 hfirst, Option.isNone_eq_false_iff.mpr hfirst] at hzero
      exact hzero
    · intro h bankNum _
      cases hbank : banks bankNum with
      | none => rfl
      | some bank =>
        have hdata := hsame bankNum (by rw [hbank]; rfl)
        rw [hdata]
        exact h
  have hperiod : ∀ time : BitVec 32, time.toNat ≤ 10 ^ 9 / (busClk.toNat / 1000) ↔
      time.toNat * busClk.toNat ≤ 10 ^ 12 := by
    intro time
    have hpos : 0 < khz := by omega
    have hdiv : busClk.toNat / 1000 = khz := by omega
    have hmul : time.toNat * (1000 * khz) = 1000 * (time.toNat * khz) := by
      rw [Nat.mul_left_comm]
    rw [hdiv, Nat.le_div_iff_mul_le hpos, hkhz, hmul]
    omega
  have hcommon : CommonMeets dimms banks data busClk j ↔ Meets data busClk j := by
    unfold CommonMeets Meets
    rw [hall j, rank_congr fun i _ => hall i]
    simp only [hperiod]
  rw [hcommon]
  constructor
  · exact fun h bankNum hbank => ⟨data, hsame bankNum hbank, h⟩
  · intro h
    obtain ⟨data', hdata', hmeets⟩ := h 0 hfirst
    rw [Option.some.inj (hdata'.symm.trans (hsame 0 hfirst))] at hmeets
    exact hmeets

end Choice

/-- The records of the banks of some modules. -/
def bankTable (dimms : Fin 2 → Option Spd) (bankNum : Fin 4) : Option DramBankInfo :=
  match mvDramBankInfoGet dimms bankNum with
  | .ok bank => bank
  | .error _ => none

theorem bankTable_eq {dimms : Fin 2 → Option Spd} {bankNum : Fin 4}
    (hok : (mvDramBankInfoGet dimms bankNum).isOk = true) :
    mvDramBankInfoGet dimms bankNum = .ok (bankTable dimms bankNum) := by
  unfold bankTable
  cases hget : mvDramBankInfoGet dimms bankNum with
  | error fault =>
    rw [hget] at hok
    cases hok
  | ok bank => rfl

/-- A DDR2 module with one bank of 128 MB, four devices with eight data lines each, for the
latencies it supports and the cycle times it names. -/
def moduleContent (latencies highest next third : BitVec 8) (i : Fin 128) : BitVec 8 :=
  match i.val with
  | 2 => 8
  | 3 => 13
  | 4 => 10
  | 6 => 32
  | 9 => highest
  | 12 => 0x82
  | 13 => 8
  | 17 => 4
  | 18 => latencies
  | 23 => next
  | 25 => third
  | 27 => 60
  | 28 => 30
  | 29 => 60
  | 30 => 45
  | 31 => 0x20
  | 36 => 60
  | 37 => 30
  | 38 => 30
  | 42 => 105
  | _ => 0

/-- Two modules for the latencies 3 to 5, at 3 ns, 3.75 ns and 5 ns. -/
def equalModules (_ : Fin 2) : Option Spd := some (moduleContent 0x38 0x30 0x3d 0x50)

theorem equalModules_choiceRight :
    ChoiceRight equalModules (bankTable equalModules) 0x10000 200000000 3 :=
  (minCasCalc_right_iff (fun bankNum => bankTable_eq (by revert bankNum; decide)) rfl rfl).mpr
    (testsAgree_of_same rfl (fun _ _ => rfl) (by decide)) 3 (by decide) rfl

/-- The second module supports the latencies 3 and 4 only, at 5 ns and 6 ns. -/
def unequalModules (dimmNum : Fin 2) : Option Spd :=
  if dimmNum = 0 then some (moduleContent 0x38 0x30 0x3d 0x50)
  else some (moduleContent 0x18 0x50 0x60 0)

/-- The latency 3 is chosen for a clock with a period of 5 ns. The second module needs 6 ns. -/
theorem unequalModules_not_choiceRight :
    (∀ bankNum, mvDramBankInfoGet unequalModules bankNum =
      .ok (bankTable unequalModules bankNum)) ∧
    minCasCalc 0x10000 (representative ((bankTable unequalModules 0).getD {})
      (bankTable unequalModules)) 200000000 0 = .ok ((1 : BitVec 32) <<< 3) ∧
    ¬ ChoiceRight unequalModules (bankTable unequalModules) 0x10000 200000000 3 := by
  refine ⟨fun bankNum => bankTable_eq (by revert bankNum; decide), rfl, fun h => ?_⟩
  obtain ⟨data, hdata, -, time, htime, hle⟩ := h.1 2 rfl
  have hdata' : moduleContent 0x18 0x50 0x60 0 = data := Option.some.inj hdata
  subst hdata'
  have htime' : (6000 : BitVec 32) = time := Option.some.inj htime
  subst htime'
  exact absurd hle (by decide)

end Mv88fxx81.Dram
