import Mv88fxx81.Pci.Scan

/-!
# Which scans are right

Every loop of `mvPciScan` enters the functions that it has to, one after the other, until the array
is full. An array that has just become full is taken for one that is too small.
-/

namespace Mv88fxx81.Pci

variable {Info : Type*} {b : PciBusses Info} {c bus dev func main : ℕ} {s s' : Agents Info}
  {pPciAgents : ℕ → PciDevice Info} {places new new₁ new₂ : List Place}

/-! ### Functions that have been entered -/

/-- The array after some functions have been entered. -/
structure Holds (c : ℕ) (pPciAgents : ℕ → PciDevice Info) (s : Agents Info) (places : List Place) :
    Prop where
  num : s.detectedDevNum = places.length
  lists : Lists s.pPciAgents places
  inArray : ∀ i, c ≤ i → s.pPciAgents i = pPciAgents i

/-- A part of the scan enters functions, if there remains room behind them. -/
structure Extends (c : ℕ) (pPciAgents : ℕ → PciDevice Info) (places new : List Place)
    (result : Bool × Agents Info) : Prop where
  room : places.length + new.length < c →
    result.1 = true ∧ Holds c pPciAgents result.2 (places ++ new)
  full : c ≤ places.length + new.length →
    result.1 = false ∧ ∀ i, c ≤ i → result.2.pPciAgents i = pPciAgents i

theorem Extends.nil (hholds : Holds c pPciAgents s places) (hlt : places.length < c) :
    Extends c pPciAgents places [] (true, s) := by
  refine ⟨fun _ => ⟨rfl, ?_⟩, fun hfull => ?_⟩
  · rw [List.append_nil]
    exact hholds
  · rw [List.length_nil] at hfull
    omega

/-- One part of the scan after the other. -/
theorem Extends.trans {result : Bool × Agents Info} {rest : Agents Info → Bool × Agents Info}
    (hfirst : Extends c pPciAgents places new₁ result)
    (hrest : places.length + new₁.length < c → Holds c pPciAgents result.2 (places ++ new₁) →
      Extends c pPciAgents (places ++ new₁) new₂ (rest result.2)) :
    Extends c pPciAgents places (new₁ ++ new₂)
      (if result.1 then rest result.2 else (false, result.2)) := by
  by_cases hlt : places.length + new₁.length < c
  · obtain ⟨hok, hholds⟩ := hfirst.room hlt
    obtain ⟨hroom, hfull⟩ := hrest hlt hholds
    rw [hok, if_pos rfl]
    rw [List.length_append] at hroom hfull
    refine ⟨fun h => ?_, fun h => ?_⟩
    · rw [List.length_append] at h
      rw [← List.append_assoc]
      exact hroom (by omega)
    · rw [List.length_append] at h
      exact hfull (by omega)
  · obtain ⟨hno, hkept⟩ := hfirst.full (Nat.not_lt.mp hlt)
    rw [hno, if_neg Bool.false_ne_true]
    refine ⟨fun h => ?_, fun _ => ⟨rfl, hkept⟩⟩
    rw [List.length_append] at h
    omega

/-! ### One function -/

theorem enter_none (hpresent : b.present bus dev func = false) : enter b bus dev func s = none := by
  have hdetect : pciDetectDevice b bus dev func (s.pPciAgents s.detectedDevNum) = none := by
    unfold PciBusses.present at hpresent
    unfold pciDetectDevice
    cases hscans : b.pciIf.scans bus dev with
    | false => exact if_neg Bool.false_ne_true
    | true =>
      rw [hscans, Bool.true_and, decide_eq_false_iff_not, not_not] at hpresent
      rw [if_pos rfl]
      exact if_pos hpresent
  unfold enter
  rw [hdetect]
  rfl

theorem enter_some (s : Agents Info) (hpresent : b.present bus dev func = true) :
    ∃ agent, enter b bus dev func s =
        some ⟨Function.update s.pPciAgents s.detectedDevNum agent, s.detectedDevNum + 1⟩ ∧
      agent.place = ⟨bus, dev, func⟩ ∧
      agent.isMultiFunction = decide (b.config bus dev func 0x0C &&& multiFunc ≠ 0) := by
  unfold PciBusses.present at hpresent
  obtain ⟨hscans, hcode⟩ := Bool.and_eq_true_iff.mp hpresent
  have hne := of_decide_eq_true hcode
  have hdetect : ∃ agent,
      pciDetectDevice b bus dev func (s.pPciAgents s.detectedDevNum) = some agent ∧
        agent.place = ⟨bus, dev, func⟩ ∧
        agent.isMultiFunction = decide (b.config bus dev func 0x0C &&& multiFunc ≠ 0) := by
    unfold pciDetectDevice
    rw [hscans, if_pos rfl]
    dsimp only
    rw [if_neg hne]
    exact ⟨_, rfl, rfl, rfl⟩
  obtain ⟨agent, hsome, hplace, hmulti⟩ := hdetect
  refine ⟨agent, ?_, hplace, hmulti⟩
  unfold enter
  rw [hsome]
  rfl

theorem funcsNum_append (places : List Place) (place new : Place) :
    funcsNum (places ++ [new]) place =
      funcsNum places place + if new.bus = place.bus ∧ new.dev = place.dev then 1 else 0 := by
  unfold funcsNum
  rw [List.countP_append, List.countP_singleton]
  by_cases hsame : new.bus = place.bus ∧ new.dev = place.dev
  · rw [decide_eq_true hsame, if_pos rfl, if_pos hsame]
  · rw [decide_eq_false hsame, if_neg Bool.false_ne_true, if_neg hsame]

/-- No function of a device has been entered. -/
def Fresh (places : List Place) (bus dev : ℕ) : Prop :=
  ∀ p ∈ places, ¬ (p.bus = bus ∧ p.dev = dev)

theorem funcsNum_fresh (hfresh : Fresh places bus dev) (func : ℕ) :
    funcsNum places ⟨bus, dev, func⟩ = 0 :=
  List.countP_eq_zero.mpr fun p hp hsame => hfresh p hp (of_decide_eq_true hsame)

/-- An entry of a list that has been extended. -/
theorem getElem?_append_singleton {i : ℕ} {place new : Place}
    (hget : (places ++ [new])[i]? = some place) :
    i < places.length ∧ places[i]? = some place ∨ i = places.length ∧ place = new := by
  by_cases hlt : i < places.length
  · rw [List.getElem?_append_left hlt] at hget
    exact Or.inl ⟨hlt, hget⟩
  · rw [List.getElem?_append_right (Nat.not_lt.mp hlt)] at hget
    have hzero : i - places.length = 0 := by
      by_contra hne
      rw [List.getElem?_eq_none (by rw [List.length_singleton]; omega)] at hget
      cases hget
    rw [hzero] at hget
    exact Or.inr ⟨by omega, (Option.some.inj hget).symm⟩

/-- The first function of a device is entered. -/
theorem Holds.first (hholds : Holds c pPciAgents s places) (hlt : places.length < c)
    (hfresh : Fresh places bus dev) {agent : PciDevice Info}
    (hplace : agent.place = ⟨bus, dev, 0⟩) :
    Holds c pPciAgents (setFuntionsNum s.detectedDevNum (fun _ => 1)
      ⟨Function.update s.pPciAgents s.detectedDevNum agent, s.detectedDevNum + 1⟩)
      (places ++ [⟨bus, dev, 0⟩]) := by
  have hentries : ∀ i, (setFuntionsNum s.detectedDevNum (fun _ => 1)
      ⟨Function.update s.pPciAgents s.detectedDevNum agent, s.detectedDevNum + 1⟩).pPciAgents i =
        if i = s.detectedDevNum then { agent with funtionsNum := 1 } else s.pPciAgents i := by
    intro i
    unfold setFuntionsNum
    dsimp only
    rw [Function.update_idem, Function.update_self]
    by_cases hi : i = s.detectedDevNum
    · rw [hi, Function.update_self, if_pos rfl]
    · rw [Function.update_of_ne hi, if_neg hi]
  refine ⟨?_, ⟨fun i place hget => ?_, fun i place hget hfunc => ?_⟩, fun i hi => ?_⟩
  · rw [List.length_append, List.length_singleton, ← hholds.num]
    rfl
  · rw [hentries, hholds.num]
    rcases getElem?_append_singleton hget with ⟨hi, hget⟩ | ⟨hi, rfl⟩
    · rw [if_neg (Nat.ne_of_lt hi)]
      exact hholds.lists.place i place hget
    · rw [if_pos hi]
      exact hplace
  · rw [hentries, hholds.num, funcsNum_append]
    rcases getElem?_append_singleton hget with ⟨hi, hget⟩ | ⟨hi, rfl⟩
    · have hother : ¬ (bus = place.bus ∧ dev = place.dev) := fun h =>
        hfresh place (List.mem_of_getElem? hget) ⟨h.1.symm, h.2.symm⟩
      rw [if_neg (Nat.ne_of_lt hi), if_neg hother]
      exact hholds.lists.funtionsNum i place hget hfunc
    · rw [if_pos hi, if_pos ⟨rfl, rfl⟩, funcsNum_fresh hfresh]
  · have hne : i ≠ s.detectedDevNum := by
      rw [hholds.num]
      omega
    rw [hentries, if_neg hne]
    exact hholds.inArray i hi

/-- The first function of a device is in an entry, and in no other one. -/
structure MainAt (places : List Place) (bus dev main : ℕ) : Prop where
  get : places[main]? = some ⟨bus, dev, 0⟩
  unique : ∀ i, places[i]? = some ⟨bus, dev, 0⟩ → i = main

theorem MainAt.append (hmain : MainAt places bus dev main) (hfunc : func ≠ 0) :
    MainAt (places ++ [⟨bus, dev, func⟩]) bus dev main := by
  obtain ⟨hlt, -⟩ := List.getElem?_eq_some_iff.mp hmain.get
  refine ⟨?_, fun i hget => ?_⟩
  · rw [List.getElem?_append_left hlt]
    exact hmain.get
  · rcases getElem?_append_singleton hget with ⟨-, hget⟩ | ⟨-, hplace⟩
    · exact hmain.unique i hget
    · exact absurd (congrArg Place.func hplace).symm hfunc

/-- A further function of a device is entered. -/
theorem Holds.further (hholds : Holds c pPciAgents s places) (hlt : places.length < c)
    (hmain : MainAt places bus dev main) (hfunc : func ≠ 0) {agent : PciDevice Info}
    (hplace : agent.place = ⟨bus, dev, func⟩) :
    Holds c pPciAgents (setFuntionsNum main (· + 1)
      ⟨Function.update s.pPciAgents s.detectedDevNum agent, s.detectedDevNum + 1⟩)
      (places ++ [⟨bus, dev, func⟩]) := by
  obtain ⟨hbefore, -⟩ := List.getElem?_eq_some_iff.mp hmain.get
  have hne : main ≠ s.detectedDevNum := by
    rw [hholds.num]
    exact Nat.ne_of_lt hbefore
  have hentries : ∀ i, (setFuntionsNum main (· + 1)
      ⟨Function.update s.pPciAgents s.detectedDevNum agent, s.detectedDevNum + 1⟩).pPciAgents i =
        if i = main then { s.pPciAgents main with
          funtionsNum := (s.pPciAgents main).funtionsNum + 1 }
        else if i = s.detectedDevNum then agent else s.pPciAgents i := by
    intro i
    unfold setFuntionsNum
    dsimp only
    rw [Function.update_of_ne hne]
    by_cases hi : i = main
    · rw [hi, Function.update_self, if_pos rfl]
    · rw [Function.update_of_ne hi, if_neg hi]
      by_cases hi' : i = s.detectedDevNum
      · rw [hi', Function.update_self, if_pos rfl]
      · rw [Function.update_of_ne hi', if_neg hi']
  refine ⟨?_, ⟨fun i place hget => ?_, fun i place hget hzero => ?_⟩, fun i hi => ?_⟩
  · rw [List.length_append, List.length_singleton, ← hholds.num]
    rfl
  · rw [hentries, hholds.num]
    rcases getElem?_append_singleton hget with ⟨hi, hget⟩ | ⟨hi, rfl⟩
    · by_cases him : i = main
      · subst him
        rw [if_pos rfl]
        exact hholds.lists.place i place hget
      · rw [if_neg him, if_neg (Nat.ne_of_lt hi)]
        exact hholds.lists.place i place hget
    · rw [if_neg (by omega), if_pos hi]
      exact hplace
  · rcases getElem?_append_singleton hget with ⟨hi, hget⟩ | ⟨hi, rfl⟩
    · rw [hentries, hholds.num, funcsNum_append]
      by_cases him : i = main
      · subst him
        have hplace' := hmain.get
        rw [hget] at hplace'
        obtain rfl := Option.some.inj hplace'
        rw [if_pos rfl, if_pos ⟨rfl, rfl⟩]
        exact congrArg (· + 1) (hholds.lists.funtionsNum i _ hget rfl)
      · have hother : ¬ (bus = place.bus ∧ dev = place.dev) := by
          rintro ⟨hbus, hdev⟩
          refine him (hmain.unique i ?_)
          rw [hget]
          cases place
          dsimp only at hbus hdev hzero
          rw [hbus, hdev, hzero]
        rw [if_neg him, if_neg (Nat.ne_of_lt hi), if_neg hother]
        exact hholds.lists.funtionsNum i place hget hzero
    · exact absurd hzero hfunc
  · have hi' : i ≠ s.detectedDevNum := by
      rw [hholds.num]
      omega
    rw [hentries, if_neg (by omega), if_neg hi']
    exact hholds.inArray i hi

/-- A function that has been entered, and whether there is room for another one. -/
theorem extends_entered {place : Place} (hholds : Holds c pPciAgents s (places ++ [place]))
    (hlt : places.length < c) :
    Extends c pPciAgents places [place]
      (if s.detectedDevNum = c then (false, s) else (true, s)) := by
  have hnum := hholds.num
  rw [List.length_append, List.length_singleton] at hnum
  refine ⟨fun hroom => ?_, fun hfull => ?_⟩
  · rw [List.length_singleton] at hroom
    rw [if_neg (by omega)]
    exact ⟨rfl, hholds⟩
  · rw [List.length_singleton] at hfull
    rw [if_pos (by omega)]
    exact ⟨rfl, hholds.inArray⟩

/-! ### The loops -/

/-- One turn of the loop over the further functions. -/
def enterFunc (b : PciBusses Info) (c bus dev main func : ℕ) (s : Agents Info) :
    Bool × Agents Info :=
  match enter b bus dev func s with
  | none => (true, s)
  | some s =>
    let s := setFuntionsNum main (· + 1) s
    if s.detectedDevNum = c then (false, s) else (true, s)

theorem scanFuncs_succ (b : PciBusses Info) (c bus dev main n func : ℕ) (s : Agents Info) :
    scanFuncs b c bus dev main (n + 1) func s =
      if (enterFunc b c bus dev main func s).1 then
        scanFuncs b c bus dev main n (func + 1) (enterFunc b c bus dev main func s).2
      else (false, (enterFunc b c bus dev main func s).2) := by
  cases henter : enter b bus dev func s with
  | none =>
    have hturn : enterFunc b c bus dev main func s = (true, s) := by
      unfold enterFunc
      rw [henter]
    rw [scanFuncs, henter, hturn]
    rfl
  | some s' =>
    by_cases hfull : (setFuntionsNum main (· + 1) s').detectedDevNum = c
    · have hturn : enterFunc b c bus dev main func s = (false, setFuntionsNum main (· + 1) s') := by
        unfold enterFunc
        rw [henter]
        exact if_pos hfull
      rw [scanFuncs, henter, hturn]
      exact if_pos hfull
    · have hturn : enterFunc b c bus dev main func s = (true, setFuntionsNum main (· + 1) s') := by
        unfold enterFunc
        rw [henter]
        exact if_neg hfull
      rw [scanFuncs, henter, hturn]
      exact if_neg hfull

theorem furtherFuncs_succ (b : PciBusses Info) (bus dev n func : ℕ) :
    b.furtherFuncs bus dev (n + 1) func =
      (if b.present bus dev func then [⟨bus, dev, func⟩] else []) ++
        b.furtherFuncs bus dev n (func + 1) := by
  unfold PciBusses.furtherFuncs
  rw [List.range'_succ, List.filter_cons]
  cases b.present bus dev func <;> rfl

/-- The further functions of a device are entered. -/
theorem scanFuncs_extends (n : ℕ) (hfunc : func ≠ 0) (hholds : Holds c pPciAgents s places)
    (hlt : places.length < c) (hmain : MainAt places bus dev main) :
    Extends c pPciAgents places (b.furtherFuncs bus dev n func)
      (scanFuncs b c bus dev main n func s) := by
  induction n generalizing func s places with
  | zero => exact Extends.nil hholds hlt
  | succ n ih =>
    rw [furtherFuncs_succ, scanFuncs_succ]
    cases hpresent : b.present bus dev func with
    | false =>
      have hturn : enterFunc b c bus dev main func s = (true, s) := by
        unfold enterFunc
        rw [enter_none hpresent]
      rw [hturn]
      exact ih (Nat.succ_ne_zero func) hholds hlt hmain
    | true =>
      obtain ⟨agent, henter, hplace, -⟩ := enter_some s hpresent
      have hnext := hholds.further hlt hmain hfunc hplace
      have hturn : Extends c pPciAgents places [⟨bus, dev, func⟩]
          (enterFunc b c bus dev main func s) := by
        unfold enterFunc
        rw [henter]
        exact extends_entered hnext hlt
      refine hturn.trans fun hroom hholds' => ?_
      refine ih (Nat.succ_ne_zero func) hholds' ?_ (hmain.append hfunc)
      rw [List.length_append]
      exact hroom

/-- The functions so far are those of devices in front of a device. -/
def Before (places : List Place) (bus dev : ℕ) : Prop :=
  ∀ p ∈ places, p.bus < bus ∨ p.bus = bus ∧ p.dev < dev

theorem Before.fresh (hbefore : Before places bus dev) : Fresh places bus dev := by
  rintro p hp ⟨hbus, hdev⟩
  rcases hbefore p hp with hlt | ⟨-, hlt⟩
  · omega
  · omega

/-- The functions of a device are on it. -/
theorem mem_ofDevice {place : Place} (hmem : place ∈ b.ofDevice bus dev) :
    place.bus = bus ∧ place.dev = dev := by
  unfold PciBusses.ofDevice at hmem
  split_ifs at hmem
  · rcases List.mem_cons.mp hmem with rfl | hmem
    · exact ⟨rfl, rfl⟩
    · obtain ⟨func, -, rfl⟩ := List.mem_map.mp hmem
      exact ⟨rfl, rfl⟩
  · rw [List.mem_singleton.mp hmem]
    exact ⟨rfl, rfl⟩
  · cases hmem

theorem Before.ofDevice (hbefore : Before places bus dev) :
    Before (places ++ b.ofDevice bus dev) bus (dev + 1) := by
  intro p hp
  rcases List.mem_append.mp hp with hp | hp
  · rcases hbefore p hp with hlt | ⟨heq, hlt⟩
    · exact Or.inl hlt
    · exact Or.inr ⟨heq, Nat.lt_succ_of_lt hlt⟩
  · obtain ⟨hbus, hdev⟩ := mem_ofDevice hp
    exact Or.inr ⟨hbus, by omega⟩

/-- The functions of a device are entered. -/
theorem scanDevice_extends (hholds : Holds c pPciAgents s places) (hlt : places.length < c)
    (hbefore : Before places bus dev) :
    Extends c pPciAgents places (b.ofDevice bus dev) (scanDevice b c bus dev s) := by
  cases hpresent : b.present bus dev 0 with
  | false =>
    unfold scanDevice PciBusses.ofDevice
    rw [enter_none hpresent, hpresent, if_neg Bool.false_ne_true]
    exact Extends.nil hholds hlt
  | true =>
    obtain ⟨agent, henter, hplace, hmulti⟩ := enter_some s hpresent
    have hfirst := hholds.first hlt hbefore.fresh hplace
    have hagent : ((setFuntionsNum s.detectedDevNum (fun _ => 1)
        ⟨Function.update s.pPciAgents s.detectedDevNum agent,
          s.detectedDevNum + 1⟩).pPciAgents s.detectedDevNum).isMultiFunction =
            b.multi bus dev := by
      unfold setFuntionsNum
      dsimp only
      rw [Function.update_self, Function.update_self]
      exact hmulti
    unfold scanDevice PciBusses.ofDevice
    rw [henter, hpresent, if_pos rfl]
    dsimp only
    rw [hagent]
    generalize setFuntionsNum s.detectedDevNum (fun _ => 1)
      (⟨Function.update s.pPciAgents s.detectedDevNum agent, s.detectedDevNum + 1⟩ :
        Agents Info) = s' at hfirst ⊢
    have hmain : MainAt (places ++ [⟨bus, dev, 0⟩]) bus dev s.detectedDevNum := by
      rw [hholds.num]
      refine ⟨by rw [List.getElem?_append_right le_rfl, Nat.sub_self]; rfl, fun i hget => ?_⟩
      rcases getElem?_append_singleton hget with ⟨-, hget⟩ | ⟨hi, -⟩
      · exact (hbefore.fresh _ (List.mem_of_getElem? hget) ⟨rfl, rfl⟩).elim
      · exact hi
    have hnum := hfirst.num
    rw [List.length_append, List.length_singleton] at hnum
    have hentered := extends_entered hfirst hlt
    by_cases hfull : s'.detectedDevNum = c
    · rw [if_pos hfull]
      refine ⟨fun hroom => ?_, fun _ => ⟨rfl, hfirst.inArray⟩⟩
      rw [List.length_cons] at hroom
      omega
    · rw [if_neg hfull] at hentered ⊢
      have hlt' : (places ++ [Place.mk bus dev 0]).length < c := by
        rw [List.length_append, List.length_singleton]
        omega
      cases hmulti' : b.multi bus dev with
      | false =>
        rw [if_neg Bool.false_ne_true, if_neg Bool.false_ne_true]
        exact hentered
      | true =>
        rw [if_pos rfl, if_pos rfl]
        exact hentered.trans fun _ hholds' => scanFuncs_extends (maxPciFuncs - 1) Nat.one_ne_zero
          hholds' hlt' hmain

/-- The functions of the devices of a bus are entered. -/
theorem scanDevices_extends (n : ℕ) (hholds : Holds c pPciAgents s places) (hlt : places.length < c)
    (hbefore : Before places bus dev) :
    Extends c pPciAgents places (b.ofDevices bus n dev) (scanDevices b c bus n dev s) := by
  induction n generalizing dev s places with
  | zero => exact Extends.nil hholds hlt
  | succ n ih =>
    have hnew : b.ofDevices bus (n + 1) dev =
        b.ofDevice bus dev ++ b.ofDevices bus n (dev + 1) := by
      unfold PciBusses.ofDevices
      rw [List.range'_succ, List.flatMap_cons]
    have hturn : scanDevices b c bus (n + 1) dev s =
        if (scanDevice b c bus dev s).1 then
          scanDevices b c bus n (dev + 1) (scanDevice b c bus dev s).2
        else (false, (scanDevice b c bus dev s).2) := by
      rw [scanDevices]
      rcases scanDevice b c bus dev s with ⟨_ | _, s'⟩ <;> rfl
    rw [hnew, hturn]
    refine (scanDevice_extends hholds hlt hbefore).trans fun hroom hholds' => ?_
    refine ih hholds' ?_ hbefore.ofDevice
    rw [List.length_append]
    exact hroom

/-- The functions on the devices of a bus are on it. -/
theorem Before.ofDevices (n : ℕ) (hbefore : Before places bus 0) :
    Before (places ++ b.ofDevices bus n 0) (bus + 1) 0 := by
  intro p hp
  rcases List.mem_append.mp hp with hp | hp
  · rcases hbefore p hp with hlt | ⟨-, hlt⟩
    · exact Or.inl (Nat.lt_succ_of_lt hlt)
    · exact absurd hlt (Nat.not_lt_zero _)
  · obtain ⟨dev, -, hp⟩ := List.mem_flatMap.mp hp
    exact Or.inl (by have := (mem_ofDevice hp).1; omega)

/-- The functions on the busses are entered. -/
theorem scanBusses_extends (n : ℕ) (hholds : Holds c pPciAgents s places) (hlt : places.length < c)
    (hbefore : Before places bus 0) :
    Extends c pPciAgents places (b.ofBusses n bus) (scanBusses b c n bus s) := by
  induction n generalizing bus s places with
  | zero => exact Extends.nil hholds hlt
  | succ n ih =>
    have hnew : b.ofBusses (n + 1) bus =
        b.ofDevices bus maxPciDevices 0 ++ b.ofBusses n (bus + 1) := by
      unfold PciBusses.ofBusses
      rw [List.range'_succ, List.flatMap_cons]
    have hturn : scanBusses b c (n + 1) bus s =
        if (scanDevices b c bus maxPciDevices 0 s).1 then
          scanBusses b c n (bus + 1) (scanDevices b c bus maxPciDevices 0 s).2
        else (false, (scanDevices b c bus maxPciDevices 0 s).2) := by
      rw [scanBusses]
      rcases scanDevices b c bus maxPciDevices 0 s with ⟨_ | _, s'⟩ <;> rfl
    rw [hnew, hturn]
    refine (scanDevices_extends maxPciDevices hholds hlt hbefore).trans fun hroom hholds' => ?_
    refine ih hholds' ?_ (hbefore.ofDevices maxPciDevices)
    rw [List.length_append]
    exact hroom

/-! ### The scan -/

/-- With at least one entry, the scan is right exactly when the functions do not just fill the
array. -/
theorem mvPciScan_right_iff (b : PciBusses Info) (pPciAgents : ℕ → PciDevice Info)
    (hpos : 1 ≤ c) :
    ScanRight b pPciAgents c (mvPciScan b pPciAgents c) ↔ b.functions.length ≠ c := by
  have hstart : Holds c pPciAgents ⟨pPciAgents, 0⟩ [] :=
    ⟨rfl, ⟨nofun, nofun⟩, fun _ _ => rfl⟩
  have hscan := @scanBusses_extends Info b c b.pciIf.localBus ⟨pPciAgents, 0⟩ pPciAgents []
    (maxPciBusses - b.pciIf.localBus) hstart hpos nofun
  generalize hbusses : scanBusses b c (maxPciBusses - b.pciIf.localBus) b.pciIf.localBus
    ⟨pPciAgents, 0⟩ = result at hscan
  obtain ⟨ok, s⟩ := result
  have hresult : mvPciScan b pPciAgents c =
      if ok then ⟨true, s.pPciAgents, s.detectedDevNum⟩ else ⟨false, s.pPciAgents, c⟩ := by
    unfold mvPciScan
    dsimp only
    rw [hbusses]
    cases ok <;> rfl
  rw [hresult]
  obtain ⟨hroom, hfull⟩ := hscan
  rw [List.length_nil, Nat.zero_add] at hroom hfull
  by_cases hlt : b.functions.length < c
  · obtain ⟨hok, hholds⟩ := hroom hlt
    dsimp only at hok
    rw [hok, if_pos rfl]
    refine iff_of_true ⟨hholds.inArray, iff_of_true rfl (Nat.le_of_lt hlt), fun _ => ?_⟩
      (Nat.ne_of_lt hlt)
    exact ⟨hholds.lists, hholds.num⟩
  · obtain ⟨hno, hkept⟩ := hfull (Nat.not_lt.mp hlt)
    dsimp only at hno
    rw [hno, if_neg Bool.false_ne_true]
    constructor
    · intro hright hlen
      have hok := hright.ok_iff.mpr (Nat.le_of_eq hlen)
      cases hok
    · intro hne
      exact ⟨hkept, iff_of_false nofun (by omega), nofun⟩

/-- An interface with two functions of a device on its own bus, and one on the bus behind it. -/
def twoBusses : PciBusses Unit where
  pciIf := ⟨false, 254, 0, 0, 0⟩
  config bus dev func _ :=
    if bus = 254 ∧ dev = 0 ∧ func < 2 ∨ bus = 255 ∧ dev = 3 ∧ func = 0 then 0x518111ab
    else pciErrorCode
  info _ _ _ _ := ()

/-- An entry that has not been filled. -/
def noDevice : PciDevice Unit := ⟨0, 0, 0, 0, 0, false, (), 0⟩

/-- The three functions are reported in an array of four entries. -/
theorem twoBusses_scanRight :
    ScanRight twoBusses (fun _ => noDevice) 4 (mvPciScan twoBusses (fun _ => noDevice) 4) :=
  (mvPciScan_right_iff twoBusses (fun _ => noDevice) (by decide)).mpr (by decide)

/-- An interface whose own bus is the last one, with one function on it. -/
def oneFunction : PciBusses Unit where
  pciIf := ⟨false, 255, 0, 0, 0⟩
  config bus dev func _ := if bus = 255 ∧ dev = 0 ∧ func = 0 then 0x518111ab else pciErrorCode
  info _ _ _ _ := ()

/-- One function in an array of one entry is not reported. -/
theorem oneFunction_not_scanRight :
    ¬ ScanRight oneFunction (fun _ => noDevice) 1
      (mvPciScan oneFunction (fun _ => noDevice) 1) := by
  intro hright
  have hlength : oneFunction.functions.length ≤ 1 := by decide
  have hok := hright.ok_iff.mpr hlength
  have hno : (mvPciScan oneFunction (fun _ => noDevice) 1).ok = false := by decide
  rw [hno] at hok
  cases hok

end Mv88fxx81.Pci
