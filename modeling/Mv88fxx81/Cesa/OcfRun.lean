import Mv88fxx81.Cesa.Ocf

/-!
# Runs of the driver of the crypto framework

The structures in use are those of the commands in the queue, and the requests are
reported in the order they were submitted, as long as a request that is split finds
two free slots.
-/

namespace Mv88fxx81.Cesa

open TransitionSystem

section Heap

variable {heap heap' : ℕ → Option OcfProcess} {a : ℕ} {process : OcfProcess}
  {ids more done submitted : List ℕ}

/-- Each command of the list has a structure of its own, and the buffer list that it
points to is in the structure of the command or of a later one. -/
def Backed (heap : ℕ → Option OcfProcess) : List ℕ → Prop
  | [] => True
  | a :: ids => a ∉ ids ∧ (∃ process, heap a = some process ∧ process.mbuf ∈ a :: ids) ∧
    Backed heap ids

/-- The requests that the completion of the commands will report. -/
def reports (heap : ℕ → Option OcfProcess) (ids : List ℕ) : List ℕ :=
  (ids.filterMap heap).filterMap fun process => if process.needCb then some process.crp else none

/-- The structures of the commands stay as they are. -/
theorem Backed.congr (hsame : ∀ a ∈ ids, heap' a = heap a) (hbacked : Backed heap ids) :
    Backed heap' ids := by
  induction ids with
  | nil => trivial
  | cons a ids ih =>
    obtain ⟨hfresh, ⟨process, hprocess, hmbuf⟩, hrest⟩ := hbacked
    refine ⟨hfresh, ⟨process, ?_, hmbuf⟩,
      ih (fun b hb => hsame b (List.mem_cons_of_mem _ hb)) hrest⟩
    rw [hsame a List.mem_cons_self]
    exact hprocess

/-- The structures of the commands stay as they are. -/
theorem reports_congr (hsame : ∀ a ∈ ids, heap' a = heap a) :
    reports heap' ids = reports heap ids := by
  unfold reports
  rw [List.filterMap_congr hsame]

theorem reports_append (ids more : List ℕ) :
    reports heap (ids ++ more) = reports heap ids ++ reports heap more := by
  simp [reports, List.filterMap_append]

/-- The structure of a command in the list is in use. -/
theorem Backed.isSome (hbacked : Backed heap ids) (ha : a ∈ ids) : (heap a).isSome := by
  induction ids with
  | nil => cases ha
  | cons b ids ih =>
    obtain ⟨-, ⟨process, hprocess, -⟩, hrest⟩ := hbacked
    rcases List.mem_cons.mp ha with rfl | ha
    · rw [hprocess]
      rfl
    · exact ih hrest ha

/-- The structure with the buffer list of a command in the list is in use. -/
theorem Backed.live (hbacked : Backed heap ids) (ha : a ∈ ids) :
    ∃ process, heap a = some process ∧ (heap process.mbuf).isSome := by
  induction ids with
  | nil => cases ha
  | cons b ids ih =>
    have hall := hbacked
    obtain ⟨-, ⟨process, hprocess, hmbuf⟩, hrest⟩ := hbacked
    rcases List.mem_cons.mp ha with rfl | ha
    · exact ⟨process, hprocess, hall.isSome hmbuf⟩
    · exact ih hrest ha

/-- Commands with structures of their own are added. -/
theorem Backed.append (hbacked : Backed heap ids) (hmore : Backed heap more)
    (hapart : ∀ a ∈ ids, a ∉ more) : Backed heap (ids ++ more) := by
  induction ids with
  | nil => exact hmore
  | cons a ids ih =>
    obtain ⟨hfresh, ⟨process, hprocess, hmbuf⟩, hrest⟩ := hbacked
    refine ⟨?_, ⟨process, hprocess, List.mem_append_left more hmbuf⟩,
      ih hrest fun b hb => hapart b (List.mem_cons_of_mem _ hb)⟩
    intro hmem
    rcases List.mem_append.mp hmem with hold | hnew
    · exact hfresh hold
    · exact hapart a List.mem_cons_self hnew

/-- The account of the driver: the commands in the queue have their structures, and
the requests submitted are those reported and those that will be. -/
structure Ledger (heap : ℕ → Option OcfProcess) (done ids submitted : List ℕ) : Prop where
  backed : Backed heap ids
  null : heap 0 = none
  reported : done ++ reports heap ids = submitted

/-- The structure of the first command is freed when the command is reported. -/
theorem Ledger.free (hledger : Ledger heap done (a :: ids) submitted)
    (hprocess : heap a = some process) :
    Ledger (Function.update heap a none) (if process.needCb then done ++ [process.crp] else done)
      ids submitted := by
  obtain ⟨⟨hfresh, -, hrest⟩, hnull, hreported⟩ := hledger
  have hsame : ∀ b ∈ ids, Function.update heap a none b = heap b := by
    intro b hb
    refine Function.update_of_ne ?_ _ _
    rintro rfl
    exact hfresh hb
  refine ⟨hrest.congr hsame, ?_, ?_⟩
  · by_cases hzero : (0 : ℕ) = a
    · rw [← hzero, Function.update_self]
    · rw [Function.update_of_ne hzero]
      exact hnull
  · rw [reports_congr hsame, ← hreported]
    cases hneed : process.needCb <;> simp [reports, hprocess, hneed]

/-- New structures are allocated for commands that are put into the queue. -/
theorem Ledger.append (hledger : Ledger heap done ids submitted)
    (hkept : ∀ b, (heap b).isSome → heap' b = heap b) (hmore : Backed heap' more)
    (hnew : ∀ b ∈ more, heap b = none) (hnull : heap' 0 = none) :
    Ledger heap' done (ids ++ more) (submitted ++ reports heap' more) := by
  have hsame : ∀ b ∈ ids, heap' b = heap b := fun b hb => hkept b (hledger.backed.isSome hb)
  refine ⟨(hledger.backed.congr hsame).append hmore ?_, hnull, ?_⟩
  · intro b hb hb'
    have hsome := hledger.backed.isSome hb
    rw [hnew b hb'] at hsome
    cases hsome
  · rw [reports_append, reports_congr hsame, ← List.append_assoc, hledger.reported]

/-- A request with one command. -/
theorem Ledger.submit (crp : ℕ) (hledger : Ledger heap done ids submitted) (hzero : a ≠ 0)
    (hnew : heap a = none) :
    Ledger (Function.update heap a (some ⟨crp, true, a⟩)) done (ids ++ [a])
      (submitted ++ [crp]) := by
  have hreports : reports (Function.update heap a (some ⟨crp, true, a⟩)) [a] = [crp] := by
    simp [reports]
  rw [← hreports]
  apply hledger.append
  · intro b hb
    refine Function.update_of_ne ?_ _ _
    rintro rfl
    rw [hnew] at hb
    cases hb
  · exact ⟨List.not_mem_nil, ⟨_, Function.update_self .., List.mem_singleton_self _⟩, trivial⟩
  · intro b hb
    rw [List.mem_singleton.mp hb]
    exact hnew
  · rw [Function.update_of_ne hzero.symm]
    exact hledger.null

/-- A request with two commands, of which the second one is reported. -/
theorem Ledger.submitSplit (crp : ℕ) {aWa : ℕ} (hledger : Ledger heap done ids submitted)
    (hzero : a ≠ 0) (hnew : heap a = none) (hzeroWa : aWa ≠ 0) (hnewWa : heap aWa = none)
    (hne : a ≠ aWa) :
    Ledger (Function.update (Function.update heap a (some ⟨crp, true, a⟩)) aWa
      (some ⟨crp, false, a⟩)) done (ids ++ [aWa, a]) (submitted ++ [crp]) := by
  set heap' := Function.update (Function.update heap a (some ⟨crp, true, a⟩)) aWa
    (some ⟨crp, false, a⟩) with hheap
  have hfirst : heap' aWa = some ⟨crp, false, a⟩ := Function.update_self ..
  have hsecond : heap' a = some ⟨crp, true, a⟩ := by
    rw [hheap, Function.update_of_ne hne, Function.update_self]
  have hother : ∀ b, b ≠ a → b ≠ aWa → heap' b = heap b := by
    intro b hb hb'
    rw [hheap, Function.update_of_ne hb', Function.update_of_ne hb]
  have hreports : reports heap' [aWa, a] = [crp] := by
    simp [reports, hfirst, hsecond]
  rw [← hreports]
  apply hledger.append
  · intro b hb
    apply hother
    · rintro rfl
      rw [hnew] at hb
      cases hb
    · rintro rfl
      rw [hnewWa] at hb
      cases hb
  · refine ⟨by simpa using hne.symm, ⟨_, hfirst, by simp⟩, List.not_mem_nil, ⟨_, hsecond, by simp⟩,
      trivial⟩
  · intro b hb
    simp only [List.mem_cons, List.not_mem_nil, or_false] at hb
    rcases hb with rfl | rfl
    · exact hnewWa
    · exact hnew
  · rw [hother 0 hzero.symm hzeroWa.symm]
    exact hledger.null

end Heap

/-- The structures of the first `n` commands of the queue. -/
def Queue.pointers (q : Queue) (n : ℕ) : List ℕ := (q.requestIds n).map Prod.fst

/-- The invariant of the driver: the queue is scheduled, the account is right for its
commands, and no freed structure was read. -/
structure Ocf.Sound (s : Ocf) (submitted : List ℕ) : Prop where
  queue : ∃ r w, Scheduled s.hal r w ∧
    Ledger s.heap s.done (s.hal.pointers (r + w)) submitted
  depth : s.hal.depth = cesaQSize
  fault : s.fault = false

/-- The second loop of `cesa_callback` reports the commands in their order. -/
theorem callbackReport_ledger {results : List Result} {ids submitted : List ℕ} {s : Ocf}
    (hledger : Ledger s.heap s.done (results.map (·.pReqPrv) ++ ids) submitted)
    (hfault : s.fault = false) :
    Ledger (callbackReport results s).heap (callbackReport results s).done ids submitted ∧
      (callbackReport results s).fault = false ∧ (callbackReport results s).hal = s.hal := by
  induction results generalizing s with
  | nil => exact ⟨hledger, hfault, rfl⟩
  | cons result results ih =>
    obtain ⟨-, ⟨process, hprocess, -⟩, -⟩ := hledger.backed
    have hprocess : s.heap result.pReqPrv = some process := hprocess
    have hzero : result.pReqPrv ≠ 0 := by
      intro hzero
      have hnull : s.heap result.pReqPrv = none := hzero ▸ hledger.null
      rw [hnull] at hprocess
      cases hprocess
    unfold callbackReport
    rw [if_neg hzero, hprocess]
    exact ih (s := { s with
      block := s.block && !process.needCb
      done := if process.needCb then s.done ++ [process.crp] else s.done
      heap := Function.update s.heap result.pReqPrv none }) (hledger.free hprocess) hfault

/-- The queue with the channels of `readyMap` noted as finished. -/
def Queue.noted (hal : Queue) (readyMap : Fin 2 → Bool) : Queue :=
  { hal with chanReadyMap := fun c => hal.chanReadyMap c || readyMap c }

/-- Noting no channel changes nothing. -/
theorem noted_none (hal : Queue) : hal.noted (fun _ => false) = hal := by
  simp [Queue.noted]

/-- One call of `mvCesaReadyGet` takes the first command out of the queue, or none. -/
theorem mvCesaReadyGet_scheduled (readyMap : Fin 2 → Bool) (digestErr : Bool) {hal : Queue}
    {r w : ℕ} (hsched : Scheduled (hal.noted readyMap) r w) :
    ∃ r' w', Scheduled (mvCesaReadyGet readyMap digestErr hal).2.2 r' w' ∧
      (mvCesaReadyGet readyMap digestErr hal).2.2.depth = hal.depth ∧
      (((mvCesaReadyGet readyMap digestErr hal).1 ≠ .ok ∧
          (mvCesaReadyGet readyMap digestErr hal).2.2.pointers (r' + w') = hal.pointers (r + w)) ∨
        ((mvCesaReadyGet readyMap digestErr hal).1 = .ok ∧ ∃ result,
          (mvCesaReadyGet readyMap digestErr hal).2.1 = some result ∧
          hal.pointers (r + w) = result.pReqPrv ::
            (mvCesaReadyGet readyMap digestErr hal).2.2.pointers (r' + w'))) := by
  obtain ⟨r', w', hsched', hmoves, hids⟩ :=
    readyHead_scheduled (fun _ _ => True) digestErr hsched
  have hpointers : (hal.noted readyMap).pointers (r + w) = hal.pointers (r + w) := rfl
  refine ⟨r', w', hsched', hmoves.depth, ?_⟩
  rcases hids with ⟨hstatus, hids⟩ | ⟨hstatus, hresult, hids⟩
  · refine Or.inl ⟨hstatus, ?_⟩
    rw [← hpointers]
    exact congrArg (List.map Prod.fst) hids
  · refine Or.inr ⟨hstatus, _, hresult, ?_⟩
    rw [← hpointers]
    exact congrArg (List.map Prod.fst) hids

/-- The first loop of `cesa_callback` takes the commands it collects from the head of
the queue. -/
theorem callbackCollect_scheduled {rounds : List Bool} {readyMap : Fin 2 → Bool}
    {results results' : List Result} {hal hal' : Queue} {r w : ℕ}
    (hsched : Scheduled (hal.noted readyMap) r w)
    (hcollect : callbackCollect rounds readyMap results hal = some (results', hal')) :
    ∃ popped r' w', results' = results ++ popped ∧ Scheduled hal' r' w' ∧
      hal'.depth = hal.depth ∧
      hal.pointers (r + w) = popped.map (·.pReqPrv) ++ hal'.pointers (r' + w') := by
  induction rounds generalizing readyMap results hal r w with
  | nil => cases hcollect
  | cons digestErr rounds ih =>
    obtain ⟨r₁, w₁, hsched₁, hdepth₁, hids⟩ := mvCesaReadyGet_scheduled readyMap digestErr hsched
    have hnoted₁ : Scheduled
        ((mvCesaReadyGet readyMap digestErr hal).2.2.noted fun _ => false) r₁ w₁ := by
      rw [noted_none]
      exact hsched₁
    unfold callbackCollect at hcollect
    dsimp only at hcollect
    rcases hids with ⟨hstatus, hids⟩ | ⟨hstatus, result, hresult, hids⟩
    · rw [if_neg hstatus] at hcollect
      split_ifs at hcollect with hterm hlast
      · obtain ⟨popped, r', w', hresults, hsched', hdepth, hrest⟩ := ih hnoted₁ hcollect
        exact ⟨popped, r', w', hresults, hsched', hdepth.trans hdepth₁, hids ▸ hrest⟩
      · obtain ⟨rfl, rfl⟩ := Prod.mk.inj (Option.some.inj hcollect)
        exact ⟨[], r₁, w₁, (List.append_nil _).symm, hsched₁, hdepth₁, hids.symm⟩
    · rw [if_pos hstatus, hresult] at hcollect
      split_ifs at hcollect with hmany hlast
      · obtain ⟨rfl, rfl⟩ := Prod.mk.inj (Option.some.inj hcollect)
        exact ⟨[result], r₁, w₁, rfl, hsched₁, hdepth₁, hids⟩
      · obtain ⟨popped, r', w', hresults, hsched', hdepth, hrest⟩ := ih hnoted₁ hcollect
        refine ⟨result :: popped, r', w', ?_, hsched', hdepth.trans hdepth₁, ?_⟩
        · rw [hresults, List.append_assoc]
          rfl
        · rw [hids, hrest]
          rfl

/-- `cesa_callback` keeps the driver sound, if the channels that it notes finish a
scheduled queue. -/
theorem cesaCallback_sound {rounds : List Bool} {readyMap : Fin 2 → Bool} {s s' : Ocf}
    {submitted : List ℕ} (hsound : ({ s with hal := s.hal.noted readyMap } : Ocf).Sound submitted)
    (hcall : cesaCallback rounds readyMap s = some s') : s'.Sound submitted := by
  obtain ⟨⟨r, w, hsched, hledger⟩, hdepth, hfault⟩ := hsound
  unfold cesaCallback at hcall
  split at hcall
  next => cases hcall
  next results hal hcollect =>
    obtain ⟨popped, r', w', hresults, hsched', hdepth', hids⟩ :=
      callbackCollect_scheduled hsched hcollect
    obtain rfl : results = popped := hresults
    obtain rfl := Option.some.inj hcall
    have hledger : Ledger s.heap s.done (s.hal.pointers (r + w)) submitted := hledger
    rw [hids] at hledger
    obtain ⟨hledger', hfault', hhal⟩ :=
      callbackReport_ledger (s := { s with hal }) hledger hfault
    refine ⟨⟨r', w', ?_, ?_⟩, ?_, hfault'⟩
    · rw [hhal]
      exact hsched'
    · rw [hhal]
      exact hledger'
    · rw [hhal]
      exact hdepth'.trans hdepth

/-- The checks of a command depend on the session database only as far as it stays
the same. -/
theorem actionCheck_congr {hal hal' : Queue} (hsame : SameChecks hal hal') (cmd : Command) :
    actionCheck hal'.is5182 hal'.keys cmd = actionCheck hal.is5182 hal.keys cmd := by
  have hcheck : ∀ (is5182 : Bool) (ks : KeyStore), actionCheck is5182 ks cmd =
      actionCheck is5182 { ks with sad := fun sid => (ks.sad sid).association } cmd :=
    fun _ _ => rfl
  have hsad : (fun sid => (hal'.keys.sad sid).association) =
      fun sid => (hal.keys.sad sid).association := funext hsame.association
  rw [hcheck, hcheck hal.is5182, hsame.is5182, hsad]
  unfold actionCheck
  rw [hsame.maxSA]

/-- What a call of `mvCesaAction` does, for a queue whose commands have the
structures `ids`. -/
structure Acts (hal : Queue) (ids : List ℕ) (cmd : Command) (answer : Status × Queue) : Prop where
  checks : SameChecks hal answer.2
  depth : answer.2.depth = hal.depth
  pointers : ∃ r w, Scheduled answer.2 r w ∧ answer.2.pointers (r + w) =
    if answer.1.Accepted then ids ++ [cmd.pReqPrv] else ids
  resources : answer.2.resources = hal.resources - if answer.1.Accepted then 1 else 0

/-- A call of `mvCesaAction` puts the command at the end of the queue, or refuses it. -/
theorem mvCesaAction_acts (cmd : Command) {hal : Queue} {r w : ℕ} (hsched : Scheduled hal r w) :
    Acts hal (hal.pointers (r + w)) cmd (mvCesaAction cmd none hal) := by
  obtain ⟨r', w', hsched', hmoves, hids⟩ : ∃ r' w', Adds (fun _ _ => True) hal (r + w)
      cmd.requestId (mvCesaAction cmd none hal) r' w' :=
    mvCesaAction_scheduled hsched trivial fun _ _ _ _ => trivial
  have hdepth : (mvCesaAction cmd none hal).2.depth = hal.depth := hmoves.depth
  have hsize := hsched.ring.resources
  have hsize' := hsched'.ring.resources
  have hlength : ∀ (q : Queue) n, (q.requestIds n).length = n := by
    intro q n
    simp [Queue.requestIds]
  have hchecks : SameChecks hal (mvCesaAction cmd none hal).2 :=
    Moves.invariant (I := SameChecks hal) (fun hmove hq => hq.trans hmove.sameChecks) hmoves
      (.of_keys rfl rfl)
  rcases hids with ⟨hok, hmore, hids⟩ | ⟨haccepted, hids⟩
  · have hrefused : ¬ (mvCesaAction cmd none hal).1.Accepted := not_or.mpr ⟨hok, hmore⟩
    have hcount := congrArg List.length hids
    rw [hlength, hlength] at hcount
    refine ⟨hchecks, hdepth, ⟨r', w', hsched', ?_⟩, ?_⟩
    · rw [if_neg hrefused]
      exact congrArg (List.map Prod.fst) hids
    · rw [if_neg hrefused]
      omega
  · have haccepted : (mvCesaAction cmd none hal).1.Accepted := haccepted
    have hcount := congrArg List.length hids
    rw [hlength, List.length_append, hlength, List.length_singleton] at hcount
    refine ⟨hchecks, hdepth, ⟨r', w', hsched', ?_⟩, ?_⟩
    · rw [if_pos haccepted]
      exact (congrArg (List.map Prod.fst) hids).trans List.map_append
    · rw [if_pos haccepted]
      omega

/-- A command that is refused leaves the driver sound. -/
theorem Ocf.Sound.refuse {s : Ocf} {submitted : List ℕ} {hal : Queue} {r w : ℕ}
    (hsound : s.Sound submitted) (hsched : Scheduled hal r w) (hdepth : hal.depth = s.hal.depth)
    (hledger : Ledger s.heap s.done (hal.pointers (r + w)) submitted) :
    ({ s with hal } : Ocf).Sound submitted :=
  ⟨⟨r, w, hsched, hledger⟩, hdepth.trans hsound.depth, hsound.fault⟩

/-- The end of `cesa_ocf_process`. -/
theorem ocfFinish_cases (s : Ocf) (hal : Queue) (heap : ℕ → Option OcfProcess) (status : Status) :
    (¬ status.Accepted ∧ (ocfFinish s hal heap status).1 ≠ .ok ∧
        ∃ block, (ocfFinish s hal heap status).2 = { s with hal, block }) ∨
      (status.Accepted ∧ (ocfFinish s hal heap status).1 = .ok ∧
        ∃ block, (ocfFinish s hal heap status).2 = { s with hal, heap, block }) := by
  unfold ocfFinish
  by_cases hfull : status = .noResource
  · subst hfull
    rw [if_pos rfl]
    exact Or.inl ⟨by decide, by simp, true, rfl⟩
  rw [if_neg hfull]
  by_cases haccepted : status.Accepted
  · rw [if_neg (not_not_intro haccepted)]
    exact Or.inr ⟨haccepted, rfl, _, rfl⟩
  · rw [if_pos haccepted]
    exact Or.inl ⟨haccepted, by simp, _, rfl⟩

/-- The condition on the steps of a run: a request is split only if two slots of the
queue are free and its second command passes the checks. -/
def SplitFits (s : Ocf) : OcfEvent → Prop
  | .process crypt (some addr) (some addrWa) =>
    s.block = false → crypt.wellFormed = true → s.hal.resources ≠ 0 →
    actionCheck s.hal.is5182 s.hal.keys (crypt.command addr) = .notAllowed →
    crypt.auth = true ∧ (crypt.encrypt = true ∨ crypt.decrypt = true) →
    actionCheck s.hal.is5182 s.hal.keys (crypt.firstCommand addr addrWa) = .ok →
    s.hal.resources ≠ 1 ∧ actionCheck s.hal.is5182 s.hal.keys (crypt.secondCommand addr) = .ok
  | _ => True

instance (s : Ocf) (e : OcfEvent) : Decidable (SplitFits s e) :=
  match e with
  | .process _ (some _) (some _) => inferInstanceAs (Decidable (_ → _))
  | .process _ none _ | .process _ (some _) none => inferInstanceAs (Decidable True)
  | .sessionOpen _ | .sessionClose _ | .hwDone _ | .interrupt _ => inferInstanceAs (Decidable True)

/-- The request that a step submits. -/
def submittedBy : OcfEvent × Option OcfAnswer → List ℕ
  | (.process crypt _ _, some answer) => if answer.ret = .ok then [crypt.crp] else []
  | _ => []

/-- The requests that were submitted in a run, in their order. -/
def submitted (trace : List (OcfEvent × Option OcfAnswer)) : List ℕ := trace.flatMap submittedBy

/-- What a call of `cesa_ocf_process` for the request `crp` leads to: it is submitted
if it was taken, and the queue was not full for the second command. -/
structure Handles (requests : List ℕ) (crp : ℕ) (answer : OcfAnswer × Ocf) : Prop where
  second : answer.1.second ≠ some .noResource
  sound : answer.2.Sound (requests ++ if answer.1.ret = .ok then [crp] else [])

/-- A request that is not taken is not submitted. -/
theorem Handles.refuse {requests : List ℕ} {s : Ocf} {ret : OcfReturn}
    {first second : Option Status}
    (crp : ℕ) (hsound : s.Sound requests) (hret : ret ≠ .ok)
    (hsecond : second ≠ some .noResource) : Handles requests crp (⟨ret, first, second⟩, s) := by
  refine ⟨hsecond, ?_⟩
  rw [if_neg hret, List.append_nil]
  exact hsound

/-- A request that is split while two slots are free puts both commands into the
queue, or none. -/
theorem ocfSplit_sound {crypt : Cryptop} {addr : ℕ} {addrWa : Option ℕ} {s : Ocf}
    {requests : List ℕ} (hsound : s.Sound requests) (hzero : addr ≠ 0) (hnew : s.heap addr = none)
    (haddrWa : ∀ a ∈ addrWa, a ≠ 0 ∧ s.heap a = none ∧ addr ≠ a) (hfree : s.hal.resources ≠ 0)
    (hfits : ∀ a ∈ addrWa,
      actionCheck s.hal.is5182 s.hal.keys (crypt.firstCommand addr a) = .ok →
      s.hal.resources ≠ 1 ∧ actionCheck s.hal.is5182 s.hal.keys (crypt.secondCommand addr) = .ok) :
    Handles requests crypt.crp (ocfSplit crypt addr addrWa s) := by
  unfold ocfSplit
  cases addrWa with
  | none => exact .refuse _ hsound (by simp) (by simp)
  | some addrWa =>
    obtain ⟨hzeroWa, hnewWa, hne⟩ := haddrWa addrWa rfl
    obtain ⟨r, w, hsched, hledger⟩ := hsound.queue
    have hacts := mvCesaAction_acts (crypt.firstCommand addr addrWa) hsched
    have hstatus := mvCesaAction_status (crypt.firstCommand addr addrWa) s.hal hfree
    dsimp only
    set answer := mvCesaAction (crypt.firstCommand addr addrWa) none s.hal
    obtain ⟨r₁, w₁, hsched₁, hids₁⟩ := hacts.pointers
    have hfree₁ := hacts.resources
    by_cases hfirst : answer.1.Accepted
    swap
    · rw [if_pos hfirst]
      rw [if_neg hfirst] at hids₁
      exact .refuse _ (hsound.refuse hsched₁ hacts.depth (hids₁ ▸ hledger)) (by simp) (by simp)
    rw [if_neg (not_not_intro hfirst)]
    rw [if_pos hfirst] at hids₁ hfree₁
    have hcheck : actionCheck s.hal.is5182 s.hal.keys (crypt.firstCommand addr addrWa) = .ok := by
      rcases hstatus with ⟨hok, -⟩ | ⟨hcheck, hsame⟩
      · exact hok
      · rcases hfirst with hok | hmore
        · exact hsame.symm.trans hok
        · exact absurd (hsame.symm.trans hmore) (actionCheck_ne_noMore _ _ _)
    obtain ⟨htwo, hsecond⟩ := hfits addrWa rfl hcheck
    -- The slot that is left takes the second command, whose checks did not change.
    have hacts₂ := mvCesaAction_acts (crypt.secondCommand addr) hsched₁
    have hstatus₂ := mvCesaAction_status (crypt.secondCommand addr) answer.2 (by omega)
    rw [actionCheck_congr hacts.checks] at hstatus₂
    set answer₂ := mvCesaAction (crypt.secondCommand addr) none answer.2
    have haccepted : answer₂.1.Accepted := by
      rcases hstatus₂ with ⟨-, haccepted⟩ | ⟨hcheck, -⟩
      · exact haccepted
      · exact absurd hsecond hcheck
    obtain ⟨r₂, w₂, hsched₂, hids₂⟩ := hacts₂.pointers
    rw [if_pos haccepted, hids₁, List.append_assoc] at hids₂
    obtain ⟨hrefused, -⟩ | ⟨-, hret, block, hstate⟩ := ocfFinish_cases s answer₂.2
      (Function.update (Function.update s.heap addr (some ⟨crypt.crp, true, addr⟩)) addrWa
        (some ⟨crypt.crp, false, addr⟩)) answer₂.1
    · exact absurd haccepted hrefused
    · constructor
      · intro hfull
        rw [Option.some.inj hfull] at haccepted
        exact absurd haccepted (by decide)
      · rw [if_pos hret, hstate]
        refine ⟨⟨r₂, w₂, hsched₂, ?_⟩, (hacts₂.depth.trans hacts.depth).trans hsound.depth,
          hsound.fault⟩
        rw [hids₂]
        exact hledger.submitSplit crypt.crp hzero hnew hzeroWa hnewWa hne

/-- `cesa_ocf_process` keeps the driver sound, and the second command of a request
that is split finds a free slot. -/
theorem cesaOcfProcess_sound {crypt : Cryptop} {addr addrWa : Option ℕ} {s : Ocf}
    {requests : List ℕ} (hsound : s.Sound requests)
    (haddr : ∀ a ∈ addr, a ≠ 0 ∧ s.heap a = none)
    (haddrWa : ∀ a ∈ addrWa, a ≠ 0 ∧ s.heap a = none) (hne : addr = none ∨ addr ≠ addrWa)
    (hfits : SplitFits s (.process crypt addr addrWa)) :
    Handles requests crypt.crp (cesaOcfProcess crypt addr addrWa s) := by
  unfold cesaOcfProcess
  by_cases hblock : s.block = true
  · rw [if_pos hblock]
    exact .refuse _ hsound (by simp) (by simp)
  rw [if_neg hblock]
  cases addr with
  | none => exact .refuse _ hsound (by simp) (by simp)
  | some addr =>
    obtain ⟨hzero, hnew⟩ := haddr addr rfl
    dsimp only
    by_cases hformed : crypt.wellFormed = true
    swap
    · rw [if_pos hformed]
      exact .refuse _ hsound (by simp) (by simp)
    rw [if_neg (not_not_intro hformed)]
    obtain ⟨r, w, hsched, hledger⟩ := hsound.queue
    have hacts := mvCesaAction_acts (crypt.command addr) hsched
    have hstatus := mvCesaAction_status (crypt.command addr) s.hal
    have hfull : s.hal.resources = 0 →
        (mvCesaAction (crypt.command addr) none s.hal).1 = .noResource := by
      intro hfull
      simp [mvCesaAction, hfull]
    set answer := mvCesaAction (crypt.command addr) none s.hal
    obtain ⟨r₁, w₁, hsched₁, hids₁⟩ := hacts.pointers
    by_cases hsplit : answer.1 = .notAllowed
    · have hrefused : ¬ answer.1.Accepted := by
        rw [hsplit]
        decide
      have hfree := hacts.resources
      rw [if_neg hrefused] at hids₁ hfree
      have hsound₁ := hsound.refuse hsched₁ hacts.depth (hids₁ ▸ hledger)
      have hslot : s.hal.resources ≠ 0 := by
        intro hzero
        rw [hfull hzero] at hsplit
        cases hsplit
      have hcheck : actionCheck s.hal.is5182 s.hal.keys (crypt.command addr) = .notAllowed := by
        rcases hstatus hslot with ⟨-, haccepted⟩ | ⟨-, hsame⟩
        · exact absurd haccepted hrefused
        · exact hsame.symm.trans hsplit
      rw [if_pos hsplit]
      by_cases hboth : crypt.auth = true ∧ (crypt.encrypt = true ∨ crypt.decrypt = true)
      swap
      · rw [if_neg hboth]
        exact .refuse _ hsound₁ (by simp) (by simp)
      rw [if_pos hboth]
      apply ocfSplit_sound hsound₁ hzero hnew
      · intro a ha
        obtain ⟨hzeroWa, hnewWa⟩ := haddrWa a ha
        refine ⟨hzeroWa, hnewWa, ?_⟩
        rintro rfl
        exact hne.elim (by simp) fun h => h ha.symm
      · show answer.2.resources ≠ 0
        omega
      · intro a ha hfirst
        obtain rfl : addrWa = some a := ha
        rw [actionCheck_congr hacts.checks] at hfirst ⊢
        obtain ⟨htwo, hsecond⟩ := hfits (by simpa using hblock) hformed hslot hcheck hboth hfirst
        refine ⟨?_, hsecond⟩
        show answer.2.resources ≠ 1
        omega
    · rw [if_neg hsplit]
      obtain ⟨hrefused, hret, block, hstate⟩ | ⟨haccepted, hret, block, hstate⟩ :=
        ocfFinish_cases s answer.2 (Function.update s.heap addr (some ⟨crypt.crp, true, addr⟩))
          answer.1
      · rw [if_neg hrefused] at hids₁
        have hsound₁ := hsound.refuse hsched₁ hacts.depth (hids₁ ▸ hledger)
        refine .refuse _ ?_ hret (by simp)
        rw [hstate]
        exact ⟨hsound₁.queue, hsound₁.depth, hsound₁.fault⟩
      · rw [if_pos haccepted] at hids₁
        refine ⟨by simp, ?_⟩
        rw [if_pos hret, hstate]
        refine ⟨⟨r₁, w₁, hsched₁, ?_⟩, hacts.depth.trans hsound.depth, hsound.fault⟩
        rw [hids₁]
        exact hledger.submit crypt.crp hzero hnew

/-- The initial driver has no requests. -/
theorem cesaOcfInit_sound (is5182 : Bool) (numOfSession : ℕ) :
    (cesaOcfInit is5182 numOfSession).Sound [] :=
  ⟨⟨0, 0, mvCesaInit_scheduled is5182 numOfSession (by decide), trivial, rfl, rfl⟩, rfl, rfl⟩

/-- A change of the engine or the session database that keeps the schedule keeps the
driver sound. -/
theorem Ocf.Sound.withHal {s : Ocf} {requests : List ℕ} {hal : Queue} (hsound : s.Sound requests)
    (hdepth : hal.depth = s.hal.depth) (hready : hal.reqReady = s.hal.reqReady)
    (hreqs : hal.reqs = s.hal.reqs)
    (hsched : ∀ r w, Scheduled s.hal r w → Scheduled hal r w) :
    ({ s with hal } : Ocf).Sound requests := by
  obtain ⟨⟨r, w, hold, hledger⟩, hsize, hfault⟩ := hsound
  have hpointers : hal.pointers (r + w) = s.hal.pointers (r + w) := by
    unfold Queue.pointers
    rw [requestIds_congr]
    intro k _
    unfold Queue.at
    rw [pos_congr hdepth hready, hreqs]
  refine ⟨⟨r, w, hsched r w hold, ?_⟩, hdepth.trans hsize, hfault⟩
  rw [hpointers]
  exact hledger

/-- Every step that meets the condition keeps the driver sound. -/
theorem ocfStep_sound {env : OpenEnv} {s s' : Ocf} {e : OcfEvent} {o : Option OcfAnswer}
    {requests : List ℕ} (hsound : s.Sound requests) (hfits : SplitFits s e)
    (hstep : ocfStep env s e = some (o, s')) :
    (∀ answer ∈ o, answer.second ≠ some .noResource) ∧
      s'.Sound (requests ++ submittedBy (e, o)) := by
  cases e with
  | sessionOpen session =>
    obtain ⟨rfl, rfl⟩ := Prod.mk.inj (Option.some.inj hstep)
    refine ⟨by simp, ?_⟩
    simp only [submittedBy, List.append_nil]
    exact hsound.withHal rfl rfl rfl fun r w hsched =>
      hsched.congr rfl rfl rfl rfl rfl rfl rfl (fun _ => rfl) fun _ h => h
  | sessionClose sid =>
    obtain ⟨rfl, rfl⟩ := Prod.mk.inj (Option.some.inj hstep)
    refine ⟨by simp, ?_⟩
    simp only [submittedBy, List.append_nil]
    exact hsound.withHal rfl rfl rfl fun r w hsched =>
      hsched.congr rfl rfl rfl rfl rfl rfl rfl (fun _ => rfl) fun _ h => h
  | process crypt addr addrWa =>
    simp only [ocfStep] at hstep
    split at hstep
    next hfresh =>
      obtain ⟨rfl, rfl⟩ := Prod.mk.inj (Option.some.inj hstep)
      obtain ⟨haddr, haddrWa, hne⟩ := hfresh
      obtain ⟨hsecond, hsound'⟩ := cesaOcfProcess_sound hsound haddr haddrWa hne hfits
      constructor
      · rintro answer ⟨⟩
        exact hsecond
      · exact hsound'
    next => cases hstep
  | hwDone c =>
    simp only [ocfStep] at hstep
    split at hstep
    next hactive =>
      obtain ⟨rfl, rfl⟩ := Prod.mk.inj (Option.some.inj hstep)
      refine ⟨by simp, ?_⟩
      simp only [submittedBy, List.append_nil]
      exact hsound.withHal rfl rfl rfl fun r w hsched => hsched.done c
    next => cases hstep
  | interrupt rounds =>
    simp only [ocfStep] at hstep
    split at hstep
    next hall =>
      split at hstep
      next => cases hstep
      next s₁ hcall =>
        obtain ⟨rfl, rfl⟩ := Prod.mk.inj (Option.some.inj hstep)
        refine ⟨by simp, ?_⟩
        simp only [submittedBy, List.append_nil]
        refine cesaCallback_sound ?_ hcall
        refine hsound.withHal rfl rfl rfl fun r w hsched => ?_
        exact (hsched.report (fun _ _ => True) s.hal.doneMap).1.congr rfl rfl rfl rfl rfl rfl rfl
          (fun _ => rfl) fun c halive => by simpa [Queue.Alive, Queue.report, Queue.doneMap,
            Queue.noted] using halive
    next =>
      split at hstep
      next =>
        obtain ⟨rfl, rfl⟩ := Prod.mk.inj (Option.some.inj hstep)
        refine ⟨by simp, ?_⟩
        simp only [submittedBy, List.append_nil]
        exact hsound
      next => cases hstep

/-- A command in the queue is one of those at its positions. -/
theorem Ring.pointers_mem {q : Queue} {r w i : ℕ} (hring : Ring q r w)
    (hstate : (q.reqs i).state ≠ .idle) : (q.reqs i).cmd.pReqPrv ∈ q.pointers (r + w) := by
  have hi : i < q.depth := by
    by_contra hge
    exact hstate (hring.outside i (by omega))
  obtain ⟨k, hk, rfl⟩ := RingIndex.exists_cell hring.ready_lt hi
  have hlt : k < r + w := by
    by_contra hge
    exact hstate (hring.free k (by omega) hk)
  refine List.mem_map.mpr ⟨(q.at k).cmd.requestId, ?_, rfl⟩
  exact List.mem_map.mpr ⟨k, List.mem_range.mpr hlt, rfl⟩

/-- The structures of the driver. In every run in which a request is split only while
two slots are free and its second command passes the checks, the second command of a
split request is never refused for a full queue, every command in the queue points to a
structure in use whose buffer list is in one too, no freed structure is read, and the
requests reported are the first of those submitted, in their order and each once. -/
theorem ocfRun_reserved {env : OpenEnv} {is5182 : Bool} {numOfSession : ℕ}
    {trace : List (OcfEvent × Option OcfAnswer)} {s : Ocf}
    (hrun : Run (ocfStep env) SplitFits (cesaOcfInit is5182 numOfSession) trace s) :
    (∀ step ∈ trace, ∀ answer ∈ step.2, answer.second ≠ some .noResource) ∧
      (∀ i < cesaQSize, (s.hal.reqs i).state ≠ .idle → ∃ process,
        s.heap (s.hal.reqs i).cmd.pReqPrv = some process ∧ (s.heap process.mbuf).isSome) ∧
      s.fault = false ∧ s.done <+: submitted trace := by
  have hinv : (∀ step ∈ trace, ∀ answer ∈ step.2, answer.second ≠ some .noResource) ∧
      s.Sound (submitted trace) := by
    refine Run.invariant (I := fun trace s =>
      (∀ step ∈ trace, ∀ answer ∈ step.2, answer.second ≠ some .noResource) ∧
        s.Sound (submitted trace)) ?_ ?_ hrun
    · exact ⟨by simp, cesaOcfInit_sound is5182 numOfSession⟩
    · rintro trace s e o s' ⟨hseconds, hsound⟩ hfits hstep
      obtain ⟨hsecond, hsound'⟩ := ocfStep_sound hsound hfits hstep
      constructor
      · intro step hmem
        rcases List.mem_append.mp hmem with hold | hnew
        · exact hseconds step hold
        · rw [List.mem_singleton.mp hnew]
          exact hsecond
      · simpa [submitted, List.flatMap_append] using hsound'
  obtain ⟨hseconds, ⟨r, w, hsched, hledger⟩, hdepth, hfault⟩ := hinv
  refine ⟨hseconds, ?_, hfault, _, hledger.reported⟩
  intro i _ hstate
  exact hledger.backed.live (hsched.ring.pointers_mem hstate)

/-- A session with DES in CBC mode and MD5. -/
def ipsecSession (operation direction : UInt32) : OpenSession :=
  { cryptoKey := List.replicate 8 1
    macKey := []
    operation
    direction
    cryptoAlgorithm := cryptoDes
    cryptoMode := cryptoCbc
    cryptoKeyLength := 8
    macMode := macMd5
    macKeyLength := 0
    digestSize := 16 }

/-- The sessions that the driver opens for encryption followed by authentication. -/
def ipsecSessions : List OcfEvent :=
  [.sessionOpen (ipsecSession cryptoThenMac dirEncode),
    .sessionOpen (ipsecSession macThenCrypto dirDecode),
    .sessionOpen (ipsecSession cryptoOnly dirEncode),
    .sessionOpen (ipsecSession cryptoOnly dirDecode),
    .sessionOpen (ipsecSession macOnly dirEncode)]

/-- A request of `size` bytes to encrypt and authenticate a packet. -/
def ipsecRequest (crp : ℕ) (size : UInt16) : Cryptop :=
  { crp
    data := ⟨0, 1, 2, 3, 4, true⟩
    wellFormed := true
    encrypt := true
    decrypt := false
    auth := true
    cmd := { zeroCommand with
      src := ⟨0, size⟩
      cryptoOffset := 8
      cryptoLength := size - 96
      macLength := size - 88
      digestOffset := size - 88 } }

/-- A request with one command is done and reported while the two commands of a split
request are in the queue. -/
theorem ocfRun_reserved_split :
    ∃ trace s, Run (ocfStep plainEnv) SplitFits (cesaOcfInit true 640) trace s ∧
      (∀ step ∈ trace, ∀ answer ∈ step.2, answer.second ≠ some .noResource) ∧
      (s.hal.reqs 2).state = .pending ∧ (s.heap (s.hal.reqs 2).cmd.pReqPrv).isSome ∧
      s.done = [7] ∧ s.done <+: submitted trace := by
  have hexec : ∃ x ∈ exec (ocfStep plainEnv) SplitFits (cesaOcfInit true 640) (ipsecSessions ++
      [.process (ipsecRequest 7 2048) (some 1) none,
        .process (ipsecRequest 8 4096) (some 2) (some 3), .hwDone 0,
        .interrupt [false, false]]),
      (x.2.hal.reqs 2).state = .pending ∧ x.2.done = [7] := by
    decide +kernel
  obtain ⟨⟨trace, s⟩, hexec, hstate, hdone⟩ := hexec
  have hrun := Run.of_exec _ hexec
  obtain ⟨hseconds, hlive, -, hreported⟩ := ocfRun_reserved hrun
  have hbusy : (s.hal.reqs 2).state ≠ .idle := by
    intro hidle
    have hpending : (s.hal.reqs 2).state = .pending := hstate
    rw [hidle] at hpending
    cases hpending
  obtain ⟨process, hprocess, -⟩ := hlive 2 (by decide) hbusy
  exact ⟨trace, s, hrun, hseconds, hstate, by rw [hprocess]; rfl, hdone, hreported⟩

/-- Five requests with one command and twelve that are split fill the queue up to the
reserve of the driver. Each request done lets a split one in, until a single slot is
left. -/
def fullQueue : List OcfEvent :=
  (List.range 5).map (fun i => .process (ipsecRequest i 2048) (some (i + 1)) none) ++
    (List.range 12).map (fun i =>
      .process (ipsecRequest (i + 5) 4096) (some (2 * i + 6)) (some (2 * i + 7))) ++
    (List.range 4).flatMap fun i => [.hwDone 0, .interrupt [false, false],
      .process (ipsecRequest (i + 17) 4096) (some (2 * i + 30)) (some (2 * i + 31))]

/-- The second command of a split request is refused for a full queue, and the structure
of the first one is freed while the queue holds the command. -/
theorem ocfRun_reserve_exhausted :
    ∃ trace s, Run (ocfStep plainEnv) (fun _ _ => True) (cesaOcfInit true 640) trace s ∧
      (∃ step ∈ trace, ∃ answer ∈ step.2, answer.first = some .noMore ∧
        answer.second = some .noResource) ∧
      ∃ i < cesaQSize, (s.hal.reqs i).state = .pending ∧
        s.heap (s.hal.reqs i).cmd.pReqPrv = none := by
  have hexec : ∃ x ∈ exec (ocfStep plainEnv) (fun _ _ => True) (cesaOcfInit true 640)
      (ipsecSessions ++ fullQueue),
      (∃ step ∈ x.1, ∃ answer ∈ step.2, answer.first = some .noMore ∧
        answer.second = some .noResource) ∧
      ∃ i < cesaQSize, (x.2.hal.reqs i).state = .pending ∧
        x.2.heap (x.2.hal.reqs i).cmd.pReqPrv = none := by
    decide +kernel
  obtain ⟨⟨trace, s⟩, hexec, hanswer, hfreed⟩ := hexec
  exact ⟨trace, s, Run.of_exec _ hexec, hanswer, hfreed⟩

end Mv88fxx81.Cesa
