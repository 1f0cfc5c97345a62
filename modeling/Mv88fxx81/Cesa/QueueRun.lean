import Mv88fxx81.Cesa.KeyCache
import Mv88fxx81.Cesa.Moves

/-!
# Runs of the request queue

Requests are handed back in the order they were accepted, each once, and the queue
is never left with waiting requests only.
-/

namespace Mv88fxx81.Cesa

open RingIndex TransitionSystem

/-- The queue between two calls: `r` requests are in process and `w` wait. -/
structure Scheduled (q : Queue) (r w : ℕ) : Prop where
  ring : Ring q r w
  serving : ∃ n, Serving q r n ∧ q.reqProcess = q.pos n
  alive : ∀ k < r, q.Alive (q.at k).chanId
  working : 0 < w → 0 < r

section Calls

variable {accept : SA → Command → Prop} {q q' : Queue} {r w n : ℕ}

/-- The end of a call notes the next request to be started. -/
theorem Reaches.scheduled (hreach : Reaches accept q q' r w n) (hworking : 0 < w → 0 < r) :
    Scheduled { q' with reqProcess := q'.pos n } r w :=
  ⟨hreach.ring.congr rfl rfl rfl rfl rfl,
    ⟨n, hreach.serving.congr rfl (fun _ _ => rfl) (fun _ => rfl), rfl⟩, hreach.alive, hworking⟩

/-- The end of a call notes the next request to be started. -/
theorem Reaches.moves_scheduled (hreach : Reaches accept q q' r w n) :
    Moves accept q { q' with reqProcess := q'.pos n } :=
  hreach.moves.tail (.control rfl rfl rfl rfl rfl fun _ => ⟨rfl, rfl, rfl⟩)

/-- Nothing waits behind the request to be started next if that slot is free. -/
theorem Ring.waiting_of_ne (hring : Ring q r w) (hne : q.pos r ≠ q.reqEmpty) :
    ∃ w', w = w' + 1 := by
  refine ⟨w - 1, ?_⟩
  by_contra hzero
  obtain rfl : w = 0 := by omega
  exact hne hring.empty.symm

/-- After a request was handed back, `mvCesaReadyGet` starts the next one if it can. -/
theorem readyNext_short (accept : SA → Command → Prop) {c : Fin 2} (status : Status)
    (hring : Ring q r w) (hshort : Short q r) (halive : ∀ k < r, q.Alive (q.at k).chanId)
    (hc : (q.chan c).state = .ready) (hroom : r + w < q.depth) (hprocess : q.reqProcess = q.pos r) :
    ∃ r' w', Scheduled (readyNext c status q).2 r' w' ∧ (readyNext c status q).1 = status ∧
      Moves accept q (readyNext c status q).2 ∧ r' + w' = r + w ∧
      ∀ k < r' + w', ((readyNext c status q).2.at k).cmd = (q.at k).cmd := by
  have hsize := hring.resources
  have hstay : Reaches accept q q r w r := .refl hring (.short hshort) halive
  have hidle : (q.reqs (q.pos r)).state ≠ .process := by
    intro hstate
    obtain ⟨k, hk, hsame⟩ := hring.process_pos hstate
    have := (cell_inj (by omega) (by omega)).mp hsame
    omega
  unfold readyNext
  dsimp only
  rw [hprocess, if_neg hidle]
  by_cases hempty : q.pos r = q.reqEmpty
  · have hw : w = 0 := by
      rw [hring.empty] at hempty
      have := (cell_inj (by omega) hroom).mp hempty
      omega
    rw [if_neg (not_not_intro hempty)]
    exact ⟨r, w, ⟨hring, ⟨r, .short hshort, hprocess⟩, halive, by omega⟩, rfl, .refl, rfl,
      fun _ _ => rfl⟩
  obtain ⟨w, rfl⟩ := hring.waiting_of_ne hempty
  rw [if_pos hempty]
  obtain ⟨hpending, hmode⟩ := hring.waiting r (by omega) (by omega)
  by_cases hbig : (q.reqs (q.pos r)).cmd.Large
  · rw [if_pos hbig]
    by_cases hhead : q.pos r = q.reqReady
    · have hr : r = 0 := by
        rw [← hring.pos_zero] at hhead
        exact (cell_inj (by omega) (by omega)).mp hhead
      subst hr
      rw [if_pos hhead]
      rcases @waitingMode_large (q.at 0).cmd with hnone | ⟨hfirst, -⟩
      · have hreach : Reaches accept q _ 1 w 1 :=
          Short.reaches_large hring hshort hbig (hmode.trans hnone)
        have hnone' : (q.reqs (q.pos 0)).fragMode = .none := hmode.trans hnone
        rw [if_neg (not_not_intro hnone'), hreach.next_pos (by omega)]
        exact ⟨1, w, hreach.scheduled (by omega), rfl, hreach.moves_scheduled, by omega,
          hreach.kept⟩
      · have hreach : Reaches accept q _ 1 w 0 := Short.reaches_first hring hshort hbig
        have hnotNone : (q.reqs (q.pos 0)).fragMode ≠ .none := by
          show (q.at 0).fragMode ≠ .none
          rw [hmode, hfirst]
          simp
        have hmiddle : ((fragFirst (q.pos 0) q).reqs (q.pos 0)).fragMode ≠ .last := by
          rw [(fragFirst_started (q.pos 0) q).1.reqs, Function.update_self]
          simp
        rw [if_pos hnotNone, mvCesaFragReqProcess_first (hmode.trans hfirst), if_neg hmiddle]
        refine ⟨1, w, ⟨hreach.ring, ⟨0, hreach.serving, ?_⟩, hreach.alive, by omega⟩, rfl,
          hreach.moves, by omega, hreach.kept⟩
        rw [hreach.reqProcess, hprocess, pos_congr hreach.depth hreach.reqReady]
    · have hr : 0 < r := by
        by_contra hzero
        obtain rfl : r = 0 := by omega
        exact hhead hring.pos_zero
      rw [if_neg hhead]
      exact ⟨r, w + 1, ⟨hring, ⟨r, .short hshort, hprocess⟩, halive, fun _ => hr⟩, rfl, .refl, rfl,
        fun _ _ => rfl⟩
  · rw [if_neg hbig]
    have hreach : Reaches accept q _ (r + 1) w (r + 1) :=
      Short.reaches_start hring hshort halive hc hbig
    rw [hreach.next_pos (by omega)]
    exact ⟨r + 1, w, hreach.scheduled (by omega), rfl, hreach.moves_scheduled, by omega,
      hreach.kept⟩

/-- After a fragment is done, `mvCesaReadyGet` continues the request, which is not
ready yet. -/
theorem readyNext_more (accept : SA → Command → Prop) {c : Fin 2} (hring : Ring q 1 w)
    (halone : Alone q true) (hprocess : q.reqProcess = q.pos 0) :
    Scheduled (readyNext c .notReady q).2 1 w ∧ (readyNext c .notReady q).1 ≠ .ok ∧
      Moves accept q (readyNext c .notReady q).2 ∧
      ∀ k < 1 + w, ((readyNext c .notReady q).2.at k).cmd = (q.at k).cmd := by
  have htwo := hring.two_le
  have hstate : (q.reqs (q.pos 0)).state = .process := hring.running 0 (by omega)
  obtain ⟨hstatus, n, hreach, hn⟩ := Alone.reaches_next accept hring halone
  have hpos := pos_congr hreach.depth hreach.reqReady
  have hsame : (mvCesaFragReqProcess (q.pos 0) q).2.reqs (q.pos 0) =
      (mvCesaFragReqProcess (q.pos 0) q).2.at 0 := by
    unfold Queue.at
    rw [hpos]
  unfold readyNext
  dsimp only
  rw [hprocess, if_pos hstate]
  have hfine : ¬ ((mvCesaFragReqProcess (q.pos 0) q).1 ≠ .ok ∧
      (mvCesaFragReqProcess (q.pos 0) q).1 ≠ .terminate) := by
    rintro ⟨hok, hterm⟩
    exact hstatus.elim hok hterm
  rw [if_neg hfine, hsame]
  by_cases hlast : ((mvCesaFragReqProcess (q.pos 0) q).2.at 0).fragMode = .last
  · rw [if_pos hlast, hreach.next_pos (by omega)]
    rw [if_pos hlast] at hn
    subst hn
    refine ⟨hreach.scheduled (by omega), ?_, hreach.moves_scheduled, hreach.kept⟩
    rcases hstatus with hok | hterm
    · simp [hok]
    · simp [hterm]
  · rw [if_neg hlast]
    rw [if_neg hlast] at hn
    subst hn
    refine ⟨⟨hreach.ring, ⟨0, hreach.serving, ?_⟩, hreach.alive, by omega⟩, ?_, hreach.moves,
      hreach.kept⟩
    · rw [hreach.reqProcess, hprocess, hpos]
    · rcases hstatus with hok | hterm
      · simp [hok]
      · simp [hterm]

/-- What names a request to its caller. -/
def Command.requestId (cmd : Command) : ℕ × UInt16 := (cmd.pReqPrv, cmd.sessionId)

/-- The requests at the first `n` positions of the queue. -/
def Queue.requestIds (q : Queue) (n : ℕ) : List (ℕ × UInt16) :=
  (List.range n).map fun k => (q.at k).cmd.requestId

/-- The same commands are the same requests. -/
theorem requestIds_congr (hkept : ∀ k < n, (q'.at k).cmd = (q.at k).cmd) :
    q'.requestIds n = q.requestIds n := by
  refine List.map_congr_left fun k hk => ?_
  rw [hkept k (List.mem_range.mp hk)]

/-- The requests behind the head. -/
theorem requestIds_succ (hkept : ∀ k < n, (q'.at k).cmd = (q.at (k + 1)).cmd) :
    q.requestIds (n + 1) = (q.at 0).cmd.requestId :: q'.requestIds n := by
  unfold Queue.requestIds
  rw [List.range_succ_eq_map, List.map_cons, List.map_map]
  congr 1
  refine List.map_congr_left fun k hk => ?_
  rw [hkept k (List.mem_range.mp hk)]
  rfl

/-- Taking the finished request at the head out of the queue. -/
theorem Scheduled.retire (hsched : Scheduled q (r + 1) w)
    (hmode : (q.at 0).fragMode = .none ∨ (q.at 0).fragMode = .last) :
    let q₁ := (q.finishChan (q.at 0).chanId).retire
    Ring q₁ r w ∧ Short q₁ r ∧ (∀ k < r, q₁.Alive (q₁.at k).chanId) ∧
      q₁.reqProcess = q₁.pos r ∧ ∀ k < r + w, (q₁.at k).cmd = (q.at (k + 1)).cmd := by
  intro q₁
  have hring := hsched.ring
  have hsize := hring.resources
  have hring' : Ring (q.finishChan (q.at 0).chanId) (r + 1) w := hring.congr rfl rfl rfl rfl rfl
  have hpos : ∀ k < q.depth, q₁.pos k = q.pos (k + 1) := fun k hk => cell_next hring.ready_lt hk
  have hat : ∀ k < r + w, q₁.at k = q.at (k + 1) := by
    intro k hk
    exact hring'.at_retire (by show k + 1 < q.depth; omega)
  have hkept : ∀ k < r + w, (q₁.at k).cmd = (q.at (k + 1)).cmd := by
    intro k hk
    rw [hat k hk]
  obtain ⟨n, hserving, hprocess⟩ := hsched.serving
  cases hserving with
  | short hshort =>
    refine ⟨hring'.retire, hshort.retire hring, ?_, ?_, hkept⟩
    · intro k hk
      have hle := hshort.le_two
      obtain rfl : k = 0 := by omega
      have hne : (q.at 1).chanId ≠ (q.at 0).chanId := (hshort.apart (by omega)).symm
      have hchan : q₁.chan (q.at 1).chanId = q.chan (q.at 1).chanId := Function.update_of_ne hne _ _
      have hmap : q₁.chanReadyMap (q.at 1).chanId = q.chanReadyMap (q.at 1).chanId :=
        Function.update_of_ne hne _ _
      have hold := hsched.alive 1 (by omega)
      rw [hat 0 (by omega)]
      unfold Queue.Alive at *
      rwa [hchan, hmap]
    · rw [hpos r (by omega)]
      exact hprocess
  | more halone =>
    have hmiddle : (q.at 0).fragMode = .middle := halone.fragMode
    rw [hmiddle] at hmode
    rcases hmode with hmode | hmode <;> cases hmode
  | done halone =>
    refine ⟨hring'.retire, halone.retire, by omega, ?_, hkept⟩
    rw [hpos 0 (by have := hring.two_le; omega)]
    exact hprocess

/-- A call of `mvCesaReadyGet` hands back the request at the head of the queue, or
none. -/
theorem readyHead_scheduled (accept : SA → Command → Prop) (digestErr : Bool)
    (hsched : Scheduled q r w) :
    ∃ r' w', Scheduled (readyHead digestErr q).2.2 r' w' ∧
      Moves accept q (readyHead digestErr q).2.2 ∧
      (((readyHead digestErr q).1 ≠ .ok ∧
          (readyHead digestErr q).2.2.requestIds (r' + w') = q.requestIds (r + w)) ∨
        ((readyHead digestErr q).1 = .ok ∧
          (readyHead digestErr q).2.1 = some (readyResult digestErr q) ∧
          q.requestIds (r + w) = (q.reqs q.reqReady).cmd.requestId ::
            (readyHead digestErr q).2.2.requestIds (r' + w'))) := by
  have hring := hsched.ring
  have hsize := hring.resources
  have htwo := hring.two_le
  obtain ⟨n, hserving, hprocess⟩ := hsched.serving
  have hhead : q.reqs q.reqReady = q.at 0 := by
    unfold Queue.at
    rw [hring.pos_zero]
  unfold readyHead
  dsimp only
  rw [hhead]
  by_cases hempty : q.reqReady = q.reqProcess ∧ (q.at 0).state ≠ .process
  · rw [if_pos hempty]
    exact ⟨r, w, hsched, .refl, Or.inl ⟨by simp, rfl⟩⟩
  rw [if_neg hempty]
  by_cases hnoted : q.chanReadyMap (q.at 0).chanId = false
  · rw [if_pos hnoted]
    exact ⟨r, w, hsched, .refl, Or.inl ⟨by simp, rfl⟩⟩
  rw [if_neg hnoted]
  by_cases hactive : (q.chan (q.at 0).chanId).active = true
  · rw [if_pos hactive]
    exact ⟨r, w, hsched, .refl, Or.inl ⟨by simp, rfl⟩⟩
  rw [if_neg hactive]
  obtain ⟨r, rfl⟩ : ∃ r', r = r' + 1 := by
    refine ⟨r - 1, ?_⟩
    by_contra hzero
    obtain rfl : r = 0 := by omega
    obtain rfl : w = 0 := by
      have := hsched.working
      omega
    refine hempty ⟨?_, ?_⟩
    · cases hserving with
      | short hshort => rw [hprocess, hring.pos_zero]
    · rw [hring.free 0 (by omega) (by omega)]
      simp
  have hstate : (q.reqs q.reqReady).state = .process := by
    rw [hhead]
    exact hring.running 0 (by omega)
  have hfinish : Move accept q (q.finishChan (q.at 0).chanId) := by
    refine .control rfl rfl rfl rfl rfl fun c => ?_
    show (Function.update q.chan (q.at 0).chanId _ c).desc = _ ∧ _
    by_cases hc : c = (q.at 0).chanId
    · subst hc
      simp [Queue.finishChan, Queue.setChanState]
    · simp [Queue.finishChan, Queue.setChanState, Function.update_of_ne hc]
  by_cases hmode : (q.at 0).fragMode = .none ∨ (q.at 0).fragMode = .last
  · rw [if_pos hmode]
    obtain ⟨hring₁, hshort₁, halive₁, hprocess₁, hkept₁⟩ := hsched.retire hmode
    have hc : ((q.finishChan (q.at 0).chanId).retire.chan (q.at 0).chanId).state = .ready := by
      simp [Queue.retire, Queue.finishChan, Queue.setChanState, Queue.note, Queue.setReq]
    have hroom : r + w < q.depth := by omega
    obtain ⟨r', w', hsched', hstatus, hmoves, hsum, hkept⟩ :=
      readyNext_short accept .ok hring₁ hshort₁ halive₁ hc hroom hprocess₁
    refine ⟨r', w', hsched', ?_, Or.inr ⟨hstatus, rfl, ?_⟩⟩
    · exact .head hfinish (.head (.retire hstate) hmoves)
    · rw [show r + 1 + w = r' + w' + 1 by omega]
      refine requestIds_succ fun k hk => ?_
      rw [hkept k hk, hkept₁ k (by omega)]
  · rw [if_neg hmode]
    cases hserving with
    | short hshort => exact absurd (Or.inl (hshort.short 0 (by omega)).2) hmode
    | done halone => exact absurd halone.fragMode hmode
    | more halone =>
      have hring₁ : Ring (q.finishChan (q.at 0).chanId) 1 w := hring.congr rfl rfl rfl rfl rfl
      have halone₁ : Alone (q.finishChan (q.at 0).chanId) true := by
        refine halone.congr rfl rfl ?_
        rw [halone.chanId]
        simp [Queue.finishChan, Queue.setChanState]
      obtain ⟨hsched', hstatus, hmoves, hkept⟩ :=
        readyNext_more accept hring₁ halone₁ hprocess (c := (q.at 0).chanId)
      exact ⟨1, w, hsched', .head hfinish hmoves, Or.inl ⟨hstatus, requestIds_congr hkept⟩⟩

/-- The answers of the parameter checks. -/
theorem mvCesaParamCheck_cases (sa : SA) (cmd : Command) :
    mvCesaParamCheck sa cmd = .ok ∨ mvCesaParamCheck sa cmd = .badParam := by
  unfold mvCesaParamCheck paramCheckCrypto
  grind

/-- The answers of the checks for fragmentation. -/
theorem mvCesaFragParamCheck_cases (is5182 : Bool) (sa : SA) (cmd : Command) :
    mvCesaFragParamCheck is5182 sa cmd = .ok ∨ mvCesaFragParamCheck is5182 sa cmd = .badParam ∨
      mvCesaFragParamCheck is5182 sa cmd = .notAllowed := by
  unfold mvCesaFragParamCheck fragParamCheckAuth fragParamCheckCrypto fragParamCheckBoth
  grind

/-- The fragment mode of an accepted command is that of a waiting request. -/
theorem fragModeOf_ok {is5182 : Bool} {sa : SA} {cmd : Command} {fragMode : FragMode}
    (hmode : fragModeOf is5182 sa cmd = .ok fragMode) : fragMode = waitingMode cmd := by
  unfold fragModeOf at hmode
  unfold waitingMode
  grind

/-- The answers to a command that is refused because of its size. -/
theorem fragModeOf_error {is5182 : Bool} {sa : SA} {cmd : Command} {status : Status}
    (hmode : fragModeOf is5182 sa cmd = .error status) :
    status = .badParam ∨ status = .notAllowed := by
  have hcases := mvCesaFragParamCheck_cases is5182 sa cmd
  unfold fragModeOf at hmode
  grind

/-- What a call that may add a request to the queue leads to: the queue is
scheduled, and the request is at its end if it was accepted. -/
structure Adds (accept : SA → Command → Prop) (q : Queue) (n : ℕ) (id : ℕ × UInt16)
    (answer : Status × Queue) (r w : ℕ) : Prop where
  scheduled : Scheduled answer.2 r w
  moves : Moves accept q answer.2
  requestIds : (answer.1 ≠ .ok ∧ answer.1 ≠ .noMore ∧
      answer.2.requestIds (r + w) = q.requestIds n) ∨
    ((answer.1 = .ok ∨ answer.1 = .noMore) ∧
      answer.2.requestIds (r + w) = q.requestIds n ++ [id])

/-- A request is refused without a change. -/
theorem Scheduled.refuse {status : Status} (hsched : Scheduled q r w) (id : ℕ × UInt16)
    (hok : status ≠ .ok) (hmore : status ≠ .noMore) :
    Adds accept q (r + w) id (status, q) r w :=
  ⟨hsched, .refl, Or.inl ⟨hok, hmore, rfl⟩⟩

/-- A command that passed the parameter checks is put into the queue, or refused
by the checks for fragmentation. -/
theorem actionQueue_scheduled (cmd : Command) (hsched : Scheduled q r w) (hfree : q.resources ≠ 0)
    (hsid : cmd.sid < q.keys.maxSA) (hvalid : (q.keys.sad cmd.sid).valid = true)
    (haccept : accept (q.keys.sad cmd.sid) cmd) :
    ∃ r' w', Adds accept q (r + w) cmd.requestId
      (actionQueue cmd (q.keys.sad cmd.sid) q) r' w' := by
  unfold actionQueue
  cases hmode : fragModeOf q.is5182 (q.keys.sad cmd.sid) cmd with
  | error status =>
    rcases fragModeOf_error hmode with rfl | rfl
    · exact ⟨r, w, hsched.refuse _ (by simp) (by simp)⟩
    · exact ⟨r, w, hsched.refuse _ (by simp) (by simp)⟩
  | ok fragMode =>
    obtain rfl := fragModeOf_ok hmode
    have hring := hsched.ring
    have hsize := hring.resources
    have hring₁ := hring.enqueue cmd (q.keys.sad cmd.sid) hfree
    have hlast : r + w < q.depth := by omega
    have hat := fun j (hj : j < q.depth) =>
      hring.at_enqueue hlast cmd (q.keys.sad cmd.sid) (waitingMode cmd) hj
    have hidle : (q.reqs q.reqEmpty).state = .idle := by
      rw [hring.empty]
      exact hring.free (r + w) (by omega) hlast
    obtain ⟨n, hserving, hprocess⟩ := hsched.serving
    have hold : ∀ k < r, (q.enqueue cmd (q.keys.sad cmd.sid) (waitingMode cmd)).at k = q.at k := by
      intro k hk
      rw [hat k (by omega), if_neg (by omega)]
    obtain ⟨r', w', n', hreach, hnext, hsum, hpos⟩ :=
      actionChans_reaches accept hring₁ (hserving.congr rfl hold fun _ => rfl)
        (fun k hk => by rw [hold k hk]; exact hsched.alive k hk) hsched.working hprocess
    dsimp only
    rw [hnext]
    refine ⟨r', w', hreach.scheduled fun _ => hpos,
      .head (.enqueue hidle hsid hvalid haccept) hreach.moves_scheduled, Or.inr ⟨?_, ?_⟩⟩
    · dsimp only
      split
      · exact Or.inr rfl
      · exact Or.inl rfl
    · refine (requestIds_congr hreach.kept).trans ?_
      rw [hsum]
      unfold Queue.requestIds
      rw [List.range_succ, List.map_append, List.map_singleton, hat _ hlast, if_pos rfl]
      congr 1
      refine List.map_congr_left fun k hk => ?_
      have hk' := List.mem_range.mp hk
      rw [hat k (by omega), if_neg (by omega)]

/-- A request that is refused may leave notes in the free slot. -/
theorem Scheduled.note (req : Req) (hsched : Scheduled q r w) (hfree : q.resources ≠ 0)
    (hreq : req.state = .idle) : Scheduled (q.setReq q.reqEmpty req) r w := by
  have hring := hsched.ring
  have hsize := hring.resources
  have hlast : r + w < q.depth := by omega
  have hreqs : (q.setReq q.reqEmpty req).reqs = Function.update q.reqs (q.pos (r + w)) req := by
    rw [← hring.empty]
    rfl
  have hat : ∀ j < q.depth, (q.setReq q.reqEmpty req).at j = if j = r + w then req else q.at j :=
    fun j hj => at_of_update rfl rfl hreqs hj hlast
  have hold : ∀ k < r + w, (q.setReq q.reqEmpty req).at k = q.at k := by
    intro k hk
    rw [hat k (by omega), if_neg (by omega)]
  obtain ⟨n, hserving, hprocess⟩ := hsched.serving
  refine ⟨⟨hring.two_le, hring.ready_lt, hring.empty, hsize, ?_, ?_, ?_, ?_⟩, ?_, ?_,
    hsched.working⟩
  · intro k hk
    rw [hold k (by omega)]
    exact hring.running k hk
  · intro k hk hk'
    rw [hold k hk']
    exact hring.waiting k hk hk'
  · intro k hk hk'
    rw [hat k hk']
    split
    · exact hreq
    · exact hring.free k hk hk'
  · exact hring.outside_update hlast.le rfl hreqs
  · exact ⟨n, hserving.congr rfl (fun k hk => hold k (by omega)) fun _ => rfl, hprocess⟩
  · intro k hk
    rw [hold k (by omega)]
    exact hsched.alive k hk

/-- The notes in the free slot do not change the requests of the queue. -/
theorem Scheduled.note_requestIds (req : Req) (hsched : Scheduled q r w)
    (hfree : q.resources ≠ 0) :
    (q.setReq q.reqEmpty req).requestIds (r + w) = q.requestIds (r + w) := by
  have hsize := hsched.ring.resources
  have hreqs : (q.setReq q.reqEmpty req).reqs = Function.update q.reqs (q.pos (r + w)) req := by
    rw [← hsched.ring.empty]
    rfl
  refine requestIds_congr fun k hk => ?_
  have hat : (q.setReq q.reqEmpty req).at k = if k = r + w then req else q.at k :=
    at_of_update rfl rfl hreqs (by omega) (by omega)
  rw [hat, if_neg (by omega)]

/-- The command that `mvCesaAction` puts into the queue: in counter mode that of the
key stream, if there is memory for it. -/
def queuedCommand (sa : SA) (cmd : Command) (ctrMemory : Option CtrMemory) : Option Command :=
  if sa.ctrMode then
    ctrMemory.map fun memory =>
      (mvCesaCtrModePrepare memory.keyStream (mvCesaCtrModeInit memory.fresh) cmd).2
  else some cmd

/-- The command is one in counter mode that is not refused before its key stream is
prepared. -/
def Queue.WantsKeyStream (q : Queue) (cmd : Command) : Prop :=
  q.resources ≠ 0 ∧ cmd.sid < q.keys.maxSA ∧ (q.keys.sad cmd.sid).valid = true ∧
    (q.keys.sad cmd.sid).ctrMode = true ∧ operationOf (q.keys.sad cmd.sid).config = cryptoOnly

/-- The condition on the steps of a run: no key stream that is to be prepared lacks its
memory. -/
def HasKeyStream (q : Queue) : QueueEvent → Prop
  | .action cmd (some memory) => q.WantsKeyStream cmd → memory.keyStream = true
  | _ => True

instance (q : Queue) (e : QueueEvent) : Decidable (HasKeyStream q e) :=
  match e with
  | .action cmd (some memory) =>
    haveI : Decidable (q.WantsKeyStream cmd) := inferInstanceAs (Decidable (_ ∧ _))
    inferInstanceAs (Decidable (_ → memory.keyStream = true))
  | .action _ none | .sessionOpen _ | .sessionClose _ | .readyGet _ _ | .hwDone _ =>
    inferInstanceAs (Decidable True)

/-- A call of `mvCesaAction` adds the request to the end of the queue, or refuses it. -/
theorem mvCesaAction_scheduled {cmd : Command} {ctrMemory : Option CtrMemory}
    (hsched : Scheduled q r w) (hkey : HasKeyStream q (.action cmd ctrMemory))
    (haccept : (q.keys.sad cmd.sid).valid = true →
      ((q.keys.sad cmd.sid).ctrMode = false → mvCesaParamCheck (q.keys.sad cmd.sid) cmd = .ok) →
      ∀ queued ∈ queuedCommand (q.keys.sad cmd.sid) cmd ctrMemory,
        accept (q.keys.sad cmd.sid) queued) :
    ∃ r' w', Adds accept q (r + w) cmd.requestId (mvCesaAction cmd ctrMemory q) r' w' := by
  have hring := hsched.ring
  have hsize := hring.resources
  unfold mvCesaAction
  dsimp only
  by_cases hfree : q.resources = 0
  · rw [if_pos hfree]
    exact ⟨r, w, hsched.refuse _ (by simp) (by simp)⟩
  rw [if_neg hfree]
  by_cases hopen : cmd.sid ≥ q.keys.maxSA ∨ ¬ (q.keys.sad cmd.sid).valid = true
  · rw [if_pos hopen]
    exact ⟨r, w, hsched.refuse _ (by simp) (by simp)⟩
  rw [if_neg hopen]
  simp only [not_or, not_le, not_not, ge_iff_le] at hopen
  obtain ⟨hsid, hvalid⟩ := hopen
  have hidle : (q.reqs q.reqEmpty).state = .idle := by
    rw [hring.empty]
    exact hring.free (r + w) (by omega) (by omega)
  by_cases hctr : (q.keys.sad cmd.sid).ctrMode = true
  · rw [if_pos hctr]
    by_cases hop : operationOf (q.keys.sad cmd.sid).config ≠ cryptoOnly
    · rw [if_pos hop]
      exact ⟨r, w, hsched.refuse _ (by simp) (by simp)⟩
    rw [if_neg hop]
    cases ctrMemory with
    | none =>
      exact ⟨r, w, hsched.note _ hfree hidle, .single (.note hidle (Or.inr rfl)),
        Or.inl ⟨by simp, by simp, hsched.note_requestIds _ hfree⟩⟩
    | some memory =>
      have hstream : memory.keyStream = true := hkey ⟨hfree, hsid, hvalid, hctr, not_not.mp hop⟩
      have haccept' := haccept hvalid (fun h => absurd (h.symm.trans hctr) (by simp)) _
        (if_pos hctr)
      dsimp only
      set ctrCmd := (mvCesaCtrModePrepare memory.keyStream (mvCesaCtrModeInit memory.fresh) cmd).2
        with hctrCmd
      have hid : ctrCmd.sessionId = cmd.sessionId ∧ ctrCmd.requestId = cmd.requestId := by
        rw [hctrCmd, hstream]
        exact ⟨rfl, rfl⟩
      have hsame : ctrCmd.sid = cmd.sid := congrArg UInt16.toNat hid.1
      have hsched₁ : Scheduled (q.setReq q.reqEmpty
          { q.reqs q.reqEmpty with orgCmd := some cmd, fixOffset := 0 }) r w :=
        hsched.note _ hfree hidle
      rw [← hsame] at hsid hvalid haccept' ⊢
      obtain ⟨r', w', hsched', hmoves, hids⟩ :=
        actionQueue_scheduled ctrCmd hsched₁ hfree hsid hvalid haccept'
      refine ⟨r', w', hsched', .head (.note hidle (Or.inl rfl)) hmoves, ?_⟩
      rw [hsched.note_requestIds _ hfree, hid.2] at hids
      exact hids
  · rw [if_neg hctr]
    by_cases hcheck : mvCesaParamCheck (q.keys.sad cmd.sid) cmd ≠ .ok
    · rw [if_pos hcheck]
      rw [(mvCesaParamCheck_cases _ _).resolve_left hcheck]
      exact ⟨r, w, hsched.refuse _ (by simp) (by simp)⟩
    · rw [if_neg hcheck]
      have haccept' := haccept hvalid (fun _ => not_not.mp hcheck) cmd (if_neg hctr)
      exact actionQueue_scheduled cmd hsched hfree hsid hvalid haccept'

/-- The schedule does not depend on the session database, and not on the engine as
long as a channel that is alive stays so. -/
theorem Scheduled.congr (hsched : Scheduled q r w) (hdepth : q'.depth = q.depth)
    (hready : q'.reqReady = q.reqReady) (hempty : q'.reqEmpty = q.reqEmpty)
    (hprocess : q'.reqProcess = q.reqProcess) (hresources : q'.resources = q.resources)
    (hreqs : q'.reqs = q.reqs) (hlarge : q'.largeInProc = q.largeInProc)
    (hchan : ∀ c, (q'.chan c).state = (q.chan c).state) (halive : ∀ c, q.Alive c → q'.Alive c) :
    Scheduled q' r w := by
  have hat : q'.at = q.at := by
    funext k
    unfold Queue.at
    rw [pos_congr hdepth hready, hreqs]
  obtain ⟨n, hserving, hnext⟩ := hsched.serving
  refine ⟨hsched.ring.congr hdepth hready hempty hresources hreqs, ⟨n, ?_, ?_⟩, ?_,
    hsched.working⟩
  · exact hserving.congr hlarge (fun k _ => by rw [hat]) hchan
  · rw [hprocess, hnext, pos_congr hdepth hready]
  · intro k hk
    rw [hat]
    exact halive _ (hsched.alive k hk)

/-- The state in which `mvCesaReadyGet` has noted the channels that reported done. -/
def Queue.report (q : Queue) (chanMap : Fin 2 → Bool) : Queue :=
  { q with
    chan := fun c => { q.chan c with done := (q.chan c).done && !chanMap c }
    chanReadyMap := fun c => q.chanReadyMap c || chanMap c }

/-- Noting the channels that reported done keeps the schedule. -/
theorem Scheduled.report (accept : SA → Command → Prop) (chanMap : Fin 2 → Bool)
    (hsched : Scheduled q r w) :
    Scheduled (q.report chanMap) r w ∧ Move accept q (q.report chanMap) := by
  refine ⟨hsched.congr rfl rfl rfl rfl rfl rfl rfl (fun _ => rfl) fun c halive => ?_,
    .control rfl rfl rfl rfl rfl fun _ => ⟨rfl, rfl, rfl⟩⟩
  unfold Queue.Alive Queue.report at *
  cases hc : chanMap c
  · simpa [hc] using halive
  · simp [hc]

/-- A channel that reports done stays alive. -/
theorem Scheduled.done (c : Fin 2) (hsched : Scheduled q r w) :
    Scheduled { q with
      chan := Function.update q.chan c { q.chan c with active := false, done := true } } r w := by
  refine hsched.congr rfl rfl rfl rfl rfl rfl rfl ?_ ?_
  · intro c'
    by_cases hc : c' = c
    · subst hc
      simp
    · simp [Function.update_of_ne hc]
  · intro c' halive
    unfold Queue.Alive at *
    by_cases hc : c' = c
    · subst hc
      simp
    · simpa [Function.update_of_ne hc] using halive

/-- The initial queue is empty. -/
theorem mvCesaInit_scheduled (is5182 : Bool) (numOfSession : ℕ) {queueDepth : ℕ}
    (hdepth : 2 ≤ queueDepth) : Scheduled (mvCesaInit is5182 numOfSession queueDepth) 0 0 := by
  have hpos : 0 < queueDepth := by omega
  refine ⟨⟨hdepth, hpos, (cell_zero hpos).symm, Nat.zero_add _, by omega, by omega,
    fun _ _ _ => rfl,
    fun _ _ => rfl⟩, ⟨0, .short ⟨rfl, by omega, by omega, by omega, ?_⟩, (cell_zero hpos).symm⟩,
    by omega, by omega⟩
  intro c
  rw [if_neg (by simp)]
  rfl

end Calls

/-- The request an event adds to the accepted ones. -/
def acceptedBy : QueueEvent × QueueAnswer → List (ℕ × UInt16)
  | (.action cmd _, .acted status) =>
    if status = .ok ∨ status = .noMore then [cmd.requestId] else []
  | _ => []

/-- The request an event hands back. -/
def returnedBy : QueueEvent × QueueAnswer → List (ℕ × UInt16)
  | (.readyGet _ _, .ready status (some result)) =>
    if status = .ok then [(result.pReqPrv, result.sessionId)] else []
  | _ => []

/-- The requests accepted in a run, in their order. -/
def accepted (trace : List (QueueEvent × QueueAnswer)) : List (ℕ × UInt16) :=
  trace.flatMap acceptedBy

/-- The requests handed back in a run, in their order. -/
def returned (trace : List (QueueEvent × QueueAnswer)) : List (ℕ × UInt16) :=
  trace.flatMap returnedBy

/-- A command that passes the parameter checks is admitted by `accept`. -/
def Admits (accept : SA → Command → Prop) (q : Queue) : QueueEvent → Prop
  | .action cmd ctrMemory => (q.keys.sad cmd.sid).valid = true →
    ((q.keys.sad cmd.sid).ctrMode = false → mvCesaParamCheck (q.keys.sad cmd.sid) cmd = .ok) →
    ∀ queued ∈ queuedCommand (q.keys.sad cmd.sid) cmd ctrMemory, accept (q.keys.sad cmd.sid) queued
  | _ => True

/-- Every event is admitted if all commands are. -/
theorem admits_true (q : Queue) (e : QueueEvent) : Admits (fun _ _ => True) q e := by
  cases e with
  | action cmd ctrMemory => exact fun _ _ _ _ => trivial
  | _ => exact trivial

/-- What an event does: it opens or closes a session, or is made of moves. -/
def EventMoves (accept : SA → Command → Prop) (env : OpenEnv) (q q' : Queue) : QueueEvent → Prop
  | .sessionOpen session => q' = { q with keys := (mvCesaSessionOpen env session q.keys).2.2 }
  | .sessionClose sid => q' = { q with keys := (mvCesaSessionClose sid q.keys).2 }
  | _ => Moves accept q q'

/-- Every event keeps the schedule, and the queue holds the requests that were
accepted and not handed back. -/
theorem queueStep_scheduled {accept : SA → Command → Prop} {env : OpenEnv} {q q' : Queue}
    {e : QueueEvent} {o : QueueAnswer} {r w : ℕ} (hsched : Scheduled q r w)
    (hkey : HasKeyStream q e) (hadmits : Admits accept q e)
    (hstep : queueStep env q e = some (o, q')) :
    ∃ r' w', Scheduled q' r' w' ∧ EventMoves accept env q q' e ∧
      q.requestIds (r + w) ++ acceptedBy (e, o) = returnedBy (e, o) ++ q'.requestIds (r' + w') := by
  cases e with
  | sessionOpen session =>
    obtain ⟨rfl, rfl⟩ := Prod.mk.inj (Option.some.inj hstep)
    exact ⟨r, w, hsched.congr rfl rfl rfl rfl rfl rfl rfl (fun _ => rfl) fun _ h => h, rfl,
      List.append_nil _⟩
  | sessionClose sid =>
    obtain ⟨rfl, rfl⟩ := Prod.mk.inj (Option.some.inj hstep)
    exact ⟨r, w, hsched.congr rfl rfl rfl rfl rfl rfl rfl (fun _ => rfl) fun _ h => h, rfl,
      List.append_nil _⟩
  | action cmd ctrMemory =>
    simp only [queueStep, Option.some.injEq, Prod.mk.injEq] at hstep
    obtain ⟨rfl, rfl⟩ := hstep
    obtain ⟨r', w', hsched', hmoves, hids⟩ := mvCesaAction_scheduled hsched hkey hadmits
    refine ⟨r', w', hsched', hmoves, ?_⟩
    rcases hids with ⟨hok, hmore, hids⟩ | ⟨hstatus, hids⟩
    · rw [hids]
      simp [acceptedBy, returnedBy, hok, hmore]
    · rw [hids]
      simp [acceptedBy, returnedBy, hstatus]
  | readyGet chanMap digestErr =>
    simp only [queueStep] at hstep
    split at hstep
    next hdone =>
      change some (QueueAnswer.ready (readyHead digestErr (q.report chanMap)).1
        (readyHead digestErr (q.report chanMap)).2.1,
        (readyHead digestErr (q.report chanMap)).2.2) = some (o, q') at hstep
      simp only [Option.some.injEq, Prod.mk.injEq] at hstep
      obtain ⟨rfl, rfl⟩ := hstep
      obtain ⟨hnoted, hcontrol⟩ := hsched.report accept chanMap
      obtain ⟨r', w', hsched', hmoves, hids⟩ := readyHead_scheduled accept digestErr hnoted
      refine ⟨r', w', hsched', .head hcontrol hmoves, ?_⟩
      rcases hids with ⟨hstatus, hids⟩ | ⟨hstatus, hresult, hids⟩
      · have hnone : returnedBy (.readyGet chanMap digestErr, .ready
            (readyHead digestErr (q.report chanMap)).1
            (readyHead digestErr (q.report chanMap)).2.1) = [] := by
          unfold returnedBy
          grind
        rw [hnone, List.nil_append, hids]
        exact List.append_nil _
      · rw [hresult, hstatus]
        exact (List.append_nil _).trans hids
    next => cases hstep
  | hwDone c =>
    simp only [queueStep] at hstep
    split at hstep
    next hactive =>
      obtain ⟨rfl, rfl⟩ := Prod.mk.inj (Option.some.inj hstep)
      refine ⟨r, w, hsched.done c, .single ?_, List.append_nil _⟩
      refine .control rfl rfl rfl rfl rfl fun c' => ?_
      by_cases hc : c' = c
      · subst hc
        simp
      · simp [Function.update_of_ne hc]
    next => cases hstep

/-- Events do not change the depth of the queue. -/
theorem EventMoves.depth {accept : SA → Command → Prop} {env : OpenEnv} {q q' : Queue}
    {e : QueueEvent} (hmoves : EventMoves accept env q q' e) : q'.depth = q.depth := by
  cases e with
  | sessionOpen session =>
    simp only [EventMoves] at hmoves
    rw [hmoves]
  | sessionClose sid =>
    simp only [EventMoves] at hmoves
    rw [hmoves]
  | action cmd ctrMemory => exact Moves.depth hmoves
  | readyGet chanMap digestErr => exact Moves.depth hmoves
  | hwDone c => exact Moves.depth hmoves

/-- Along every run that has memory for its key streams, the queue is scheduled and holds
the requests that were accepted and not handed back. -/
theorem queueRun_scheduled {env : OpenEnv} {is5182 : Bool} {numOfSession queueDepth : ℕ}
    (hdepth : 2 ≤ queueDepth) {trace : List (QueueEvent × QueueAnswer)} {q : Queue}
    (hrun : Run (queueStep env) HasKeyStream (mvCesaInit is5182 numOfSession queueDepth) trace q) :
    q.depth = queueDepth ∧ ∃ r w, Scheduled q r w ∧
      accepted trace = returned trace ++ q.requestIds (r + w) := by
  refine Run.invariant (I := fun trace q => q.depth = queueDepth ∧ ∃ r w, Scheduled q r w ∧
    accepted trace = returned trace ++ q.requestIds (r + w)) ?_ ?_ hrun
  · exact ⟨rfl, 0, 0, mvCesaInit_scheduled is5182 numOfSession hdepth, rfl⟩
  · rintro trace q e o q' ⟨hq, r, w, hsched, hids⟩ hkey hstep
    obtain ⟨r', w', hsched', hmoves, hids'⟩ :=
      queueStep_scheduled hsched hkey (admits_true q e) hstep
    refine ⟨hmoves.depth.trans hq, r', w', hsched', ?_⟩
    calc accepted (trace ++ [(e, o)])
        = accepted trace ++ acceptedBy (e, o) := by
          simp [accepted, List.flatMap_append]
      _ = returned trace ++ (q.requestIds (r + w) ++ acceptedBy (e, o)) := by
          rw [hids, List.append_assoc]
      _ = returned (trace ++ [(e, o)]) ++ q'.requestIds (r' + w') := by
          rw [hids']
          simp [returned, List.flatMap_append]

/-- First in, first out, and no stalling. In every run from the initial state that has
memory for its key streams, the requests handed back are a prefix of the accepted ones,
the free slots of the queue are those not taken by an accepted request that was not handed
back, and as long as there is one, some request is in process on a channel that the engine
works on or has finished. -/
theorem queueRun_fifo {env : OpenEnv} {is5182 : Bool} {numOfSession queueDepth : ℕ}
    (hdepth : 2 ≤ queueDepth) {trace : List (QueueEvent × QueueAnswer)} {q : Queue}
    (hrun : Run (queueStep env) HasKeyStream (mvCesaInit is5182 numOfSession queueDepth)
      trace q) :
    returned trace <+: accepted trace ∧
      q.resources + ((accepted trace).length - (returned trace).length) = queueDepth ∧
      ((returned trace).length < (accepted trace).length →
        ∃ i < queueDepth, (q.reqs i).state = .process ∧ q.Alive (q.reqs i).chanId) := by
  obtain ⟨hq, r, w, hsched, hids⟩ := queueRun_scheduled hdepth hrun
  have hsize := hsched.ring.resources
  have hlength : (accepted trace).length = (returned trace).length + (r + w) := by
    rw [hids]
    simp [Queue.requestIds]
  refine ⟨⟨_, hids.symm⟩, by omega, ?_⟩
  intro houtstanding
  have hr : 0 < r := by
    by_contra hzero
    have := hsched.working
    omega
  refine ⟨q.pos 0, ?_, hsched.ring.running 0 hr, hsched.alive 0 hr⟩
  rw [← hq]
  exact hsched.ring.pos_lt (Nat.zero_le _)

/-- A command of `size` bytes for session 0 that encrypts all of its data. -/
def plainCommand (pReqPrv : ℕ) (size : UInt16) : Command :=
  { zeroCommand with
    pReqPrv
    src := ⟨0, size⟩
    dst := ⟨0, size⟩
    cryptoLength := size }

/-- A session that encrypts in counter mode. -/
def ctrSession : OpenSession :=
  { desSession 1 with
    cryptoKey := List.replicate 16 1
    cryptoAlgorithm := cryptoAes
    cryptoMode := cryptoCtr
    cryptoKeyLength := 16 }

/-- A run on a queue of two slots: two requests are accepted, the first one in counter
mode, and it is handed back while the second one is in process. -/
theorem queueRun_fifo_two_requests :
    ∃ trace q, Run (queueStep plainEnv) HasKeyStream (mvCesaInit false 4 2) trace q ∧
      accepted trace = [(1, 0), (2, 1)] ∧ returned trace = [(1, 0)] ∧ q.resources + 1 = 2 ∧
      ∃ i < 2, (q.reqs i).state = .process ∧ q.Alive (q.reqs i).chanId := by
  have hrun : Run (queueStep plainEnv) HasKeyStream (mvCesaInit false 4 2) _ _ :=
    Run.of_exec [.sessionOpen ctrSession, .sessionOpen (desSession 1),
      .action (plainCommand 1 16) (some ⟨plainCommand 7 48, true⟩),
      .action { plainCommand 2 16 with sessionId := 1 } none, .hwDone 0,
      .readyGet (fun c => c = 0) false] rfl
  obtain ⟨-, hresources, hbusy⟩ := queueRun_fifo (by decide) hrun
  exact ⟨_, _, hrun, rfl, rfl, hresources, hbusy (by decide)⟩

/-- A request in counter mode without memory for its key stream is accepted, and what is
handed back for it is what the memory of its command held before. -/
theorem queueRun_returns_stale :
    ∃ trace q, Run (queueStep plainEnv) (fun _ _ => True) (mvCesaInit false 4 2) trace q ∧
      accepted trace = [(1, 0)] ∧ returned trace = [(7, 0)] ∧
      ¬ returned trace <+: accepted trace := by
  have hrun : Run (queueStep plainEnv) (fun _ _ => True) (mvCesaInit false 4 2) _ _ :=
    Run.of_exec [.sessionOpen ctrSession,
      .action (plainCommand 1 16) (some ⟨plainCommand 7 48, false⟩), .hwDone 0,
      .readyGet (fun c => c = 0) false] rfl
  refine ⟨_, _, hrun, rfl, rfl, ?_⟩
  show ¬ [((7 : ℕ), (0 : UInt16))] <+: [(1, 0)]
  decide

end Mv88fxx81.Cesa
