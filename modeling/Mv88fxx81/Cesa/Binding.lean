import Mv88fxx81.Cesa.QueueRun

/-!
# Requests and the sessions they were accepted for

A request refers to its session by number. As long as no session is closed that a
request in the queue belongs to, every use of the session for the request reads the
association that was open when the request was accepted: the entry of the database,
the configuration word and the key material that the engine is given, and the entry
that is read when the request is handed back.
-/

namespace Mv88fxx81.Cesa

open TransitionSystem

/-- The use is one of the association the request was accepted for, and that
association is open. -/
structure Use.Faithful (use : Use) : Prop where
  valid : use.entry.valid = true
  association : use.entry.association = use.accepted.association
  engine : ∀ given ∈ use.engine, given.2 = use.accepted.cacheSA.keys ∧
    ∃ mode : FragMode, given.1 = use.accepted.config ||| mode.bits

/-- The session of a request in the queue is open with the association it was
accepted for. -/
structure Req.Bound (ks : KeyStore) (req : Req) : Prop where
  range : req.cmd.sid < ks.maxSA
  valid : (ks.sad req.cmd.sid).valid = true
  association : (ks.sad req.cmd.sid).association = req.accepted.association

/-- The invariant of the driver: the key cache is coherent, the requests in the
queue are bound to their sessions, a request with fragments to come has a slot, and
all uses so far were faithful. -/
structure Queue.Bound (q : Queue) : Prop where
  coherent : q.keys.Coherent
  queued : ∀ i, (q.reqs i).state ≠ .idle → (q.reqs i).Bound q.keys
  loaded : ∀ i, (q.reqs i).state = .process → (q.reqs i).fragMode = .middle →
    (q.keys.sad (q.reqs i).cmd.sid).cacheIdx ≠ mvInvalid
  uses : ∀ use ∈ q.uses, use.Faithful

/-- Entries of one association have the same configuration word. -/
theorem association_config {sa sa' : SA} (h : sa.association = sa'.association) :
    sa.config = sa'.config := by
  have hconfig := congrArg SA.config h
  exact hconfig

/-- A session that keeps its association keeps its requests bound. -/
theorem Req.Bound.congr {ks ks' : KeyStore} {req : Req} (hbound : req.Bound ks)
    (hmax : ks'.maxSA = ks.maxSA)
    (hassoc : (ks'.sad req.cmd.sid).association = (ks.sad req.cmd.sid).association) :
    req.Bound ks' :=
  ⟨by rw [hmax]; exact hbound.range, by rw [(association_valid hassoc).1]; exact hbound.valid,
    hassoc.trans hbound.association⟩

/-- A use that reads the entry of a bound request, without the engine. -/
theorem Req.Bound.faithful {ks : KeyStore} {req : Req} (hbound : req.Bound ks) :
    Use.Faithful ⟨req.accepted, ks.sad req.cmd.sid, none⟩ :=
  ⟨hbound.valid, hbound.association, by simp⟩

/-- A use that gives a bound request with a slot of its own to the engine. -/
theorem Req.Bound.faithful_engine {ks : KeyStore} {req : Req} (hbound : req.Bound ks)
    (howns : ks.Owns req.cmd.sid (ks.sad req.cmd.sid).cacheIdx) (mode : FragMode) :
    Use.Faithful ⟨req.accepted, ks.sad req.cmd.sid,
      some ((ks.sad req.cmd.sid).config ||| mode.bits,
        (ks.cacheSA (ks.sad req.cmd.sid).cacheIdx).keys)⟩ := by
  refine ⟨hbound.valid, hbound.association, ?_⟩
  rintro given ⟨⟩
  refine ⟨?_, mode, ?_⟩
  · exact howns.keys.trans (association_valid hbound.association).2
  · rw [association_config hbound.association]

/-- Starting a request loads the slot of its session and gives it to the engine. -/
theorem mvCesaReqProcess_uses {q : Queue} {c : Fin 2} {p : ℕ}
    (hc : (q.reqs p).cmd.Large → c = 0) :
    (mvCesaReqProcess c p q).2.keys = (mvCesaCacheSramUpdate (q.reqs p).cmd.sid q.keys).2 ∧
      (mvCesaReqProcess c p q).2.uses = q.uses ++ [⟨(q.reqs p).accepted,
        (mvCesaCacheSramUpdate (q.reqs p).cmd.sid q.keys).2.sad (q.reqs p).cmd.sid,
        some (((mvCesaCacheSramUpdate (q.reqs p).cmd.sid q.keys).2.sad (q.reqs p).cmd.sid).config,
          ((mvCesaCacheSramUpdate (q.reqs p).cmd.sid q.keys).2.cacheSA
            ((mvCesaCacheSramUpdate (q.reqs p).cmd.sid q.keys).2.sad
              (q.reqs p).cmd.sid).cacheIdx).keys)⟩] := by
  by_cases hlarge : (q.reqs p).cmd.Large
  · obtain rfl := hc hlarge
    simp [mvCesaReqProcess, mvCesaCmdProcess, hlarge, Queue.setReq, Queue.setChanState,
      Queue.startEngine, Queue.note]
  · simp [mvCesaReqProcess, mvCesaCmdProcess, hlarge, Queue.setReq, Queue.setChanState,
      Queue.startEngine, Queue.note]

/-- The size of the database does not change when a slot is loaded. -/
theorem mvCesaCacheSramUpdate_maxSA (ks : KeyStore) (sid : ℤ) :
    (mvCesaCacheSramUpdate sid ks).2.maxSA = ks.maxSA := by
  unfold mvCesaCacheSramUpdate loadSlot
  dsimp only
  split
  · split <;> rfl
  · rfl

section Moves

variable {q q' : Queue} {p : ℕ} {req : Req}

/-- Writing a bound request keeps the requests in the queue bound. -/
theorem Queue.Bound.queued_update {ks : KeyStore}
    (hqueued : ∀ i, (q.reqs i).state ≠ .idle → (q.reqs i).Bound ks) (hreq : req.Bound ks) :
    ∀ i, (Function.update q.reqs p req i).state ≠ .idle →
      (Function.update q.reqs p req i).Bound ks := by
  intro i hi
  by_cases heq : i = p
  · subst heq
    rwa [Function.update_self]
  · rw [Function.update_of_ne heq] at hi ⊢
    exact hqueued i hi

/-- Starting a waiting request: its slot is loaded, and it becomes the only request
that may have fragments to come. -/
theorem Queue.Bound.start (hbound : q.Bound) (mode : FragMode)
    (hpending : (q.reqs p).state = .pending)
    (hothers : ∀ i, (q.reqs i).state = .process → (q.reqs i).fragMode = .none)
    (hreqs : q'.reqs = Function.update q.reqs p req)
    (hcmd : req.cmd = (q.reqs p).cmd) (haccepted : req.accepted = (q.reqs p).accepted)
    (hkeys : q'.keys = (mvCesaCacheSramUpdate (q.reqs p).cmd.sid q.keys).2)
    (huses : q'.uses = q.uses ++ [⟨(q.reqs p).accepted, q'.keys.sad (q.reqs p).cmd.sid,
      some ((q'.keys.sad (q.reqs p).cmd.sid).config ||| mode.bits,
        (q'.keys.cacheSA (q'.keys.sad (q.reqs p).cmd.sid).cacheIdx).keys)⟩]) : q'.Bound := by
  have hreq := hbound.queued p (by rw [hpending]; simp)
  obtain ⟨hcoherent, howns⟩ :=
    mvCesaCacheSramUpdate_coherent hbound.coherent hreq.range hreq.valid
  rw [← hkeys] at hcoherent howns
  have hmax : q'.keys.maxSA = q.keys.maxSA := by
    rw [hkeys]
    exact mvCesaCacheSramUpdate_maxSA _ _
  have hassoc : ∀ other, (q'.keys.sad other).association = (q.keys.sad other).association := by
    rw [hkeys]
    exact mvCesaCacheSramUpdate_association q.keys _
  have hreq' : (q.reqs p).Bound q'.keys := hreq.congr hmax (hassoc _)
  refine ⟨hcoherent, ?_, ?_, ?_⟩
  · rw [hreqs]
    refine Queue.Bound.queued_update (fun i hi => (hbound.queued i hi).congr hmax (hassoc _)) ?_
    obtain ⟨hrange, hvalid, hassoc'⟩ := hreq'
    exact ⟨by rwa [hcmd], by rwa [hcmd], by rwa [hcmd, haccepted]⟩
  · intro i hi hmiddle
    rw [hreqs] at hi hmiddle ⊢
    by_cases heq : i = p
    · subst heq
      rw [Function.update_self, hcmd]
      intro hnone
      have := howns.slot_nonneg
      rw [hnone, mvInvalid] at this
      omega
    · rw [Function.update_of_ne heq] at hi hmiddle
      rw [hothers i hi] at hmiddle
      cases hmiddle
  · intro use huse
    rw [huses] at huse
    rcases List.mem_append.mp huse with hold | hnew
    · exact hbound.uses use hold
    · rw [List.mem_singleton.mp hnew]
      exact hreq'.faithful_engine howns mode

/-- Continuing a request with fragments to come, or handing a request back. The
engine is given the slot that was loaded with the first fragment. -/
theorem Queue.Bound.continue (hbound : q.Bound) (hprocess : (q.reqs p).state = .process)
    (hreqs : q'.reqs = Function.update q.reqs p req)
    (hcmd : req.cmd = (q.reqs p).cmd) (haccepted : req.accepted = (q.reqs p).accepted)
    (hmode : req.fragMode = .middle → (q.reqs p).fragMode = .middle)
    (hkeys : q'.keys = q.keys) {engine : Option (UInt32 × KeyMaterial)}
    (hengine : engine = none ∨ ((q.reqs p).fragMode = .middle ∧ ∃ mode : FragMode,
      engine = some ((q.keys.sad (q.reqs p).cmd.sid).config ||| mode.bits,
        (q.keys.cacheSA (q.keys.sad (q.reqs p).cmd.sid).cacheIdx).keys)))
    (huses : q'.uses = q.uses ++ [⟨(q.reqs p).accepted, q.keys.sad (q.reqs p).cmd.sid, engine⟩]) :
    q'.Bound := by
  have hreq := hbound.queued p (by rw [hprocess]; simp)
  refine ⟨by rw [hkeys]; exact hbound.coherent, ?_, ?_, ?_⟩
  · rw [hreqs, hkeys]
    obtain ⟨hrange, hvalid, hassoc⟩ := hreq
    exact Queue.Bound.queued_update hbound.queued
      ⟨by rwa [hcmd], by rwa [hcmd], by rwa [hcmd, haccepted]⟩
  · intro i hi hmiddle
    rw [hreqs] at hi hmiddle ⊢
    rw [hkeys]
    by_cases heq : i = p
    · subst heq
      rw [Function.update_self] at hmiddle ⊢
      rw [hcmd]
      exact hbound.loaded i hprocess (hmode hmiddle)
    · rw [Function.update_of_ne heq] at hi hmiddle ⊢
      exact hbound.loaded i hi hmiddle
  · intro use huse
    rw [huses] at huse
    rcases List.mem_append.mp huse with hold | hnew
    · exact hbound.uses use hold
    · rw [List.mem_singleton.mp hnew]
      rcases hengine with rfl | ⟨hmiddle, mode, rfl⟩
      · exact hreq.faithful
      · have hslot := hbound.loaded p hprocess hmiddle
        exact hreq.faithful_engine (hbound.coherent.owns _ hreq.range hreq.valid hslot) mode

/-- Every move keeps the requests bound to their sessions. -/
theorem Move.bound {accept : SA → Command → Prop} (hmove : Move accept q q') (hbound : q.Bound) :
    q'.Bound := by
  cases hmove with
  | control _ _ hkeys hreqs huses _ =>
    obtain ⟨hcoherent, hqueued, hloaded, huse⟩ := hbound
    exact ⟨by rwa [hkeys], by rwa [hkeys, hreqs], by rwa [hkeys, hreqs], by rwa [huses]⟩
  | @note p _ _ hidle _ =>
    refine ⟨hbound.coherent, ?_, ?_, hbound.uses⟩
    · intro i hi
      by_cases heq : i = p
      · subst heq
        simp [Queue.setReq, hidle] at hi
      · simp only [Queue.setReq, Function.update_of_ne heq] at hi ⊢
        exact hbound.queued i hi
    · intro i hi hmiddle
      by_cases heq : i = p
      · subst heq
        simp [Queue.setReq, hidle] at hi
      · simp only [Queue.setReq, Function.update_of_ne heq] at hi hmiddle ⊢
        exact hbound.loaded i hi hmiddle
  | enqueue hidle hsid hvalid _ =>
    refine ⟨hbound.coherent, ?_, ?_, hbound.uses⟩
    · exact Queue.Bound.queued_update hbound.queued ⟨hsid, hvalid, rfl⟩
    · intro i hi hmiddle
      by_cases heq : i = q.reqEmpty
      · subst heq
        simp [Queue.enqueue, Queue.setReq] at hi
      · simp only [Queue.enqueue, Queue.setReq, Function.update_of_ne heq] at hi hmiddle ⊢
        exact hbound.loaded i hi hmiddle
  | short hpending hshort hnone hfree =>
    obtain ⟨hkeys, huses⟩ := mvCesaReqProcess_uses fun h => absurd h hshort
    refine hbound.start .none hpending (fun i hi => (hfree i hi).2)
      (mvCesaReqProcess_short hshort).1.reqs rfl rfl hkeys ?_
    rw [huses, hkeys]
    simp [FragMode.bits]
  | large hpending hlarge hnone hfree =>
    obtain ⟨hkeys, huses⟩ := mvCesaReqProcess_uses fun _ => rfl
    refine hbound.start .none hpending (fun i hi => absurd hi (hfree i))
      (mvCesaReqProcess_large hlarge).1.reqs rfl rfl hkeys ?_
    rw [huses, hkeys]
    simp [FragMode.bits]
  | @first p hpending hlarge hfree =>
    refine hbound.start .first hpending (fun i hi => absurd hi (hfree i))
      (fragFirst_started p q).1.reqs rfl rfl rfl ?_
    simp [fragFirst, Queue.startFragment, Queue.setChanState, Queue.startEngine, Queue.note,
      Queue.setReq]
  | @middle p hprocess hlarge hmode honly =>
    refine hbound.continue hprocess (fragMiddle_started p q).1.reqs rfl rfl (fun _ => hmode) rfl
      (Or.inr ⟨hmode, .middle, rfl⟩) ?_
    simp [fragMiddle, Queue.startFragment, Queue.setChanState, Queue.startEngine, Queue.note,
      Queue.setReq]
  | @last p digestOffset hprocess hlarge hmode honly =>
    have hkeys : (fragLast p digestOffset q).keys = q.keys := by
      unfold fragLast
      dsimp only
      split <;> rfl
    refine hbound.continue hprocess (fragLast_started p digestOffset q).1.reqs rfl rfl
      (fun _ => hmode) hkeys (Or.inr ⟨hmode, .last, rfl⟩) ?_
    unfold fragLast
    dsimp only
    split <;> simp [Queue.startFragment, Queue.setChanState, Queue.startEngine, Queue.note,
      Queue.setReq]
  | @terminate p digestOffset hprocess hlarge hmode honly =>
    have hreqs : (fragTerminate p digestOffset q).reqs =
        Function.update q.reqs p { q.reqs p with chanId := 0, fragMode := .last } := rfl
    refine hbound.continue hprocess hreqs rfl rfl (fun _ => hmode) rfl (Or.inl rfl) ?_
    simp [fragTerminate, Queue.note, Queue.setReq]
  | retire hprocess =>
    exact hbound.continue hprocess rfl rfl rfl (fun hmiddle => hmiddle) rfl (Or.inl rfl) rfl

/-- What the checks of a command depend on, apart from the command. -/
structure SameChecks (q q' : Queue) : Prop where
  is5182 : q'.is5182 = q.is5182
  maxSA : q'.keys.maxSA = q.keys.maxSA
  association : ∀ sid, (q'.keys.sad sid).association = (q.keys.sad sid).association

/-- Loading a slot of the key cache does not change the checks. -/
theorem SameChecks.load (sid : ℤ) (his : q'.is5182 = q.is5182)
    (hkeys : q'.keys = (mvCesaCacheSramUpdate sid q.keys).2) : SameChecks q q' := by
  refine ⟨his, ?_, ?_⟩
  · rw [hkeys]
    exact mvCesaCacheSramUpdate_maxSA _ _
  · rw [hkeys]
    exact mvCesaCacheSramUpdate_association q.keys sid

/-- The checks stay the same if the session database does. -/
theorem SameChecks.of_keys (his : q'.is5182 = q.is5182) (hkeys : q'.keys = q.keys) :
    SameChecks q q' :=
  ⟨his, by rw [hkeys], by simp [hkeys]⟩

theorem SameChecks.trans {q₁ : Queue} (h : SameChecks q q₁) (h' : SameChecks q₁ q') :
    SameChecks q q' :=
  ⟨h'.is5182.trans h.is5182, h'.maxSA.trans h.maxSA,
    fun sid => (h'.association sid).trans (h.association sid)⟩

/-- The device model does not change when a request is started. -/
theorem mvCesaReqProcess_is5182 (c : Fin 2) (p : ℕ) (q : Queue) :
    (mvCesaReqProcess c p q).2.is5182 = q.is5182 := by
  unfold mvCesaReqProcess
  dsimp only
  split_ifs <;> rfl

/-- No move changes the checks. -/
theorem Move.sameChecks {accept : SA → Command → Prop} (hmove : Move accept q q') :
    SameChecks q q' := by
  cases hmove with
  | control his _ hkeys => exact .of_keys his hkeys
  | note => exact .of_keys rfl rfl
  | enqueue => exact .of_keys rfl rfl
  | short _ hshort =>
    exact .load _ (mvCesaReqProcess_is5182 _ _ _)
      (mvCesaReqProcess_uses fun h => absurd h hshort).1
  | large => exact .load _ (mvCesaReqProcess_is5182 _ _ _) (mvCesaReqProcess_uses fun _ => rfl).1
  | first => exact .load _ rfl rfl
  | middle => exact .of_keys rfl rfl
  | last =>
    refine .of_keys ?_ ?_
    · unfold fragLast
      dsimp only
      split <;> rfl
    · unfold fragLast
      dsimp only
      split <;> rfl
  | terminate => exact .of_keys rfl rfl
  | retire => exact .of_keys rfl rfl

/-- The session database may change outside of the sessions that requests in the
queue belong to. -/
theorem Queue.Bound.withKeys {ks : KeyStore} (hbound : q.Bound) (hcoherent : ks.Coherent)
    (hmax : ks.maxSA = q.keys.maxSA)
    (hsad : ∀ i, (q.reqs i).state ≠ .idle →
      ks.sad (q.reqs i).cmd.sid = q.keys.sad (q.reqs i).cmd.sid) :
    ({ q with keys := ks } : Queue).Bound := by
  refine ⟨hcoherent, ?_, ?_, hbound.uses⟩
  · intro i hi
    exact (hbound.queued i hi).congr hmax (by rw [hsad i hi])
  · intro i hi hmiddle
    have hi' : (q.reqs i).state = .process := hi
    show (ks.sad (q.reqs i).cmd.sid).cacheIdx ≠ mvInvalid
    rw [hsad i (by rw [hi']; simp)]
    exact hbound.loaded i hi hmiddle

end Moves

/-- Opening a session does not touch the open ones. -/
theorem mvCesaSessionOpen_sad (env : OpenEnv) (session : OpenSession) (ks : KeyStore) :
    (mvCesaSessionOpen env session ks).2.2.maxSA = ks.maxSA ∧
      ∀ sid, (ks.sad sid).valid = true →
        (mvCesaSessionOpen env session ks).2.2.sad sid = ks.sad sid := by
  rcases mvCesaSessionOpen_cases env session ks with ⟨-, hsame⟩ | ⟨free, sa, hfree, hset, -⟩
  · rw [hsame]
    exact ⟨rfl, fun _ _ => rfl⟩
  · rw [hset]
    refine ⟨rfl, fun sid hvalid => setSA_of_ne _ _ ?_⟩
    rintro rfl
    rw [(freeSid_some hfree).2] at hvalid
    cases hvalid

/-- Closing a session does not touch the other ones. -/
theorem mvCesaSessionClose_sad (sid : ℕ) (ks : KeyStore) :
    (mvCesaSessionClose sid ks).2.maxSA = ks.maxSA ∧
      ∀ other : ℕ, other ≠ sid → (mvCesaSessionClose sid ks).2.sad other = ks.sad other := by
  unfold mvCesaSessionClose
  split
  · exact ⟨rfl, fun _ _ => rfl⟩
  · split
    · exact ⟨rfl, fun _ _ => rfl⟩
    · dsimp only
      refine ⟨?_, fun other hne => ?_⟩
      · split <;> rfl
      · rw [setSA_of_ne _ _ (by omega)]
        split <;> rfl

/-- The condition on the steps of a run: no session is closed while a request in the
queue belongs to it. -/
def ClosesUnused (q : Queue) : QueueEvent → Prop
  | .sessionClose sid => ∀ i < q.depth, (q.reqs i).state ≠ .idle → (q.reqs i).cmd.sid ≠ sid
  | _ => True

instance (q : Queue) (e : QueueEvent) : Decidable (ClosesUnused q e) :=
  match e with
  | .sessionClose sid => inferInstanceAs (Decidable
      (∀ i < q.depth, (q.reqs i).state ≠ .idle → (q.reqs i).cmd.sid ≠ sid))
  | .sessionOpen _ | .action _ _ | .readyGet _ _ | .hwDone _ => inferInstanceAs (Decidable True)

/-- The condition on the steps of a run: no session is closed while a request in the
queue belongs to it, and no key stream lacks its memory. -/
def KeepsSessions (q : Queue) (e : QueueEvent) : Prop := ClosesUnused q e ∧ HasKeyStream q e

instance (q : Queue) (e : QueueEvent) : Decidable (KeepsSessions q e) :=
  inferInstanceAs (Decidable (_ ∧ _))

/-- Every event that closes no session in use keeps the requests bound. -/
theorem EventMoves.bound {accept : SA → Command → Prop} {env : OpenEnv} {q q' : Queue}
    {e : QueueEvent} {r w : ℕ} (hsched : Scheduled q r w) (hbound : q.Bound)
    (hunused : ClosesUnused q e) (hmoves : EventMoves accept env q q' e) : q'.Bound := by
  have hall : ∀ {q q'}, Moves accept q q' → q.Bound → q'.Bound :=
    fun h => Moves.invariant (fun hmove hq => hmove.bound hq) h
  cases e with
  | sessionOpen session =>
    simp only [EventMoves] at hmoves
    rw [hmoves]
    obtain ⟨hmax, hsad⟩ := mvCesaSessionOpen_sad env session q.keys
    exact hbound.withKeys (mvCesaSessionOpen_coherent env session hbound.coherent) hmax
      fun i hi => hsad _ (hbound.queued i hi).valid
  | sessionClose sid =>
    simp only [EventMoves] at hmoves
    rw [hmoves]
    obtain ⟨hmax, hsad⟩ := mvCesaSessionClose_sad sid q.keys
    refine hbound.withKeys (mvCesaSessionClose_coherent hbound.coherent) hmax fun i hi => ?_
    refine hsad _ (hunused i ?_ hi)
    by_contra hge
    exact hi (hsched.ring.outside i (by omega))
  | action cmd ctrMemory => exact hall hmoves hbound
  | readyGet chanMap digestErr => exact hall hmoves hbound
  | hwDone c => exact hall hmoves hbound

/-- The initial queue is bound. -/
theorem mvCesaInit_bound (is5182 : Bool) (numOfSession queueDepth : ℕ) :
    (mvCesaInit is5182 numOfSession queueDepth).Bound := by
  refine ⟨keyStoreInit_coherent numOfSession, ?_, ?_, ?_⟩
  · intro i hi
    simp [mvCesaInit, zeroReq] at hi
  · intro i hi
    simp [mvCesaInit, zeroReq] at hi
  · intro use huse
    simp [mvCesaInit] at huse

/-- A queue of at most one slot looks empty to the driver at all times. -/
structure Queue.Stuck (q : Queue) : Prop where
  depth : q.depth ≤ 1
  reqEmpty : q.reqEmpty = 0
  reqProcess : q.reqProcess = 0
  reqReady : q.reqReady = 0
  state : ∀ i, (q.reqs i).state ≠ .process
  uses : q.uses = []

/-- Writing a request that is not in process to a queue of at most one slot. -/
theorem Queue.Stuck.setReq {q : Queue} {p : ℕ} {req : Req} (hstuck : q.Stuck)
    (hreq : req.state ≠ .process) : (q.setReq p req).Stuck := by
  obtain ⟨hdepth, hempty, hprocess, hready, hstate, huses⟩ := hstuck
  refine ⟨hdepth, hempty, hprocess, hready, ?_, huses⟩
  intro i
  by_cases heq : i = p
  · subst heq
    simpa [Queue.setReq] using hreq
  · simpa [Queue.setReq, Function.update_of_ne heq] using hstate i

/-- A request that is put into a queue of at most one slot is not started. -/
theorem actionQueue_stuck {q : Queue} (cmd : Command) (sa : SA) (hstuck : q.Stuck) :
    (actionQueue cmd sa q).2.Stuck := by
  unfold actionQueue
  cases fragModeOf q.is5182 sa cmd with
  | error status => exact hstuck
  | ok fragMode =>
    have hnext : q.reqNext q.reqEmpty = 0 := by
      have hdepth := hstuck.depth
      rw [hstuck.reqEmpty, Queue.reqNext, RingIndex.next, if_pos (by omega)]
    obtain ⟨hdepth, hempty, hprocess, hready, hstate, huses⟩ := @Queue.Stuck.setReq q
      q.reqEmpty { q.reqs q.reqEmpty with cmd, fragMode, state := .pending, accepted := sa } hstuck
      (by simp)
    have hstop : q.reqProcess = (q.enqueue cmd sa fragMode).reqEmpty := by
      show q.reqProcess = q.reqNext q.reqEmpty
      rw [hstuck.reqProcess, hnext]
    have hchans : actionChans [0, 1] (q.enqueue cmd sa fragMode).reqProcess
        (q.enqueue cmd sa fragMode) = (_, _) := actionChans_stop (Or.inl hstop)
    dsimp only
    rw [hchans]
    exact ⟨hdepth, hnext, hprocess, hready, hstate, huses⟩

/-- Nothing is ever started in a queue of at most one slot. -/
theorem queueStep_stuck {env : OpenEnv} {q q' : Queue} {e : QueueEvent} {o : QueueAnswer}
    (hstuck : q.Stuck) (hstep : queueStep env q e = some (o, q')) : q'.Stuck := by
  cases e with
  | sessionOpen session =>
    simp only [queueStep, Option.some.injEq, Prod.mk.injEq] at hstep
    obtain ⟨-, rfl⟩ := hstep
    exact ⟨hstuck.depth, hstuck.reqEmpty, hstuck.reqProcess, hstuck.reqReady, hstuck.state,
      hstuck.uses⟩
  | sessionClose sid =>
    simp only [queueStep, Option.some.injEq, Prod.mk.injEq] at hstep
    obtain ⟨-, rfl⟩ := hstep
    exact ⟨hstuck.depth, hstuck.reqEmpty, hstuck.reqProcess, hstuck.reqReady, hstuck.state,
      hstuck.uses⟩
  | action cmd ctrMemory =>
    simp only [queueStep, Option.some.injEq, Prod.mk.injEq] at hstep
    obtain ⟨-, rfl⟩ := hstep
    have hfree := hstuck.state q.reqEmpty
    unfold mvCesaAction
    dsimp only
    split_ifs
    · exact hstuck
    · exact hstuck
    · exact hstuck
    · cases ctrMemory with
      | none => exact hstuck.setReq hfree
      | some fresh => exact actionQueue_stuck _ _ (hstuck.setReq hfree)
    · exact hstuck
    · exact actionQueue_stuck _ _ hstuck
  | readyGet chanMap digestErr =>
    simp only [queueStep] at hstep
    split at hstep
    next =>
      have hempty : q.reqReady = q.reqProcess ∧ (q.reqs q.reqReady).state ≠ .process :=
        ⟨hstuck.reqReady.trans hstuck.reqProcess.symm, hstuck.state _⟩
      have hhead : readyHead digestErr (q.report chanMap) = (.empty, none, q.report chanMap) :=
        if_pos hempty
      change some (QueueAnswer.ready (readyHead digestErr (q.report chanMap)).1
        (readyHead digestErr (q.report chanMap)).2.1,
        (readyHead digestErr (q.report chanMap)).2.2) = some (o, q') at hstep
      rw [hhead] at hstep
      simp only [Option.some.injEq, Prod.mk.injEq] at hstep
      obtain ⟨-, rfl⟩ := hstep
      exact ⟨hstuck.depth, hstuck.reqEmpty, hstuck.reqProcess, hstuck.reqReady, hstuck.state,
        hstuck.uses⟩
    next => cases hstep
  | hwDone c =>
    simp only [queueStep] at hstep
    split at hstep
    next =>
      simp only [Option.some.injEq, Prod.mk.injEq] at hstep
      obtain ⟨-, rfl⟩ := hstep
      exact ⟨hstuck.depth, hstuck.reqEmpty, hstuck.reqProcess, hstuck.reqReady, hstuck.state,
        hstuck.uses⟩
    next => cases hstep

/-- Along every run that keeps the sessions of its requests, the requests are bound. -/
theorem queueRun_bound {env : OpenEnv} {is5182 : Bool} {numOfSession queueDepth : ℕ}
    (hdepth : 2 ≤ queueDepth) {trace : List (QueueEvent × QueueAnswer)} {q : Queue}
    (hrun : Run (queueStep env) KeepsSessions (mvCesaInit is5182 numOfSession queueDepth) trace q) :
    (∃ r w, Scheduled q r w) ∧ q.Bound := by
  refine Run.invariant (I := fun _ q => (∃ r w, Scheduled q r w) ∧ q.Bound) ?_ ?_ hrun
  · exact ⟨⟨0, 0, mvCesaInit_scheduled is5182 numOfSession hdepth⟩, mvCesaInit_bound _ _ _⟩
  · rintro _ q e o q' ⟨⟨r, w, hsched⟩, hbound⟩ ⟨hunused, hkey⟩ hstep
    obtain ⟨r', w', hsched', hmoves, -⟩ := queueStep_scheduled hsched hkey (admits_true q e) hstep
    exact ⟨⟨r', w', hsched'⟩, hmoves.bound hsched hbound hunused⟩

/-- Binding of requests to sessions. In every run that closes no session with a request in the queue
and has memory for its key streams, each start of a fragment, each completion of a digest by
software and each return of a request uses the association that was open under the session's number
when the request was accepted, and the engine is given its configuration word and its key material.
-/
theorem queueRun_faithful {env : OpenEnv} {is5182 : Bool} {numOfSession queueDepth : ℕ}
    {trace : List (QueueEvent × QueueAnswer)} {q : Queue}
    (hrun : Run (queueStep env) KeepsSessions (mvCesaInit is5182 numOfSession queueDepth)
      trace q) :
    ∀ use ∈ q.uses, use.Faithful := by
  by_cases hdepth : 2 ≤ queueDepth
  · exact (queueRun_bound hdepth hrun).2.uses
  · have hstuck : q.Stuck := by
      refine Run.invariant (I := fun _ q => q.Stuck) ?_ ?_ hrun
      · exact ⟨by show queueDepth ≤ 1; omega, rfl, rfl, rfl, by simp [mvCesaInit, zeroReq], rfl⟩
      · intro _ q e o q' hstuck _ hstep
        exact queueStep_stuck hstuck hstep
    rw [hstuck.uses]
    simp

/-- Binding on a run with two requests of one session, the first of which is handed
back. -/
theorem queueRun_faithful_two_requests :
    ∃ trace q, Run (queueStep plainEnv) KeepsSessions (mvCesaInit false 4 2) trace q ∧
      q.uses.length = 3 ∧ ∀ use ∈ q.uses, use.Faithful := by
  have hrun : Run (queueStep plainEnv) KeepsSessions (mvCesaInit false 4 2) _ _ :=
    Run.of_exec [.sessionOpen (desSession 1), .action (plainCommand 1 16) none,
      .action (plainCommand 2 16) none, .hwDone 0, .readyGet (fun c => c = 0) false] rfl
  exact ⟨_, _, hrun, rfl, queueRun_faithful hrun⟩

/-- A request that waits while its session is closed and the number is opened anew
is encrypted with the key of the new session. -/
theorem queueRun_reopened_session :
    ∃ trace q, Run (queueStep plainEnv) (fun _ _ => True) (mvCesaInit false 4 4) trace q ∧
      ∃ use ∈ q.uses, use.accepted.cacheSA.keys.cryptoKey.take 8 = List.replicate 8 1 ∧
        use.entry.cacheSA.keys.cryptoKey.take 8 = List.replicate 8 2 ∧ ¬ use.Faithful := by
  have hrun : Run (queueStep plainEnv) (fun _ _ => True) (mvCesaInit false 4 4) _ _ :=
    Run.of_exec [.sessionOpen (desSession 1), .action (plainCommand 1 16) none,
      .action (plainCommand 2 16) none, .action (plainCommand 3 16) none, .sessionClose 0,
      .sessionOpen (desSession 2), .hwDone 0, .readyGet (fun c => c = 0) false] rfl
  refine ⟨_, _, hrun, _, List.mem_of_getLast? rfl, by decide, by decide, ?_⟩
  rintro ⟨-, hassoc, -⟩
  exact absurd (association_valid hassoc).2 (by decide)

end Mv88fxx81.Cesa
