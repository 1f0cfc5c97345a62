import Mv88fxx81.Cesa.Scheduling

/-!
# The moves of the driver

Every call of `mvCesaAction` and `mvCesaReadyGet` is made of a few elementary moves:
a request is put into the queue, started on a channel, continued with its next
fragment, or taken out. A move carries what the state of the queue guarantees when
it is made, so that invariants of the driver can be shown for the moves alone.
-/

namespace Mv88fxx81.Cesa

open RingIndex

/-- The elementary moves. Commands that are put into the queue are accepted ones,
with the entry of their session. -/
inductive Move (accept : SA → Command → Prop) : Queue → Queue → Prop
  /-- The pointers, counters and flags of the driver and of the engine change. -/
  | control {q q' : Queue} : q'.is5182 = q.is5182 → q'.depth = q.depth → q'.keys = q.keys →
      q'.reqs = q.reqs → q'.uses = q.uses →
      (∀ c, (q'.chan c).desc = (q.chan c).desc ∧ (q'.chan c).copyIn = (q.chan c).copyIn ∧
        (q'.chan c).copyOut = (q.chan c).copyOut) → Move accept q q'
  /-- The original command is noted in a free slot. -/
  | note {q : Queue} {p : ℕ} {orgCmd : Option Command} {fixOffset : ℕ} :
      (q.reqs p).state = .idle → fixOffset = 0 ∨ fixOffset = (q.reqs p).fixOffset →
      Move accept q (q.setReq p { q.reqs p with orgCmd, fixOffset })
  /-- A command is put into a free slot. -/
  | enqueue {q : Queue} {cmd : Command} {fragMode : FragMode} :
      (q.reqs q.reqEmpty).state = .idle → cmd.sid < q.keys.maxSA →
      (q.keys.sad cmd.sid).valid = true → accept (q.keys.sad cmd.sid) cmd →
      Move accept q (q.enqueue cmd (q.keys.sad cmd.sid) fragMode)
  /-- A waiting short request is started on a free channel. -/
  | short {q : Queue} {c : Fin 2} {p : ℕ} : (q.reqs p).state = .pending →
      ¬ (q.reqs p).cmd.Large → (q.reqs p).fragMode = .none →
      (∀ i, (q.reqs i).state = .process →
        (q.reqs i).chanId ≠ c ∧ (q.reqs i).fragMode = .none) →
      Move accept q (mvCesaReqProcess c p q).2
  /-- A waiting large request is started with no other one in process. -/
  | large {q : Queue} {p : ℕ} : (q.reqs p).state = .pending → (q.reqs p).cmd.Large →
      (q.reqs p).fragMode = .none → (∀ i, (q.reqs i).state ≠ .process) →
      Move accept q (mvCesaReqProcess 0 p q).2
  /-- The first fragment of a waiting request is started with no other one in process. -/
  | first {q : Queue} {p : ℕ} : (q.reqs p).state = .pending → (q.reqs p).cmd.Large →
      (∀ i, (q.reqs i).state ≠ .process) → Move accept q (fragFirst p q)
  /-- A middle fragment of the only request in process is started. -/
  | middle {q : Queue} {p : ℕ} : (q.reqs p).state = .process → (q.reqs p).cmd.Large →
      (q.reqs p).fragMode = .middle → (∀ i, (q.reqs i).state = .process → i = p) →
      Move accept q (fragMiddle p q)
  /-- The last fragment of the only request in process is started. -/
  | last {q : Queue} {p : ℕ} {digestOffset : ℤ} : (q.reqs p).state = .process →
      (q.reqs p).cmd.Large → (q.reqs p).fragMode = .middle →
      (∀ i, (q.reqs i).state = .process → i = p) → Move accept q (fragLast p digestOffset q)
  /-- The only request in process is finished without the engine. -/
  | terminate {q : Queue} {p : ℕ} {digestOffset : ℤ} : (q.reqs p).state = .process →
      (q.reqs p).cmd.Large → (q.reqs p).fragMode = .middle →
      (∀ i, (q.reqs i).state = .process → i = p) → Move accept q (fragTerminate p digestOffset q)
  /-- The request at the head of the queue is handed back. -/
  | retire {q : Queue} : (q.reqs q.reqReady).state = .process → Move accept q q.retire

/-- A sequence of moves. -/
abbrev Moves (accept : SA → Command → Prop) : Queue → Queue → Prop :=
  Relation.ReflTransGen (Move accept)

/-- The invariant rule for sequences of moves. -/
theorem Moves.invariant {accept : SA → Command → Prop} {I : Queue → Prop}
    (hmove : ∀ {q q'}, Move accept q q' → I q → I q') {q q' : Queue} (hmoves : Moves accept q q')
    (hq : I q) : I q' := by
  induction hmoves with
  | refl => exact hq
  | tail _ hlast ih => exact hmove hlast ih

/-- A move does not change the depth of the queue. -/
theorem Move.depth {accept : SA → Command → Prop} {q q' : Queue} (hmove : Move accept q q') :
    q'.depth = q.depth := by
  cases hmove with
  | control _ hdepth => exact hdepth
  | note => rfl
  | enqueue => rfl
  | short _ hshort => exact (mvCesaReqProcess_short hshort).1.depth
  | large _ hlarge => exact (mvCesaReqProcess_large hlarge).1.depth
  | first => exact (fragFirst_started _ _).1.depth
  | middle => exact (fragMiddle_started _ _).1.depth
  | last => exact (fragLast_started _ _ _).1.depth
  | terminate => rfl
  | retire => rfl

/-- Moves do not change the depth of the queue. -/
theorem Moves.depth {accept : SA → Command → Prop} {q q' : Queue} (hmoves : Moves accept q q') :
    q'.depth = q.depth :=
  Moves.invariant (I := fun q₁ => q₁.depth = q.depth) (fun hmove hq => hmove.depth.trans hq) hmoves
    rfl

/-- The slots in process are those at the first positions. -/
theorem Ring.process_pos {q : Queue} {r w i : ℕ} (hring : Ring q r w)
    (hstate : (q.reqs i).state = .process) : ∃ k < r, q.pos k = i := by
  have hi : i < q.depth := by
    by_contra hge
    rw [hring.outside i (by omega)] at hstate
    cases hstate
  obtain ⟨k, hk, rfl⟩ := exists_cell hring.ready_lt hi
  refine ⟨k, ?_, rfl⟩
  by_contra hge
  have hat : (q.at k).state = .process := hstate
  by_cases hlt : k < r + w
  · rw [(hring.waiting k (by omega) hlt).1] at hat
    cases hat
  · rw [hring.free k (by omega) hk] at hat
    cases hat

/-- What a part of a call leads to: `r` requests in process and `w` waiting ones
with `n` the next position to start, the same commands in the queue, and the engine
working for every request in process. -/
structure Reaches (accept : SA → Command → Prop) (q q' : Queue) (r w n : ℕ) : Prop where
  moves : Moves accept q q'
  depth : q'.depth = q.depth
  reqReady : q'.reqReady = q.reqReady
  reqProcess : q'.reqProcess = q.reqProcess
  ring : Ring q' r w
  serving : Serving q' r n
  alive : ∀ k < r, q'.Alive (q'.at k).chanId
  kept : ∀ k < r + w, (q'.at k).cmd = (q.at k).cmd

/-- A started channel is alive, and the others stay alive. -/
theorem Started.alive {q q' : Queue} {c c' : Fin 2} {p : ℕ} {req : Req}
    (hstart : Started q c p req q') (halive : c' = c ∨ q.Alive c') : q'.Alive c' := by
  unfold Queue.Alive at *
  by_cases hc : c' = c
  · subst hc
    exact Or.inl hstart.active
  · rw [hstart.others c' hc, hstart.chanReadyMap]
    exact halive.resolve_left hc

/-- Starting a request does not change the commands in the queue. -/
theorem Started.kept {q q' : Queue} {c : Fin 2} {r w k : ℕ} {req : Req}
    (hstart : Started q c (q.pos k) req q') (hring : Ring q r w) (hk : k < q.depth)
    (hreq : req.cmd = (q.at k).cmd) : ∀ j < r + w, (q'.at j).cmd = (q.at j).cmd := by
  intro j hj
  have hsize := hring.resources
  rw [hstart.at (by omega) hk]
  split
  next heq => rw [hreq, heq]
  next => rfl

section Starting

variable {accept : SA → Command → Prop} {q : Queue} {r w : ℕ}

/-- A waiting short request can be started on a free channel. -/
theorem Short.reaches_start {c : Fin 2} (hring : Ring q r (w + 1)) (hshort : Short q r)
    (halive : ∀ k < r, q.Alive (q.at k).chanId) (hc : (q.chan c).state = .ready)
    (hreq : ¬ (q.at r).cmd.Large) :
    Reaches accept q (mvCesaReqProcess c (q.pos r) q).2 (r + 1) w (r + 1) := by
  have hsize := hring.resources
  have hr : r < q.depth := by omega
  obtain ⟨hpending, hmode⟩ := hring.waiting r (by omega) (by omega)
  have hnone : (q.at r).fragMode = .none := by
    rw [hmode, waitingMode, if_pos]
    simp only [Command.Large, maxBufSize] at hreq
    simp only [bothBufSize]
    omega
  obtain ⟨hstart, hlarge⟩ := mvCesaReqProcess_short hreq (c := c)
  have hfree : ∀ i, (q.reqs i).state = .process →
      (q.reqs i).chanId ≠ c ∧ (q.reqs i).fragMode = .none := by
    intro i hi
    obtain ⟨k, hk, rfl⟩ := hring.process_pos hi
    exact ⟨hshort.chanId_ne hc hk, (hshort.short k hk).2⟩
  have hring' := hring.start hstart rfl
  refine ⟨.single (.short hpending hreq hnone hfree), hstart.depth, hstart.reqReady,
    hstart.reqProcess, hring',
    .short (hshort.start hc hr hstart hlarge hreq hnone rfl), ?_, ?_⟩
  · intro k hk
    rw [hstart.at (by omega) hr]
    by_cases heq : k = r
    · rw [if_pos heq]
      exact hstart.alive (Or.inl rfl)
    · rw [if_neg heq]
      exact hstart.alive (Or.inr (halive k (by omega)))
  · exact fun k hk => hstart.kept hring hr rfl k (by omega)

/-- Starting the only request in process on channel 0 keeps it alive. -/
theorem Started.alive_alone {q' : Queue} {req : Req} (hstart : Started q 0 (q.pos 0) req q')
    (hdepth : 0 < q.depth) (hid : req.chanId = 0) : ∀ k < 1, q'.Alive (q'.at k).chanId := by
  intro k hk
  obtain rfl : k = 0 := by omega
  rw [hstart.at hdepth hdepth, if_pos rfl, hid]
  exact hstart.alive (Or.inl rfl)

/-- No slot is in process when no request is. -/
theorem Ring.none_process (hring : Ring q 0 w) (i : ℕ) : (q.reqs i).state ≠ .process := by
  intro hi
  obtain ⟨k, hk, -⟩ := hring.process_pos hi
  omega

/-- The only slot in process is the one at the head. -/
theorem Ring.head_process (hring : Ring q 1 w) {i : ℕ} (hi : (q.reqs i).state = .process) :
    i = q.pos 0 := by
  obtain ⟨k, hk, rfl⟩ := hring.process_pos hi
  obtain rfl : k = 0 := by omega
  rfl

/-- A waiting large request can be started if nothing is in process. -/
theorem Short.reaches_large (hring : Ring q 0 (w + 1)) (hshort : Short q 0)
    (hlarge : (q.at 0).cmd.Large) (hmode : (q.at 0).fragMode = .none) :
    Reaches accept q (mvCesaReqProcess 0 (q.pos 0) q).2 1 w 1 := by
  have htwo := hring.two_le
  have hdepth : 0 < q.depth := by omega
  obtain ⟨hpending, -⟩ := hring.waiting 0 (by omega) (by omega)
  obtain ⟨hstart, hproc⟩ := mvCesaReqProcess_large hlarge
  have hother : (q.chan 1).state = .ready := by
    rw [hshort.busy 1, if_neg (by simp)]
  refine ⟨.single (.large hpending hlarge hmode hring.none_process), hstart.depth,
    hstart.reqReady, hstart.reqProcess, hring.start hstart rfl,
    .done (Alone.ofStart hdepth hother hstart hproc hlarge rfl ?_),
    hstart.alive_alone hdepth rfl, ?_⟩
  · exact Or.inl hmode
  · exact fun k hk => hstart.kept hring hdepth rfl k (by omega)

/-- The first fragment of a waiting request can be started if nothing is in process. -/
theorem Short.reaches_first (hring : Ring q 0 (w + 1)) (hshort : Short q 0)
    (hlarge : (q.at 0).cmd.Large) : Reaches accept q (fragFirst (q.pos 0) q) 1 w 0 := by
  have htwo := hring.two_le
  have hdepth : 0 < q.depth := by omega
  obtain ⟨hpending, -⟩ := hring.waiting 0 (by omega) (by omega)
  obtain ⟨hstart, hproc⟩ := fragFirst_started (q.pos 0) q
  have hother : (q.chan 1).state = .ready := by
    rw [hshort.busy 1, if_neg (by simp)]
  refine ⟨.single (.first hpending hlarge hring.none_process), hstart.depth, hstart.reqReady,
    hstart.reqProcess, hring.start hstart rfl,
      .more (Alone.ofStart hdepth hother hstart hproc hlarge rfl rfl),
    hstart.alive_alone hdepth rfl, ?_⟩
  exact fun k hk => hstart.kept hring hdepth rfl k (by omega)

/-- A large request is short enough for both buffers, or is to be fragmented. -/
theorem waitingMode_large {cmd : Command} :
    (waitingMode cmd = .none) ∨ (waitingMode cmd = .first ∧ cmd.Large) := by
  unfold waitingMode
  split
  next => exact Or.inl rfl
  next hsize =>
    refine Or.inr ⟨rfl, ?_⟩
    simp only [bothBufSize] at hsize
    simp only [Command.Large, maxBufSize]
    omega

/-- The next fragment of the only request in process. The request is continued, or
its last fragment was started, or it was finished without the engine. -/
theorem Alone.reaches_next (accept : SA → Command → Prop) (hring : Ring q 1 w)
    (halone : Alone q true) :
    ((mvCesaFragReqProcess (q.pos 0) q).1 = .ok ∨
        (mvCesaFragReqProcess (q.pos 0) q).1 = .terminate) ∧
      ∃ n, Reaches accept q (mvCesaFragReqProcess (q.pos 0) q).2 1 w n ∧
        n = if ((mvCesaFragReqProcess (q.pos 0) q).2.at 0).fragMode = .last then 1 else 0 := by
  have htwo := hring.two_le
  have hdepth : 0 < q.depth := by omega
  have hstate := hring.running 0 (by omega)
  have hmode : (q.at 0).fragMode = .middle := halone.fragMode
  have honly := fun i (hi : (q.reqs i).state = .process) => hring.head_process hi
  have hnotFirst : (q.reqs (q.pos 0)).fragMode ≠ .first := by
    show (q.at 0).fragMode ≠ .first
    rw [hmode]
    simp
  rcases mvCesaFragReqProcess_cases hnotFirst with hcase | ⟨offset, hcase⟩ | ⟨offset, hcase⟩
  · rw [hcase]
    obtain ⟨hstart, hproc⟩ := fragMiddle_started (q.pos 0) q
    refine ⟨Or.inl rfl, 0, ⟨.single (.middle hstate halone.large hmode honly), hstart.depth,
      hstart.reqReady, hstart.reqProcess, ?_, .more ?_, hstart.alive_alone hdepth rfl, ?_⟩, ?_⟩
    · exact hring.rewrite (by omega) hstart.depth hstart.reqReady hstart.reqEmpty hstart.resources
        hstart.reqs hstate
    · exact Alone.ofStart hdepth halone.other hstart (hproc.trans halone.largeInProc)
        halone.large rfl hmode
    · exact fun k hk => hstart.kept hring hdepth rfl k (by omega)
    · rw [hstart.at hdepth hdepth, if_pos rfl, if_neg]
      show (q.at 0).fragMode ≠ .last
      rw [hmode]
      simp
  · rw [hcase]
    obtain ⟨hstart, hproc⟩ := fragLast_started (q.pos 0) offset q
    refine ⟨Or.inl rfl, 1, ⟨.single (.last hstate halone.large hmode honly), hstart.depth,
      hstart.reqReady, hstart.reqProcess, ?_, .done ?_, hstart.alive_alone hdepth rfl, ?_⟩, ?_⟩
    · exact hring.rewrite (by omega) hstart.depth hstart.reqReady hstart.reqEmpty hstart.resources
        hstart.reqs hstate
    · exact Alone.ofStart hdepth halone.other hstart (hproc.trans halone.largeInProc)
        halone.large rfl (Or.inr rfl)
    · exact fun k hk => hstart.kept hring hdepth rfl k (by omega)
    · rw [hstart.at hdepth hdepth, if_pos rfl, if_pos rfl]
  · rw [hcase]
    have hat : ∀ j < q.depth, (fragTerminate (q.pos 0) offset q).at j =
        if j = 0 then { q.at 0 with chanId := 0, fragMode := .last } else q.at j :=
      fun j hj => at_of_update rfl rfl rfl hj hdepth
    have hzero := hat 0 hdepth
    rw [if_pos rfl] at hzero
    refine ⟨Or.inr rfl, 1, ⟨.single (.terminate hstate halone.large hmode honly), rfl, rfl, rfl,
      hring.rewrite (k := 0) (by omega) rfl rfl rfl rfl rfl hstate, .done ?_, ?_, ?_⟩, ?_⟩
    · exact ⟨halone.largeInProc, by rw [hzero]; exact halone.large, by rw [hzero],
        Or.inr (by rw [hzero]), halone.other⟩
    · intro k hk
      obtain rfl : k = 0 := by omega
      rw [hzero]
      refine Or.inr (Or.inr ?_)
      show Function.update q.chanReadyMap 0 true 0 = true
      exact Function.update_self _ _ _
    · intro k hk
      have hsize := hring.resources
      rw [hat k (by omega)]
      split
      next heq => rw [heq]
      next => rfl
    · rw [hzero, if_pos rfl]

/-- The position after a started one. -/
theorem Reaches.next_pos {q' : Queue} {n k : ℕ} (hreach : Reaches accept q q' r w n)
    (hk : k < q.depth) : q'.reqNext (q.pos k) = q'.pos (k + 1) := by
  rw [← pos_congr hreach.depth hreach.reqReady]
  exact hreach.ring.next_pos (by rwa [hreach.depth])

/-- The next request can be started by `mvCesaAction`: a large one if nothing is in
process, and on channel 0. -/
theorem actionStart_reaches (accept : SA → Command → Prop) {c : Fin 2} (hring : Ring q r (w + 1))
    (hshort : Short q r)
    (halive : ∀ k < r, q.Alive (q.at k).chanId) (hc : (q.chan c).state = .ready)
    (hlarge : (q.at r).cmd.Large → r = 0 ∧ c = 0) :
    ∃ n, Reaches accept q (actionStart c (q.pos r) q).2 (r + 1) w n ∧
      (actionStart c (q.pos r) q).1 = (actionStart c (q.pos r) q).2.pos n := by
  have hsize := hring.resources
  have hr : r < q.depth := by omega
  obtain ⟨hpending, hmode⟩ := hring.waiting r (by omega) (by omega)
  rcases @waitingMode_large (q.at r).cmd with hnone | ⟨hfirst, hbig⟩
  · have hbody : actionStart c (q.pos r) q =
        ((mvCesaReqProcess c (q.pos r) q).2.reqNext (q.pos r),
          (mvCesaReqProcess c (q.pos r) q).2) := if_pos (hmode.trans hnone)
    rw [hbody]
    by_cases hbig : (q.at r).cmd.Large
    · obtain ⟨rfl, rfl⟩ := hlarge hbig
      have hreach : Reaches accept q _ 1 w 1 :=
        Short.reaches_large hring hshort hbig (hmode.trans hnone)
      exact ⟨1, hreach, hreach.next_pos hr⟩
    · have hreach : Reaches accept q _ (r + 1) w (r + 1) :=
        Short.reaches_start hring hshort halive hc hbig
      exact ⟨r + 1, hreach, hreach.next_pos hr⟩
  · obtain ⟨rfl, rfl⟩ := hlarge hbig
    have hreach : Reaches accept q _ 1 w 0 := Short.reaches_first hring hshort hbig
    have hnotNone : (q.reqs (q.pos 0)).fragMode ≠ .none := by
      show (q.at 0).fragMode ≠ .none
      rw [hmode, hfirst]
      simp
    have hmiddle : ((fragFirst (q.pos 0) q).reqs (q.pos 0)).fragMode ≠ .last := by
      rw [(fragFirst_started (q.pos 0) q).1.reqs, Function.update_self]
      simp
    have hbody : actionStart 0 (q.pos 0) q = (q.pos 0, fragFirst (q.pos 0) q) := by
      unfold actionStart
      rw [if_neg hnotNone, mvCesaFragReqProcess_first (hmode.trans hfirst)]
      exact Prod.ext (if_neg hmiddle) rfl
    rw [hbody]
    exact ⟨0, hreach, by rw [pos_congr hreach.depth hreach.reqReady]⟩

/-- Nothing is started. -/
theorem Reaches.refl {n : ℕ} (hring : Ring q r w) (hserving : Serving q r n)
    (halive : ∀ k < r, q.Alive (q.at k).chanId) : Reaches accept q q r w n :=
  ⟨.refl, rfl, rfl, rfl, hring, hserving, halive, fun _ _ => rfl⟩

/-- Two parts of a call, one after the other. -/
theorem Reaches.trans {q' q'' : Queue} {r' w' n n' : ℕ} (hreach : Reaches accept q q' r w n)
    (hreach' : Reaches accept q' q'' r' w' n') (hsum : r' + w' = r + w) :
    Reaches accept q q'' r' w' n' := by
  refine ⟨hreach.moves.trans hreach'.moves, hreach'.depth.trans hreach.depth,
    hreach'.reqReady.trans hreach.reqReady, hreach'.reqProcess.trans hreach.reqProcess,
    hreach'.ring, hreach'.serving, hreach'.alive, ?_⟩
  intro k hk
  rw [hreach'.kept k hk, hreach.kept k (by omega)]

/-- The next waiting request is not the free slot. -/
theorem Ring.pos_ne_empty (hring : Ring q r (w + 1)) (hroom : 0 < r ∨ w + 1 < q.depth) :
    q.pos r ≠ q.reqEmpty := by
  have hsize := hring.resources
  rw [hring.empty]
  intro hsame
  by_cases hfull : r + (w + 1) = q.depth
  · have hhead : q.pos (r + (w + 1)) = q.pos 0 := by
      rw [hfull, hring.pos_zero]
      exact cell_capacity
    have := (cell_inj (by omega) (by omega)).mp (hsame.trans hhead)
    omega
  · have := (cell_inj (by omega) (by omega)).mp hsame
    omega

/-- The next waiting request is at the head of the queue only if nothing is in process. -/
theorem Ring.pos_ne_ready (hring : Ring q r w) (hr : 0 < r) (hlt : r < q.depth) :
    q.pos r ≠ q.reqReady := by
  rw [← hring.pos_zero]
  intro hsame
  have := (cell_inj hlt (by omega)).mp hsame
  omega

/-- The loop stops at the end of the queue and with a large request in process. -/
theorem actionChans_stop {cs : List (Fin 2)} {p : ℕ}
    (hstop : p = q.reqEmpty ∨ q.largeInProc = true) :
    actionChans cs p q = (p, q) := by
  cases cs with
  | nil => rfl
  | cons c cs => exact if_pos hstop

/-- With nothing waiting, the loop stops. -/
theorem Serving.stop {n : ℕ} (hring : Ring q r 0) (hserving : Serving q r n) :
    q.pos n = q.reqEmpty ∨ q.largeInProc = true := by
  cases hserving with
  | short hshort => exact Or.inl hring.empty.symm
  | more halone => exact Or.inr halone.largeInProc
  | done halone => exact Or.inr halone.largeInProc

/-- The loop for one channel, with some request in process. -/
theorem actionChans_one (accept : SA → Command → Prop) (c : Fin 2) {n : ℕ} (hring : Ring q r w)
    (hserving : Serving q r n)
    (halive : ∀ k < r, q.Alive (q.at k).chanId) (hr : 0 < r)
    (hready : 0 < w → q.reqProcess ≠ q.reqReady ∨ q.largeInProc = true) :
    ∃ r' w' n', Reaches accept q (actionChans [c] (q.pos n) q).2 r' w' n' ∧
      (actionChans [c] (q.pos n) q).1 = (actionChans [c] (q.pos n) q).2.pos n' ∧
      r' + w' = r + w ∧ 0 < r' := by
  by_cases hstop : q.pos n = q.reqEmpty ∨ q.largeInProc = true
  · rw [actionChans_stop hstop]
    exact ⟨r, w, n, .refl hring hserving halive, rfl, rfl, hr⟩
  · have hstay : ∃ r' w' n', Reaches accept q q r' w' n' ∧ q.pos n = q.pos n' ∧
        r' + w' = r + w ∧ 0 < r' := ⟨r, w, n, .refl hring hserving halive, rfl, rfl, hr⟩
    obtain ⟨w, rfl⟩ : ∃ w', w = w' + 1 := by
      refine ⟨w - 1, ?_⟩
      by_contra hzero
      obtain rfl : w = 0 := by omega
      exact hstop (hserving.stop hring)
    have hproc : q.reqProcess ≠ q.reqReady :=
      (hready (by omega)).resolve_right fun hlarge => hstop (Or.inr hlarge)
    simp only [actionChans, if_neg hstop]
    by_cases hlarge : (q.reqs (q.pos n)).cmd.Large
    · rw [if_pos ⟨hlarge, hproc⟩]
      exact hstay
    · rw [if_neg fun h => hlarge h.1]
      by_cases hc : (q.chan c).state = .ready
      · rw [if_pos hc]
        cases hserving with
        | short hshort =>
          obtain ⟨n', hreach, hnext⟩ := actionStart_reaches accept hring hshort halive hc
            fun hbig => absurd hbig hlarge
          exact ⟨r + 1, w, n', hreach, hnext, by omega, by omega⟩
        | more halone => exact absurd (Or.inr halone.largeInProc) hstop
        | done halone => exact absurd (Or.inr halone.largeInProc) hstop
      · rw [if_neg hc]
        exact hstay

/-- The loop of `mvCesaAction` after a request was put into the queue. -/
theorem actionChans_reaches (accept : SA → Command → Prop) {n : ℕ} (hring : Ring q r (w + 1))
    (hserving : Serving q r n)
    (halive : ∀ k < r, q.Alive (q.at k).chanId) (hworking : 0 < w → 0 < r)
    (hprocess : q.reqProcess = q.pos n) :
    ∃ r' w' n', Reaches accept q (actionChans [0, 1] q.reqProcess q).2 r' w' n' ∧
      (actionChans [0, 1] q.reqProcess q).1 = (actionChans [0, 1] q.reqProcess q).2.pos n' ∧
      r' + w' = r + w + 1 ∧ 0 < r' := by
  have hsize := hring.resources
  have htwo := hring.two_le
  rw [hprocess]
  by_cases hlarge : q.largeInProc = true
  · have hr : 0 < r := by
      cases hserving with
      | short hshort =>
        rw [hshort.largeInProc] at hlarge
        cases hlarge
      | more halone => omega
      | done halone => omega
    rw [actionChans_stop (Or.inr hlarge)]
    exact ⟨r, w + 1, n, .refl hring hserving halive, rfl, rfl, hr⟩
  cases hserving with
  | more halone => exact absurd halone.largeInProc hlarge
  | done halone => exact absurd halone.largeInProc hlarge
  | short hshort =>
    have hne := hring.pos_ne_empty (by omega)
    have hgo : ¬ (q.pos r = q.reqEmpty ∨ q.largeInProc = true) := fun h => h.elim hne hlarge
    rw [actionChans, if_neg hgo]
    by_cases hr : 0 < r
    · have hproc : q.reqProcess ≠ q.reqReady := by
        rw [hprocess]
        exact hring.pos_ne_ready hr (by omega)
      by_cases hbig : (q.reqs (q.pos r)).cmd.Large
      · rw [if_pos ⟨hbig, hproc⟩]
        exact ⟨r, w + 1, r, .refl hring (.short hshort) halive, rfl, rfl, hr⟩
      · rw [if_neg fun h => hbig h.1]
        by_cases hc : (q.chan 0).state = .ready
        · rw [if_pos hc]
          obtain ⟨n₁, hreach, hnext⟩ := actionStart_reaches accept hring hshort halive hc
            (fun h => absurd h hbig)
          have hproc' : (actionStart 0 (q.pos r) q).2.reqProcess ≠
              (actionStart 0 (q.pos r) q).2.reqReady := by
            rwa [hreach.reqProcess, hreach.reqReady]
          obtain ⟨r', w', n', hreach', hnext', hsum, hpos⟩ :=
            actionChans_one accept 1 hreach.ring hreach.serving hreach.alive (by omega)
              (fun _ => Or.inl hproc')
          rw [hnext]
          exact ⟨r', w', n', hreach.trans hreach' hsum, hnext', by omega, hpos⟩
        · rw [if_neg hc]
          obtain ⟨r', w', n', hreach, hnext, hsum, hpos⟩ :=
            actionChans_one accept 1 hring (.short hshort) halive hr (fun _ => Or.inl hproc)
          exact ⟨r', w', n', hreach, hnext, by omega, hpos⟩
    · obtain rfl : r = 0 := by omega
      obtain rfl : w = 0 := by omega
      have hproc : q.reqProcess = q.reqReady := by
        rw [hprocess]
        exact hring.pos_zero
      have hc : (q.chan 0).state = .ready := by
        rw [hshort.busy 0, if_neg (by simp)]
      rw [if_neg fun h => h.2 hproc, if_pos hc]
      obtain ⟨n', hreach, hnext⟩ := actionStart_reaches accept hring hshort halive hc
        (fun _ => ⟨rfl, rfl⟩)
      rw [hnext, actionChans_stop (hreach.serving.stop hreach.ring)]
      exact ⟨1, 0, n', hreach, rfl, rfl, by omega⟩

end Starting

end Mv88fxx81.Cesa
