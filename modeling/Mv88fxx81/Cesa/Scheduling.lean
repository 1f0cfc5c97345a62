import Mathlib.Logic.Relation
import Mv88fxx81.Cesa.Queue
import Mv88fxx81.Lib.Run

/-!
# Scheduling of the request queue

The queue holds some requests in process, followed by the waiting ones. Either up
to two short requests are in process on different channels, or one large request
alone on channel 0. Every call of the driver keeps this shape, and it never leaves
requests waiting with none in process.
-/

namespace Mv88fxx81.Cesa

open RingIndex

/-- The slot of the ring at position `k` from the head of the queue. -/
def Queue.pos (q : Queue) (k : ℕ) : ℕ := cell q.depth q.reqReady k

/-- The request at position `k` from the head of the queue. -/
def Queue.at (q : Queue) (k : ℕ) : Req := q.reqs (q.pos k)

/-- The fragment mode of a waiting request. -/
def waitingMode (cmd : Command) : FragMode := if cmd.size ≤ bothBufSize then .none else .first

/-- The ring holds `r` requests in process, then `w` waiting ones. -/
structure Ring (q : Queue) (r w : ℕ) : Prop where
  two_le : 2 ≤ q.depth
  ready_lt : q.reqReady < q.depth
  empty : q.reqEmpty = q.pos (r + w)
  resources : r + w + q.resources = q.depth
  running : ∀ k < r, (q.at k).state = .process
  waiting : ∀ k, r ≤ k → k < r + w →
    (q.at k).state = .pending ∧ (q.at k).fragMode = waitingMode (q.at k).cmd
  free : ∀ k, r + w ≤ k → k < q.depth → (q.at k).state = .idle
  outside : ∀ i, q.depth ≤ i → (q.reqs i).state = .idle

/-- The `r` requests in process are short ones on different channels, and just
their channels are busy. -/
structure Short (q : Queue) (r : ℕ) : Prop where
  largeInProc : q.largeInProc = false
  le_two : r ≤ 2
  short : ∀ k < r, ¬ (q.at k).cmd.Large ∧ (q.at k).fragMode = .none
  apart : r = 2 → (q.at 0).chanId ≠ (q.at 1).chanId
  busy : ∀ c, (q.chan c).state = if ∃ k < r, (q.at k).chanId = c then .process else .ready

/-- The request in process is a large one. With `more`, further fragments of it
have to be started. -/
structure Alone (q : Queue) (more : Bool) : Prop where
  largeInProc : q.largeInProc = true
  large : (q.at 0).cmd.Large
  chanId : (q.at 0).chanId = 0
  fragMode : if more then (q.at 0).fragMode = .middle
    else (q.at 0).fragMode = .none ∨ (q.at 0).fragMode = .last
  other : (q.chan 1).state = .ready

/-- The engine works on channel `c`, has reported it, or the report is noted. -/
def Queue.Alive (q : Queue) (c : Fin 2) : Prop :=
  (q.chan c).active = true ∨ (q.chan c).done = true ∨ q.chanReadyMap c = true

/-- The requests in process, and the position of the next request to be started. -/
inductive Serving (q : Queue) : ℕ → ℕ → Prop
  | short {r : ℕ} : Short q r → Serving q r r
  | more : Alone q true → Serving q 1 0
  | done : Alone q false → Serving q 1 1

theorem Ring.pos_lt {q : Queue} {r w k : ℕ} (hring : Ring q r w) (hk : k ≤ q.depth) :
    q.pos k < q.depth :=
  cell_lt hring.ready_lt hk

theorem Ring.pos_zero {q : Queue} {r w : ℕ} (hring : Ring q r w) : q.pos 0 = q.reqReady :=
  cell_zero hring.ready_lt

theorem Ring.next_pos {q : Queue} {r w k : ℕ} (hring : Ring q r w) (hk : k < q.depth) :
    q.reqNext (q.pos k) = q.pos (k + 1) :=
  next_cell hring.ready_lt hk

/-- The positions depend on the depth and the head only. -/
theorem pos_congr {q q' : Queue} (hdepth : q'.depth = q.depth) (hready : q'.reqReady = q.reqReady) :
    q'.pos = q.pos := by
  funext k
  unfold Queue.pos
  rw [hdepth, hready]

/-- A slot that is written changes the request of its position only. -/
theorem at_of_update {q q' : Queue} {j k : ℕ} {req : Req} (hdepth : q'.depth = q.depth)
    (hready : q'.reqReady = q.reqReady) (hreqs : q'.reqs = Function.update q.reqs (q.pos k) req)
    (hj : j < q.depth) (hk : k < q.depth) : q'.at j = if j = k then req else q.at j := by
  unfold Queue.at
  rw [hreqs, pos_congr hdepth hready]
  by_cases heq : j = k
  · subst heq
    simp
  · have hne : q.pos j ≠ q.pos k := by
      intro hsame
      exact heq ((cell_inj hj hk).mp hsame)
    rw [if_neg heq, Function.update_of_ne hne]

/-- What starting the engine on channel `c` for the request in slot `p` does to the
ring and the channels, with `req` written to the slot. -/
structure Started (q : Queue) (c : Fin 2) (p : ℕ) (req : Req) (q' : Queue) : Prop where
  depth : q'.depth = q.depth
  reqEmpty : q'.reqEmpty = q.reqEmpty
  reqProcess : q'.reqProcess = q.reqProcess
  reqReady : q'.reqReady = q.reqReady
  resources : q'.resources = q.resources
  chanReadyMap : q'.chanReadyMap = q.chanReadyMap
  reqs : q'.reqs = Function.update q.reqs p req
  state : (q'.chan c).state = .process
  active : (q'.chan c).active = true
  others : ∀ c', c' ≠ c → q'.chan c' = q.chan c'

/-- A short request is started. -/
theorem mvCesaReqProcess_short {q : Queue} {c : Fin 2} {p : ℕ} (hshort : ¬ (q.reqs p).cmd.Large) :
    Started q c p { q.reqs p with chanId := c, state := .process } (mvCesaReqProcess c p q).2 ∧
      (mvCesaReqProcess c p q).2.largeInProc = q.largeInProc := by
  simp only [mvCesaReqProcess, Queue.setReq, Function.update_self, hshort, if_false, false_and]
  refine ⟨⟨rfl, rfl, rfl, rfl, rfl, rfl, rfl, ?_, ?_, ?_⟩, rfl⟩
  · simp [Queue.setChanState, mvCesaCmdProcess]
  · simp [Queue.setChanState, mvCesaCmdProcess, Queue.startEngine]
  · intro c' hne
    simp [Queue.setChanState, mvCesaCmdProcess, Queue.startEngine, Queue.note,
      Function.update_of_ne hne]

/-- A large request is started on channel 0. -/
theorem mvCesaReqProcess_large {q : Queue} {p : ℕ} (hlarge : (q.reqs p).cmd.Large) :
    Started q 0 p { q.reqs p with chanId := 0, state := .process } (mvCesaReqProcess 0 p q).2 ∧
      (mvCesaReqProcess 0 p q).2.largeInProc = true := by
  simp only [mvCesaReqProcess, Queue.setReq, Function.update_self, hlarge, if_true, ne_eq,
    not_true_eq_false, and_false, if_false]
  refine ⟨⟨rfl, rfl, rfl, rfl, rfl, rfl, rfl, ?_, ?_, ?_⟩, rfl⟩
  · simp [Queue.setChanState, mvCesaCmdProcess]
  · simp [Queue.setChanState, mvCesaCmdProcess, Queue.startEngine]
  · intro c' hne
    simp [Queue.setChanState, mvCesaCmdProcess, Queue.startEngine, Queue.note,
      Function.update_of_ne hne]

/-- Starting a fragment concerns channel 0 only. -/
theorem startFragment_chan (q : Queue) (p : ℕ) (sa : SA) (mode : FragMode) (sizes : FragSizes)
    (r : DescRanges) (fixOffset : ℕ) :
    ((q.startFragment p sa mode sizes r fixOffset).chan 0).state = .process ∧
      ((q.startFragment p sa mode sizes r fixOffset).chan 0).active = true ∧
      ∀ c', c' ≠ 0 → (q.startFragment p sa mode sizes r fixOffset).chan c' = q.chan c' := by
  refine ⟨?_, ?_, ?_⟩
  · simp [Queue.startFragment, Queue.setChanState]
  · simp [Queue.startFragment, Queue.setChanState, Queue.startEngine]
  · intro c' hne
    simp [Queue.startFragment, Queue.setChanState, Queue.startEngine, Queue.note,
      Function.update_of_ne hne]

/-- The first fragment is started. -/
theorem fragFirst_started (p : ℕ) (q : Queue) :
    Started q 0 p { q.reqs p with chanId := 0, state := .process, fragMode := .middle }
        (fragFirst p q) ∧ (fragFirst p q).largeInProc = true := by
  obtain ⟨hstate, hactive, hothers⟩ := startFragment_chan _ _ _ _ _ _ _
  exact ⟨⟨rfl, rfl, rfl, rfl, rfl, rfl, rfl, hstate, hactive, hothers⟩, rfl⟩

/-- A middle fragment is started. -/
theorem fragMiddle_started (p : ℕ) (q : Queue) :
    Started q 0 p { q.reqs p with chanId := 0 } (fragMiddle p q) ∧
      (fragMiddle p q).largeInProc = q.largeInProc := by
  obtain ⟨hstate, hactive, hothers⟩ := startFragment_chan _ _ _ _ _ _ _
  exact ⟨⟨rfl, rfl, rfl, rfl, rfl, rfl, rfl, hstate, hactive, hothers⟩, rfl⟩

/-- The last fragment is started. -/
theorem fragLast_started (p : ℕ) (digestOffset : ℤ) (q : Queue) :
    Started q 0 p { q.reqs p with chanId := 0, fragMode := .last } (fragLast p digestOffset q) ∧
      (fragLast p digestOffset q).largeInProc = q.largeInProc := by
  unfold fragLast
  dsimp only
  split
  · obtain ⟨hstate, hactive, hothers⟩ := startFragment_chan _ _ _ _ _ _ _
    exact ⟨⟨rfl, rfl, rfl, rfl, rfl, rfl, rfl, hstate, hactive, hothers⟩, rfl⟩
  · obtain ⟨hstate, hactive, hothers⟩ := startFragment_chan _ _ _ _ _ _ _
    exact ⟨⟨rfl, rfl, rfl, rfl, rfl, rfl, rfl, hstate, hactive, hothers⟩, rfl⟩

/-- What continuing a fragmented request can do: start a middle or the last
fragment, or finish without the engine. -/
theorem mvCesaFragReqProcess_cases {q : Queue} {p : ℕ} (hmode : (q.reqs p).fragMode ≠ .first) :
    mvCesaFragReqProcess p q = (.ok, fragMiddle p q) ∨
      (∃ digestOffset, mvCesaFragReqProcess p q = (.ok, fragLast p digestOffset q)) ∨
      ∃ digestOffset, mvCesaFragReqProcess p q = (.terminate, fragTerminate p digestOffset q) := by
  unfold mvCesaFragReqProcess
  dsimp only
  rw [if_neg hmode]
  split
  · split
    · exact Or.inr (Or.inr ⟨_, rfl⟩)
    · exact Or.inr (Or.inl ⟨_, rfl⟩)
  · split
    · exact Or.inr (Or.inr ⟨_, rfl⟩)
    · exact Or.inl rfl

/-- The first call for a fragmented request starts the first fragment. -/
theorem mvCesaFragReqProcess_first {q : Queue} {p : ℕ} (hmode : (q.reqs p).fragMode = .first) :
    mvCesaFragReqProcess p q = (.ok, fragFirst p q) := by
  unfold mvCesaFragReqProcess
  exact if_pos hmode

/-- The requests of a started state, by position. -/
theorem Started.at {q q' : Queue} {c : Fin 2} {j k : ℕ} {req : Req}
    (hstart : Started q c (q.pos k) req q') (hj : j < q.depth) (hk : k < q.depth) :
    q'.at j = if j = k then req else q.at j :=
  at_of_update hstart.depth hstart.reqReady hstart.reqs hj hk

/-- Writing a slot of the ring keeps the slots outside of it. -/
theorem Ring.outside_update {q q' : Queue} {r w k : ℕ} {req : Req} (hring : Ring q r w)
    (hk : k ≤ q.depth) (hdepth : q'.depth = q.depth)
    (hreqs : q'.reqs = Function.update q.reqs (q.pos k) req) :
    ∀ i, q'.depth ≤ i → (q'.reqs i).state = .idle := by
  intro i hi
  have hlt := hring.pos_lt hk
  rw [hdepth] at hi
  rw [hreqs, Function.update_of_ne (by omega)]
  exact hring.outside i hi

/-- Starting the first waiting request moves it to the requests in process. -/
theorem Ring.start {q q' : Queue} {c : Fin 2} {r w : ℕ} {req : Req} (hring : Ring q r (w + 1))
    (hstart : Started q c (q.pos r) req q') (hreq : req.state = .process) : Ring q' (r + 1) w := by
  have hsize := hring.resources
  have hr : r < q.depth := by omega
  have hat := fun j (hj : j < q.depth) => hstart.at hj hr
  have hpos := pos_congr hstart.depth hstart.reqReady
  refine ⟨by rw [hstart.depth]; exact hring.two_le, ?_, ?_, ?_, ?_, ?_, ?_,
    hring.outside_update (by omega) hstart.depth hstart.reqs⟩
  · rw [hstart.depth, hstart.reqReady]
    exact hring.ready_lt
  · rw [hstart.reqEmpty, hpos, hring.empty]
    congr 1
    omega
  · rw [hstart.depth, hstart.resources]
    omega
  · intro k hk
    rw [hat k (by omega)]
    by_cases heq : k = r
    · rw [if_pos heq]
      exact hreq
    · rw [if_neg heq]
      exact hring.running k (by omega)
  · intro k hk hk'
    rw [hat k (by omega), if_neg (by omega)]
    exact hring.waiting k (by omega) (by omega)
  · intro k hk hk'
    rw [hstart.depth] at hk'
    rw [hat k hk', if_neg (by omega)]
    exact hring.free k (by omega) hk'

/-- Writing a request in process keeps the ring. -/
theorem Ring.rewrite {q q' : Queue} {r w k : ℕ} {req : Req} (hring : Ring q r w) (hk : k < r)
    (hdepth : q'.depth = q.depth) (hready : q'.reqReady = q.reqReady)
    (hempty : q'.reqEmpty = q.reqEmpty) (hresources : q'.resources = q.resources)
    (hreqs : q'.reqs = Function.update q.reqs (q.pos k) req) (hreq : req.state = .process) :
    Ring q' r w := by
  have hsize := hring.resources
  have hkd : k < q.depth := by omega
  have hat := fun j (hj : j < q.depth) => at_of_update hdepth hready hreqs hj hkd
  have hpos := pos_congr hdepth hready
  refine ⟨by rw [hdepth]; exact hring.two_le, by rw [hdepth, hready]; exact hring.ready_lt,
    by rw [hempty, hpos]; exact hring.empty, by rw [hdepth, hresources]; exact hsize, ?_, ?_, ?_,
    hring.outside_update (by omega) hdepth hreqs⟩
  · intro j hj
    rw [hat j (by omega)]
    split
    · exact hreq
    · exact hring.running j hj
  · intro j hj hj'
    rw [hat j (by omega), if_neg (by omega)]
    exact hring.waiting j hj hj'
  · intro j hj hj'
    rw [hdepth] at hj'
    rw [hat j hj', if_neg (by omega)]
    exact hring.free j hj hj'

/-- The ring does not depend on the state of the channels. -/
theorem Ring.congr {q q' : Queue} {r w : ℕ} (hring : Ring q r w)
    (hdepth : q'.depth = q.depth) (hready : q'.reqReady = q.reqReady)
    (hempty : q'.reqEmpty = q.reqEmpty) (hresources : q'.resources = q.resources)
    (hreqs : q'.reqs = q.reqs) : Ring q' r w := by
  have hpos := pos_congr hdepth hready
  have hat : q'.at = q.at := by
    funext k
    unfold Queue.at
    rw [hpos, hreqs]
  obtain ⟨htwo, hlt, hempty', hsize, hrunning, hwaiting, hfree, houtside⟩ := hring
  exact ⟨by rwa [hdepth], by rwa [hdepth, hready], by rwa [hempty, hpos],
    by rwa [hdepth, hresources], by rwa [hat], by rwa [hat], by rwa [hdepth, hat],
    by rwa [hdepth, hreqs]⟩

/-- The slot of an accepted request. -/
theorem Ring.enqueue_reqs {q : Queue} {r w : ℕ} (hring : Ring q r w) (cmd : Command) (sa : SA)
    (fragMode : FragMode) :
    (q.enqueue cmd sa fragMode).reqs = Function.update q.reqs (q.pos (r + w))
      { q.at (r + w) with cmd, fragMode, state := .pending, accepted := sa } := by
  unfold Queue.at
  rw [← hring.empty]
  rfl

/-- The positions after a request was accepted. -/
theorem Ring.at_enqueue {q : Queue} {r w j : ℕ} (hring : Ring q r w) (hlast : r + w < q.depth)
    (cmd : Command) (sa : SA) (fragMode : FragMode) (hj : j < q.depth) :
    (q.enqueue cmd sa fragMode).at j = if j = r + w then
      { q.at (r + w) with cmd, fragMode, state := .pending, accepted := sa } else q.at j :=
  at_of_update rfl rfl (hring.enqueue_reqs cmd sa fragMode) hj hlast

/-- An accepted request becomes the last waiting one. -/
theorem Ring.enqueue {q : Queue} {r w : ℕ} (cmd : Command) (sa : SA) (hring : Ring q r w)
    (hfree : q.resources ≠ 0) : Ring (q.enqueue cmd sa (waitingMode cmd)) r (w + 1) := by
  have hsize := hring.resources
  have hlast : r + w < q.depth := by omega
  have hat := fun j (hj : j < q.depth) => hring.at_enqueue hlast cmd sa (waitingMode cmd) hj
  refine ⟨hring.two_le, hring.ready_lt, ?_, ?_, ?_, ?_, ?_,
    hring.outside_update (by omega) rfl (hring.enqueue_reqs cmd sa _)⟩
  · show q.reqNext q.reqEmpty = q.pos (r + (w + 1))
    rw [hring.empty, hring.next_pos hlast, Nat.add_assoc]
  · show r + (w + 1) + (q.resources - 1) = q.depth
    omega
  · intro k hk
    rw [hat k (by omega), if_neg (by omega)]
    exact hring.running k hk
  · intro k hk hk'
    rw [hat k (by omega)]
    by_cases heq : k = r + w
    · rw [if_pos heq]
      exact ⟨rfl, rfl⟩
    · rw [if_neg heq]
      exact hring.waiting k hk (by omega)
  · intro k hk hk'
    rw [hat k hk', if_neg (by omega)]
    exact hring.free k (by omega) hk'

/-- The positions after the head was handed back. -/
theorem Ring.at_retire {q : Queue} {r w k : ℕ} (hring : Ring q (r + 1) w) (hk : k + 1 < q.depth) :
    q.retire.at k = q.at (k + 1) := by
  have hpos : q.retire.pos k = q.pos (k + 1) :=
    cell_next hring.ready_lt (Nat.lt_of_succ_lt hk)
  have hne : q.pos (k + 1) ≠ q.reqReady := by
    rw [← hring.pos_zero]
    intro hsame
    have := (cell_inj hk (by have := hring.two_le; omega)).mp hsame
    omega
  unfold Queue.at
  rw [hpos]
  exact Function.update_of_ne hne _ _

/-- Handing back the request at the head frees its slot. -/
theorem Ring.retire {q : Queue} {r w : ℕ} (hring : Ring q (r + 1) w) : Ring q.retire r w := by
  have hsize := hring.resources
  have hpos : ∀ k < q.depth, q.retire.pos k = q.pos (k + 1) :=
    fun k hk => cell_next hring.ready_lt hk
  refine ⟨hring.two_le, next_lt hring.ready_lt, ?_, ?_, ?_, ?_, ?_, ?_⟩
  · show q.reqEmpty = q.retire.pos (r + w)
    rw [hpos _ (by omega), hring.empty]
    congr 1
    omega
  · show r + w + (q.resources + 1) = q.depth
    omega
  · intro k hk
    rw [hring.at_retire (by omega)]
    exact hring.running (k + 1) (by omega)
  · intro k hk hk'
    rw [hring.at_retire (by omega)]
    exact hring.waiting (k + 1) (by omega) (by omega)
  · intro k hk hk'
    have hk'' : k < q.depth := hk'
    by_cases hlast : k + 1 = q.depth
    · have hcell : q.retire.pos k = q.reqReady := by
        rw [hpos k hk'', hlast]
        exact cell_capacity
      unfold Queue.at
      rw [hcell]
      simp [Queue.retire, Queue.setReq]
    · rw [hring.at_retire (by omega)]
      exact hring.free (k + 1) (by omega) (by omega)
  · intro i hi
    have hi' : q.depth ≤ i := hi
    have hlt := hring.ready_lt
    have hne : i ≠ q.reqReady := by omega
    simp only [Queue.retire, Queue.setReq, Function.update_of_ne hne]
    exact hring.outside i hi'

/-- Short requests stay short and their channels busy if neither changes. -/
theorem Short.congr {q q' : Queue} {r : ℕ} (hshort : Short q r)
    (hlarge : q'.largeInProc = q.largeInProc) (hat : ∀ k < r, q'.at k = q.at k)
    (hchan : ∀ c, (q'.chan c).state = (q.chan c).state) : Short q' r := by
  refine ⟨hlarge.trans hshort.largeInProc, hshort.le_two, ?_, ?_, ?_⟩
  · intro k hk
    rw [hat k hk]
    exact hshort.short k hk
  · intro htwo
    rw [hat 0 (by omega), hat 1 (by omega)]
    exact hshort.apart htwo
  · intro c
    rw [hchan c, hshort.busy c]
    congr 1
    refine propext (exists_congr fun k => and_congr_right fun hk => ?_)
    rw [hat k hk]

/-- A large request stays alone if it and the other channel do not change. -/
theorem Alone.congr {q q' : Queue} {more : Bool} (halone : Alone q more)
    (hlarge : q'.largeInProc = q.largeInProc) (hat : q'.at 0 = q.at 0)
    (hchan : (q'.chan 1).state = (q.chan 1).state) : Alone q' more := by
  obtain ⟨hproc, hlarge', hid, hmode, hother⟩ := halone
  refine ⟨hlarge.trans hproc, ?_, ?_, ?_, hchan.trans hother⟩
  · rwa [hat]
  · rwa [hat]
  · rwa [hat]

/-- The requests in process do not depend on the waiting ones. -/
theorem Serving.congr {q q' : Queue} {r n : ℕ} (hserving : Serving q r n)
    (hlarge : q'.largeInProc = q.largeInProc) (hat : ∀ k < r, q'.at k = q.at k)
    (hchan : ∀ c, (q'.chan c).state = (q.chan c).state) : Serving q' r n := by
  cases hserving with
  | short hshort => exact .short (hshort.congr hlarge hat hchan)
  | more halone => exact .more (halone.congr hlarge (hat 0 (by omega)) (hchan 1))
  | done halone => exact .done (halone.congr hlarge (hat 0 (by omega)) (hchan 1))

/-- A free channel leaves room for another short request. -/
theorem Short.lt_two {q : Queue} {r : ℕ} {c : Fin 2} (hshort : Short q r)
    (hc : (q.chan c).state = .ready) : r < 2 := by
  by_contra hge
  have htwo : r = 2 := by
    have := hshort.le_two
    omega
  have hbusy := hshort.busy c
  rw [hc] at hbusy
  have hne := hshort.apart htwo
  have hmem : ∃ k < r, (q.at k).chanId = c := by
    by_cases hzero : (q.at 0).chanId = c
    · exact ⟨0, by omega, hzero⟩
    · refine ⟨1, by omega, ?_⟩
      generalize (q.at 0).chanId = a at *
      generalize (q.at 1).chanId = b at *
      omega
  rw [if_pos hmem] at hbusy
  cases hbusy

/-- No short request in process is on a free channel. -/
theorem Short.chanId_ne {q : Queue} {r k : ℕ} {c : Fin 2} (hshort : Short q r)
    (hc : (q.chan c).state = .ready) (hk : k < r) : (q.at k).chanId ≠ c := by
  intro heq
  have hbusy := hshort.busy c
  rw [hc, if_pos ⟨k, hk, heq⟩] at hbusy
  cases hbusy

/-- Starting a short request on a free channel. -/
theorem Short.start {q q' : Queue} {c : Fin 2} {r : ℕ} {req : Req} (hshort : Short q r)
    (hc : (q.chan c).state = .ready) (hr : r < q.depth) (hstart : Started q c (q.pos r) req q')
    (hlarge : q'.largeInProc = q.largeInProc) (hreq : ¬ req.cmd.Large)
    (hmode : req.fragMode = .none)
    (hid : req.chanId = c) : Short q' (r + 1) := by
  have hlt := hshort.lt_two hc
  have hold : ∀ k < r, q'.at k = q.at k := by
    intro k hk
    rw [hstart.at (by omega) hr, if_neg (by omega)]
  have hnew : q'.at r = req := by
    rw [hstart.at hr hr, if_pos rfl]
  refine ⟨hlarge.trans hshort.largeInProc, by omega, ?_, ?_, ?_⟩
  · intro k hk
    by_cases heq : k = r
    · rw [heq, hnew]
      exact ⟨hreq, hmode⟩
    · rw [hold k (by omega)]
      exact hshort.short k (by omega)
  · intro htwo
    obtain rfl : r = 1 := by omega
    rw [hold 0 (by omega), hnew, hid]
    exact hshort.chanId_ne hc (by omega)
  · intro c'
    by_cases hcc : c' = c
    · subst hcc
      rw [hstart.state, if_pos ⟨r, by omega, by rw [hnew, hid]⟩]
    · rw [hstart.others c' hcc, hshort.busy c']
      congr 1
      refine propext ⟨?_, ?_⟩
      · rintro ⟨k, hk, hck⟩
        exact ⟨k, by omega, by rw [hold k hk, hck]⟩
      · rintro ⟨k, hk, hck⟩
        have hne : k ≠ r := by
          rintro rfl
          rw [hnew, hid] at hck
          exact hcc hck.symm
        exact ⟨k, by omega, by rw [← hold k (by omega), hck]⟩

/-- Starting a large request, or a fragment of one, on channel 0. -/
theorem Alone.ofStart {q q' : Queue} {req : Req} {more : Bool} (hdepth : 0 < q.depth)
    (hother : (q.chan 1).state = .ready) (hstart : Started q 0 (q.pos 0) req q')
    (hproc : q'.largeInProc = true) (hlarge : req.cmd.Large) (hid : req.chanId = 0)
    (hmode : if more then req.fragMode = .middle
      else req.fragMode = .none ∨ req.fragMode = .last) : Alone q' more := by
  have hnew : q'.at 0 = req := by
    rw [hstart.at hdepth hdepth, if_pos rfl]
  refine ⟨hproc, ?_, ?_, ?_, ?_⟩
  · rwa [hnew]
  · rwa [hnew]
  · rwa [hnew]
  · rw [hstart.others 1 (by decide)]
    exact hother

/-- The short requests left after the head was handed back. -/
theorem Short.retire {q : Queue} {r w : ℕ} (hring : Ring q (r + 1) w) (hshort : Short q (r + 1)) :
    Short (q.finishChan (q.at 0).chanId).retire r := by
  have hsize := hring.resources
  have htwo := hring.two_le
  have hle := hshort.le_two
  have hat : ∀ k < r, (q.finishChan (q.at 0).chanId).retire.at k = q.at (k + 1) := by
    intro k hk
    have hring' : Ring (q.finishChan (q.at 0).chanId) (r + 1) w :=
      hring.congr rfl rfl rfl rfl rfl
    exact hring'.at_retire (by show k + 1 < q.depth; omega)
  refine ⟨rfl, by omega, ?_, by omega, ?_⟩
  · intro k hk
    rw [hat k hk]
    exact hshort.short (k + 1) (by omega)
  · intro c
    show (Function.update q.chan (q.at 0).chanId _ c).state = _
    by_cases hc : c = (q.at 0).chanId
    · subst hc
      rw [Function.update_self, if_neg]
      rintro ⟨k, hk, hck⟩
      rw [hat k hk] at hck
      obtain rfl : k = 0 := by omega
      exact hshort.apart (by omega) hck.symm
    · rw [Function.update_of_ne hc, hshort.busy c]
      congr 1
      refine propext ⟨?_, ?_⟩
      · rintro ⟨k, hk, hck⟩
        have hne : k ≠ 0 := by
          rintro rfl
          exact hc hck.symm
        refine ⟨k - 1, by omega, ?_⟩
        rw [hat _ (by omega), Nat.sub_add_cancel (by omega), hck]
      · rintro ⟨k, hk, hck⟩
        exact ⟨k + 1, by omega, by rw [← hat k hk, hck]⟩

/-- Nothing is in process after a large request was handed back. -/
theorem Alone.retire {q : Queue} {more : Bool} (halone : Alone q more) :
    Short (q.finishChan (q.at 0).chanId).retire 0 := by
  refine ⟨rfl, by omega, by omega, by omega, ?_⟩
  intro c
  show (Function.update q.chan (q.at 0).chanId _ c).state = _
  rw [halone.chanId, if_neg (by simp)]
  by_cases hc : c = 0
  · subst hc
    rw [Function.update_self]
  · obtain rfl : c = 1 := by omega
    rw [Function.update_of_ne hc]
    exact halone.other

end Mv88fxx81.Cesa
