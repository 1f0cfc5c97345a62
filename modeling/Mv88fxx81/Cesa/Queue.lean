import Mv88fxx81.Cesa.Command
import Mv88fxx81.Lib.RingIndex

/-!
# The request queue

Requests wait in a ring until a channel of the engine is free for them. A short
request uses the buffer of one channel, a large one the buffers of both, and one
that is larger than that is processed in fragments on channel 0. This file embeds
`mvCesaAction`, which accepts a request, `mvCesaReadyGet`, which hands a finished
one back, and the functions that start requests on a channel.

The data that is copied between the buffers is not part of the state; its places
in the SRAM are.
-/

namespace Mv88fxx81.Cesa

open RingIndex

/-- `MV_CESA_STATE`. -/
inductive CesaState
  | idle
  | pending
  | process
  | ready
  deriving DecidableEq, Repr

/-- `MV_CESA_FRAG_MODE`. -/
inductive FragMode
  | none
  | first
  | last
  | middle
  deriving DecidableEq, Repr

/-- The fragment mode in the configuration word. -/
def FragMode.bits : FragMode → UInt32
  | .none => 0
  | .first => (1 : UInt32) <<< 30
  | .last => (2 : UInt32) <<< 30
  | .middle => (3 : UInt32) <<< 30

/-- `MV_CESA_REQ`. The entry of the session at the time the request was accepted is
recorded with it, which the source does not do. -/
structure Req where
  chanId : Fin 2
  state : CesaState
  fragMode : FragMode
  fixOffset : ℕ
  cmd : Command
  orgCmd : Option Command
  accepted : SA
  deriving DecidableEq

/-- A copy of the DMA engine, by its place in the SRAM. -/
structure Transfer where
  offset : ℤ
  size : ℤ
  deriving DecidableEq

/-- A channel: its state in the driver, the descriptor and the copies it is started
with, and whether the engine works on it or has reported it done. -/
structure Chan where
  state : CesaState
  desc : Desc
  copyIn : Transfer
  copyOut : Transfer
  active : Bool
  done : Bool
  deriving DecidableEq

/-- A use of a security association for a request: the entry of its session when
the request was accepted, the entry that was read, and the configuration word and
the key material in the slot that the engine is given, if it is started. -/
structure Use where
  accepted : SA
  entry : SA
  engine : Option (UInt32 × KeyMaterial)
  deriving DecidableEq

/-- The state of the driver and of the two channels of the engine. The list of
uses is kept for the statement of results only. -/
structure Queue where
  is5182 : Bool
  keys : KeyStore
  depth : ℕ
  reqs : ℕ → Req
  reqEmpty : ℕ
  reqProcess : ℕ
  reqReady : ℕ
  resources : ℕ
  largeInProc : Bool
  chanReadyMap : Fin 2 → Bool
  chan : Fin 2 → Chan
  frags : Frags
  uses : List Use

/-- A command after a `memset` to zero, in the place of a null pointer. -/
def zeroCommand : Command := ⟨0, ⟨0, 0⟩, ⟨0, 0⟩, 0, 0, 0, 0, 0, 0, 0, 0⟩

/-- A request after a `memset` to zero. -/
def zeroReq : Req := ⟨0, .idle, .none, 0, zeroCommand, none, zeroSA⟩

/-- A channel after `mvCesaInit`. -/
def readyChan : Chan :=
  ⟨.ready, ⟨0, 0, 0, 0, 0, 0, 0, 0, 0, 0, 0, 0, 0⟩, ⟨0, 0⟩, ⟨0, 0⟩, false, false⟩

/-- `mvCesaInit`, with every allocation successful. -/
def mvCesaInit (is5182 : Bool) (numOfSession queueDepth : ℕ) : Queue :=
  { is5182
    keys := keyStoreInit numOfSession
    depth := queueDepth
    reqs := fun _ => zeroReq
    reqEmpty := 0
    reqProcess := 0
    reqReady := 0
    resources := queueDepth
    largeInProc := false
    chanReadyMap := fun _ => false
    chan := fun _ => readyChan
    frags := ⟨0, 0, 0, 0, 0⟩
    uses := [] }

/-- `MV_CESA_REQ_NEXT_PTR`. -/
def Queue.reqNext (q : Queue) (p : ℕ) : ℕ := next q.depth p

/-- Write a request of the ring. -/
def Queue.setReq (q : Queue) (p : ℕ) (req : Req) : Queue :=
  { q with reqs := Function.update q.reqs p req }

/-- Write the state of a channel. -/
def Queue.setChanState (q : Queue) (c : Fin 2) (state : CesaState) : Queue :=
  { q with chan := Function.update q.chan c { q.chan c with state } }

/-- Note a use of the session of the request `p`, by the entry `sa` and what the
engine is given. -/
def Queue.note (q : Queue) (p : ℕ) (sa : SA) (engine : Option (UInt32 × KeyMaterial)) : Queue :=
  { q with uses := q.uses ++ [⟨(q.reqs p).accepted, sa, engine⟩] }

/-- Hand a descriptor and the copies to a channel and start the engine. -/
def Queue.startEngine (q : Queue) (c : Fin 2) (config : UInt32) (sa : SA) (r : DescRanges)
    (copyIn copyOut : Transfer) : Queue :=
  { q with
    chan := Function.update q.chan c
      { q.chan c with
        desc := mvCesaSramDescrBuild (q.chan c).desc c sa.cacheIdx config r
        copyIn
        copyOut
        active := true } }

/-- `mvCesaCmdProcess`, for the command of the request `p`. -/
def mvCesaCmdProcess (c : Fin 2) (p : ℕ) (q : Queue) : Status × Queue :=
  let req := q.reqs p
  let cmd := req.cmd
  let fixOffset := req.fixOffset
  let q := { q with keys := (mvCesaCacheSramUpdate cmd.sid q.keys).2 }
  let sa := q.keys.sad cmd.sid
  let ranges : DescRanges :=
    { cryptoOffset := cmd.cryptoOffset.toNat + fixOffset
      ivOffset := cmd.ivOffset.toNat + fixOffset
      cryptoLength := cmd.cryptoLength.toNat
      macOffset := cmd.macOffset.toNat + fixOffset
      digestOffset := cmd.digestOffset.toNat + fixOffset
      macLength := cmd.macLength.toNat
      macTotalLen := cmd.macLength.toNat }
  let q := q.note p sa (some (sa.config, (q.keys.cacheSA sa.cacheIdx).keys))
  (.ok, q.startEngine c sa.config sa ranges ⟨sramBufOffset c + fixOffset, cmd.size⟩
    ⟨sramBufOffset c + fixOffset, cmd.dst.mbufSize.toNat⟩)

/-- `mvCesaReqProcess`. -/
def mvCesaReqProcess (c : Fin 2) (p : ℕ) (q : Queue) : Status × Queue :=
  let q := q.setReq p { q.reqs p with chanId := c, state := .process }
  let large := (q.reqs p).cmd.Large
  let q := if large then { q with largeInProc := true } else q
  if large ∧ c ≠ 0 then (.fail, q)
  else
    let (status, q) := mvCesaCmdProcess c p q
    if status ≠ .ok then (status, q) else (.ok, q.setChanState c .process)

/-- The place of the IV for the first fragment. -/
def fragIvOffset (sa : SA) (cmd : Command) (copySize : ℤ) : ℤ :=
  if operationOf sa.config ≠ macOnly ∧ cryptoModeOf sa.config = cryptoCbc then
    if (cmd.ivOffset.toNat : ℤ) > copySize - sa.cryptoIvSize then sramTempCryptoIV
    else cmd.ivOffset.toNat
  else 0

/-- The place of the digest for the first fragment. -/
def fragDigestOffset (sa : SA) (cmd : Command) (copySize : ℤ) : ℤ :=
  if operationOf sa.config ≠ cryptoOnly ∧ directionOf sa.config = dirDecode then
    if (cmd.digestOffset.toNat : ℤ) > copySize - sa.digestSize then sramTempDigest
    else cmd.digestOffset.toNat
  else 0

/-- The end of `mvCesaFragReqProcess`: copies and descriptor of a fragment of
`sizes`, handed to channel 0. -/
def Queue.startFragment (q : Queue) (p : ℕ) (sa : SA) (mode : FragMode) (sizes : FragSizes)
    (r : DescRanges) (fixOffset : ℕ) : Queue :=
  let q := q.note p sa (some (sa.config ||| mode.bits, (q.keys.cacheSA sa.cacheIdx).keys))
  let q := q.startEngine 0 (sa.config ||| mode.bits) sa r ⟨fixOffset, sizes.copySize⟩
    ⟨fixOffset, sizes.copySize⟩
  let q := { q with
    frags := { q.frags with
      bufOffset := q.frags.bufOffset + sizes.copySize
      cryptoSize := q.frags.cryptoSize + sizes.cryptoDataSize
      macSize := q.frags.macSize + sizes.macDataSize } }
  q.setChanState 0 .process

/-- The first fragment in `mvCesaFragReqProcess`. -/
def fragFirst (p : ℕ) (q : Queue) : Queue :=
  let req := q.reqs p
  let cmd := req.cmd
  let sa := q.keys.sad cmd.sid
  let frags : Frags :=
    { q.frags with sid := cmd.sid, bufOffset := 0, cryptoSize := 0, macSize := 0 }
  let cryptoOffset : ℤ := cmd.cryptoOffset.toNat
  let macOffset : ℤ := cmd.macOffset.toNat
  let sizes := mvCesaFragSizeFind frags sa cmd cryptoOffset macOffset (bothBufSize - req.fixOffset)
  let q := { q with
    largeInProc := true
    frags
    keys := (mvCesaCacheSramUpdate cmd.sid q.keys).2 }
  let q := q.setReq p { req with chanId := 0, state := .process, fragMode := .middle }
  let ranges : DescRanges :=
    { cryptoOffset := cryptoOffset + req.fixOffset
      ivOffset := fragIvOffset sa cmd sizes.copySize + req.fixOffset
      cryptoLength := sizes.cryptoDataSize
      macOffset := macOffset + req.fixOffset
      digestOffset := fragDigestOffset sa cmd sizes.copySize + req.fixOffset
      macLength := sizes.macDataSize
      macTotalLen := 0 }
  q.startFragment p (q.keys.sad cmd.sid) .first sizes ranges req.fixOffset

/-- The last fragments by software in `mvCesaFragReqProcess`: the digest is
completed by `mvCesaFragAuthComplete` and the request is ready without the engine. -/
def fragTerminate (p : ℕ) (digestOffset : ℤ) (q : Queue) : Queue :=
  let req := q.reqs p
  let q := q.setReq p { req with chanId := 0, fragMode := .last }
  let q := q.note p (q.keys.sad req.cmd.sid) none
  { q with
    frags := { q.frags with newDigestOffset := digestOffset }
    chanReadyMap := Function.update q.chanReadyMap 0 true }

/-- The last fragment by the engine in `mvCesaFragReqProcess`. The size of a part
that the operation lacks is not set in the source. -/
def fragLast (p : ℕ) (digestOffset : ℤ) (q : Queue) : Queue :=
  let req := q.reqs p
  let cmd := req.cmd
  let sa := q.keys.sad cmd.sid
  let auth := operationOf sa.config ≠ cryptoOnly
  let crypto := operationOf sa.config ≠ macOnly
  let sizes : FragSizes :=
    { copySize := cmd.size - q.frags.bufOffset
      cryptoDataSize := if crypto then cmd.cryptoLength.toNat - q.frags.cryptoSize else 0
      macDataSize := if auth then cmd.macLength.toNat - q.frags.macSize else 0 }
  let ranges : DescRanges :=
    { cryptoOffset := 0
      ivOffset := 0
      cryptoLength := sizes.cryptoDataSize
      macOffset := 0
      digestOffset := if auth then digestOffset else 0
      macLength := sizes.macDataSize
      macTotalLen := if auth then cmd.macLength.toNat else 0 }
  let q := q.setReq p { req with chanId := 0, fragMode := .last }
  let q := if auth then { q with frags := { q.frags with newDigestOffset := digestOffset } } else q
  q.startFragment p sa .last sizes ranges 0

/-- A middle fragment in `mvCesaFragReqProcess`. -/
def fragMiddle (p : ℕ) (q : Queue) : Queue :=
  let req := q.reqs p
  let cmd := req.cmd
  let sa := q.keys.sad cmd.sid
  let sizes := mvCesaFragSizeFind q.frags sa cmd 0 0 bothBufSize
  let ranges : DescRanges :=
    { cryptoOffset := 0
      ivOffset := 0
      cryptoLength := sizes.cryptoDataSize
      macOffset := 0
      digestOffset := 0
      macLength := sizes.macDataSize
      macTotalLen := 0 }
  let q := q.setReq p { req with chanId := 0 }
  q.startFragment p sa .middle sizes ranges 0

/-- `mvCesaFragReqProcess`. The size of the rest is compared as an unsigned number. -/
def mvCesaFragReqProcess (p : ℕ) (q : Queue) : Status × Queue :=
  let req := q.reqs p
  let cmd := req.cmd
  let sa := q.keys.sad cmd.sid
  let size := cmd.size - q.frags.bufOffset
  if req.fragMode = .first then (.ok, fragFirst p q)
  else if 0 ≤ size ∧ size ≤ bothBufSize then
    let digestOffset :=
      if (cmd.digestOffset.toNat : ℤ) < q.frags.bufOffset then sramTempDigest
      else cmd.digestOffset.toNat - q.frags.bufOffset
    if operationOf sa.config ≠ cryptoOnly ∧ (q.is5182 ∨ cmd.macLength.toNat ≥ 2 ^ 14) then
      (.terminate, fragTerminate p digestOffset q)
    else (.ok, fragLast p digestOffset q)
  else if q.is5182 ∧ (macModeOf sa.config = macMd5 ∨ macModeOf sa.config = macSha1) then
    (.terminate, fragTerminate p sramTempDigest q)
  else (.ok, fragMiddle p q)

/-- The memory for a command in counter mode: what is in that for the command of the
key stream, and whether there is any for the key stream itself. -/
structure CtrMemory where
  fresh : Command
  keyStream : Bool
  deriving DecidableEq

/-- `mvCesaCtrModeInit`: source and destination are one multi-buffer. -/
def mvCesaCtrModeInit (fresh : Command) : Command := { fresh with dst := fresh.src }

/-- The size of the key stream, as a `MV_U16` holds it. -/
def ctrSize (cmd : Command) : UInt16 := UInt16.ofNat ((cmd.cryptoLength.toNat + 15) / 16 * 16)

/-- The fields that `mvCesaCtrModePrepare` sets in the command of the key stream. None
is set when `mvOsIoCachedMalloc` has no memory for the key stream. -/
def mvCesaCtrModePrepare (keyStream : Bool) (ctrCmd cmd : Command) : Status × Command :=
  if keyStream = false then (.outOfCpuMem, ctrCmd)
  else
    (.ok, { ctrCmd with
      pReqPrv := cmd.pReqPrv
      sessionId := cmd.sessionId
      src := ⟨ctrCmd.src.ptr, ctrSize cmd⟩
      dst := ⟨ctrCmd.src.ptr, ctrSize cmd⟩
      cryptoOffset := 0
      cryptoLength := ctrSize cmd })

/-- The body of the loop of `mvCesaAction` for a channel that is ready: start the
request `p`. -/
def actionStart (c : Fin 2) (p : ℕ) (q : Queue) : ℕ × Queue :=
  if (q.reqs p).fragMode = .none then
    let q := (mvCesaReqProcess c p q).2
    (q.reqNext p, q)
  else
    let q := (mvCesaFragReqProcess p q).2
    (if (q.reqs p).fragMode = .last then q.reqNext p else p, q)

/-- The loop of `mvCesaAction` over the channels, from the request `p` on. -/
def actionChans : List (Fin 2) → ℕ → Queue → ℕ × Queue
  | [], p, q => (p, q)
  | c :: cs, p, q =>
    if p = q.reqEmpty ∨ q.largeInProc then (p, q)
    else if (q.reqs p).cmd.Large ∧ q.reqProcess ≠ q.reqReady then (p, q)
    else if (q.chan c).state = .ready then
      actionChans cs (actionStart c p q).1 (actionStart c p q).2
    else actionChans cs p q

/-- The fragment mode of a new request of the session entry `sa`, or the status it
is refused with. -/
def fragModeOf (is5182 : Bool) (sa : SA) (cmd : Command) : Except Status FragMode :=
  if cmd.size ≤ bothBufSize then .ok .none
  else
    let status := mvCesaFragParamCheck is5182 sa cmd
    if status ≠ .ok then .error status else .ok .first

/-- The end of `mvCesaAction`: put a command that passed the checks into the queue
and start what can be started. -/
def Queue.enqueue (q : Queue) (cmd : Command) (sa : SA) (fragMode : FragMode) : Queue :=
  let q' := q.setReq q.reqEmpty
    { q.reqs q.reqEmpty with cmd, fragMode, state := .pending, accepted := sa }
  { q' with reqEmpty := q.reqNext q.reqEmpty, resources := q.resources - 1 }

/-- The part of `mvCesaAction` after the parameter checks. -/
def actionQueue (cmd : Command) (sa : SA) (q : Queue) : Status × Queue :=
  match fragModeOf q.is5182 sa cmd with
  | .error status => (status, q)
  | .ok fragMode =>
    let q := q.enqueue cmd sa fragMode
    let (p, q) := actionChans [0, 1] q.reqProcess q
    let q := { q with reqProcess := p }
    (if q.resources = 0 then .noMore else .ok, q)

/-- `mvCesaAction`. The memory for the command of a key stream is an input. -/
def mvCesaAction (cmd : Command) (ctrMemory : Option CtrMemory) (q : Queue) : Status × Queue :=
  let sa := q.keys.sad cmd.sid
  if q.resources = 0 then (.noResource, q)
  else if cmd.sid ≥ q.keys.maxSA ∨ ¬ sa.valid then (.badParam, q)
  else if sa.ctrMode then
    if operationOf sa.config ≠ cryptoOnly then (.notAllowed, q)
    else
      let req := q.reqs q.reqEmpty
      match ctrMemory with
      | none => (.outOfCpuMem, q.setReq q.reqEmpty { req with orgCmd := some cmd })
      | some memory =>
        -- the status of `mvCesaCtrModePrepare` is not looked at
        let ctrCmd := (mvCesaCtrModePrepare memory.keyStream (mvCesaCtrModeInit memory.fresh) cmd).2
        let q := q.setReq q.reqEmpty { req with orgCmd := some cmd, fixOffset := 0 }
        actionQueue ctrCmd sa q
  else
    let status := mvCesaParamCheck sa cmd
    if status ≠ .ok then (status, q) else actionQueue cmd sa q

/-- `MV_CESA_RESULT`. -/
structure Result where
  pReqPrv : ℕ
  sessionId : UInt16
  retCode : Status
  deriving DecidableEq

/-- Take the request at the head of the queue out of it. -/
def Queue.retire (q : Queue) : Queue :=
  let p := q.reqReady
  let req := q.reqs p
  let sa := q.keys.sad req.cmd.sid
  let q := q.note p sa none
  let q := q.setReq p
    { req with state := .idle, orgCmd := if sa.ctrMode then none else req.orgCmd }
  { q with
    largeInProc := false
    reqReady := q.reqNext p
    resources := q.resources + 1 }

/-- Take the report of a channel and mark the channel as ready. -/
def Queue.finishChan (q : Queue) (c : Fin 2) : Queue :=
  { q with chanReadyMap := Function.update q.chanReadyMap c false }.setChanState c .ready

/-- The second half of `mvCesaReadyGet`: continue the fragmented request, or start
the next request on the channel `c` that became free. -/
def readyNext (c : Fin 2) (readyStatus : Status) (q : Queue) : Status × Queue :=
  let p := q.reqProcess
  if (q.reqs p).state = .process then
    let (status, q) := mvCesaFragReqProcess p q
    let q := if status ≠ .ok ∧ status ≠ .terminate then
        q.setReq p { q.reqs p with fragMode := .last }
      else q
    let readyStatus :=
      if status = .ok then if readyStatus = .notReady then .busy else readyStatus
      else if status = .terminate then .terminate
      else readyStatus
    (readyStatus, if (q.reqs p).fragMode = .last then { q with reqProcess := q.reqNext p } else q)
  else if p ≠ q.reqEmpty then
    if (q.reqs p).cmd.Large then
      if p = q.reqReady then
        if (q.reqs p).fragMode ≠ .none then
          let q := (mvCesaFragReqProcess p q).2
          (readyStatus,
            if (q.reqs p).fragMode = .last then { q with reqProcess := q.reqNext p } else q)
        else
          let q := (mvCesaReqProcess 0 p q).2
          (readyStatus, { q with reqProcess := q.reqNext p })
      else (readyStatus, q)
    else
      let q := (mvCesaReqProcess c p q).2
      (readyStatus, { q with reqProcess := q.reqNext p })
  else (readyStatus, q)

/-- The result of the request at the head of the queue. Whether the digest in the
data differs from the computed one is an input. -/
def readyResult (digestErr : Bool) (q : Queue) : Result :=
  let cmd := (q.reqs q.reqReady).cmd
  let sa := q.keys.sad cmd.sid
  { pReqPrv := cmd.pReqPrv
    sessionId := cmd.sessionId
    retCode := if operationOf sa.config ≠ cryptoOnly ∧ directionOf sa.config = dirDecode ∧ digestErr
      then .fail else .ok }

/-- The part of `mvCesaReadyGet` after the finished channels were noted. -/
def readyHead (digestErr : Bool) (q : Queue) : Status × Option Result × Queue :=
  let req := q.reqs q.reqReady
  if q.reqReady = q.reqProcess ∧ req.state ≠ .process then (.empty, none, q)
  else
    let c := req.chanId
    if q.chanReadyMap c = false then (.notReady, none, q)
    else if (q.chan c).active then (.notReady, none, q)
    else
      let result := readyResult digestErr q
      let q := q.finishChan c
      if req.fragMode = .none ∨ req.fragMode = .last then
        let (status, q) := readyNext c .ok q.retire
        (status, some result, q)
      else
        let (status, q) := readyNext c .notReady q
        (status, none, q)

/-- `mvCesaReadyGet`. The result is meant only with `MV_OK`. -/
def mvCesaReadyGet (chanMap : Fin 2 → Bool) (digestErr : Bool) (q : Queue) :
    Status × Option Result × Queue :=
  readyHead digestErr { q with chanReadyMap := fun c => q.chanReadyMap c || chanMap c }

/-- What happens to the driver: calls of its functions, and the engine reporting a
channel done. -/
inductive QueueEvent
  | sessionOpen (session : OpenSession)
  | sessionClose (sid : ℕ)
  | action (cmd : Command) (ctrMemory : Option CtrMemory)
  | readyGet (chanMap : Fin 2 → Bool) (digestErr : Bool)
  | hwDone (c : Fin 2)

/-- The answers to the events. -/
inductive QueueAnswer
  | opened (status : Status) (sid : ℕ)
  | closed (status : Status)
  | acted (status : Status)
  | ready (status : Status) (result : Option Result)
  | hwDone

/-- One event. Only a started channel reports done, and `mvCesaReadyGet` is given
channels that have reported. -/
def queueStep (env : OpenEnv) (q : Queue) : QueueEvent → Option (QueueAnswer × Queue)
  | .sessionOpen session =>
    let (status, sid, keys) := mvCesaSessionOpen env session q.keys
    some (.opened status sid, { q with keys })
  | .sessionClose sid =>
    let (status, keys) := mvCesaSessionClose sid q.keys
    some (.closed status, { q with keys })
  | .action cmd ctrMemory =>
    let (status, q') := mvCesaAction cmd ctrMemory q
    some (.acted status, q')
  | .readyGet chanMap digestErr =>
    if ∀ c, chanMap c = true → (q.chan c).done = true then
      let q := { q with chan := fun c => { q.chan c with done := (q.chan c).done && !chanMap c } }
      let (status, result, q') := mvCesaReadyGet chanMap digestErr q
      some (.ready status result, q')
    else none
  | .hwDone c =>
    if (q.chan c).active then
      some (.hwDone, { q with
        chan := Function.update q.chan c { q.chan c with active := false, done := true } })
    else none

end Mv88fxx81.Cesa
