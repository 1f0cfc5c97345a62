import Mathlib.Data.List.Count
import Mv88fxx81.Cesa.Binding

/-!
# The driver of the crypto framework

The framework hands a request to `cesa_ocf_process`, which puts one command into the
queue of the engine, or two if the engine cannot do encryption and authentication in
one. Each command lives in a structure of its own that `cesa_callback` frees when the
command is handed back. The driver stops taking requests when few slots are free.
-/

namespace Mv88fxx81.Cesa

open TransitionSystem

/-- `CESA_Q_SIZE`. -/
def cesaQSize : ℕ := 32

/-- `struct cesa_ocf_data`: the sessions of the engine for a session of the
framework. -/
structure OcfData where
  sidEncrypt : UInt16
  sidDecrypt : UInt16
  fragWaEncrypt : UInt16
  fragWaDecrypt : UInt16
  fragWaAuth : UInt16
  encryptTnAuth : Bool
  deriving DecidableEq

/-- `struct cesa_ocf_process`: the request it belongs to, whether its completion is
reported, and the structure that holds the buffer list its command points to. -/
structure OcfProcess where
  crp : ℕ
  needCb : Bool
  mbuf : ℕ
  deriving DecidableEq

/-- What `cesa_ocf_process` takes from a `struct cryptop`: its session, the command
built from its descriptors, and which operations these ask for. A request whose
descriptors or buffers are not supported is not well formed. -/
structure Cryptop where
  crp : ℕ
  data : OcfData
  wellFormed : Bool
  encrypt : Bool
  decrypt : Bool
  auth : Bool
  cmd : Command
  deriving DecidableEq

/-- The state of the driver: the queue of the engine, the structures in use by their
addresses, the flag `cesa_block`, the requests reported with `crypto_done`, and
whether a freed structure was read. -/
structure Ocf where
  hal : Queue
  heap : ℕ → Option OcfProcess
  block : Bool
  done : List ℕ
  fault : Bool

/-- The values that `cesa_ocf_process` returns. -/
inductive OcfReturn
  | ok
  | einval
  | erestart
  deriving DecidableEq

/-- The state after `cesa_ocf_init`. -/
def cesaOcfInit (is5182 : Bool) (numOfSession : ℕ) : Ocf :=
  { hal := mvCesaInit is5182 numOfSession cesaQSize
    heap := fun _ => none
    block := false
    done := []
    fault := false }

/-- The command of a request in the structure at `addr`. -/
def Cryptop.command (crypt : Cryptop) (addr : ℕ) : Command :=
  { crypt.cmd with
    pReqPrv := addr
    sessionId := if crypt.decrypt then crypt.data.sidDecrypt else crypt.data.sidEncrypt
    src := ⟨addr, crypt.cmd.src.mbufSize⟩
    dst := ⟨addr, crypt.cmd.src.mbufSize⟩ }

/-- The sessions of the first and the second command of a request that is split. -/
def Cryptop.splitSessions (crypt : Cryptop) : UInt16 × UInt16 :=
  let data := crypt.data
  if crypt.decrypt ∧ data.encryptTnAuth then (data.fragWaAuth, data.fragWaDecrypt)
  else if crypt.decrypt then (data.fragWaDecrypt, data.fragWaAuth)
  else if data.encryptTnAuth then (data.fragWaEncrypt, data.fragWaAuth)
  else (data.fragWaAuth, data.fragWaEncrypt)

/-- The first command of a request that is split, in the structure at `addrWa`. Its
buffers stay those of the structure at `addr`. -/
def Cryptop.firstCommand (crypt : Cryptop) (addr addrWa : ℕ) : Command :=
  { crypt.command addr with pReqPrv := addrWa, sessionId := crypt.splitSessions.1 }

/-- The second command of a request that is split. -/
def Cryptop.secondCommand (crypt : Cryptop) (addr : ℕ) : Command :=
  { crypt.command addr with sessionId := crypt.splitSessions.2 }

/-- The answer of `cesa_ocf_process`, with the answers of the queue to the two
commands of a request that is split. -/
structure OcfAnswer where
  ret : OcfReturn
  first : Option Status
  second : Option Status
  deriving DecidableEq

/-- The request was put into the queue. -/
def Status.Accepted (status : Status) : Prop := status = .ok ∨ status = .noMore

instance (status : Status) : Decidable status.Accepted := inferInstanceAs (Decidable (_ ∨ _))

/-- The end of `cesa_ocf_process`, for the answer of the queue to the last command:
on failure the structures are freed, so that those in use are `s.heap`; on success
they are `heap`. -/
def ocfFinish (s : Ocf) (hal : Queue) (heap : ℕ → Option OcfProcess) (status : Status) :
    OcfReturn × Ocf :=
  if status = .noResource then (.erestart, { s with hal, block := true })
  else if ¬ status.Accepted then (.einval, { s with hal })
  else (.ok, { s with hal, heap, block := s.block || hal.resources ≤ 4 })

/-- The part of `cesa_ocf_process` that splits a request, with a second structure
allocated at `addrWa` if at all. -/
def ocfSplit (crypt : Cryptop) (addr : ℕ) (addrWa : Option ℕ) (s : Ocf) : OcfAnswer × Ocf :=
  match addrWa with
  | none => (⟨.einval, none, none⟩, s)
  | some addrWa =>
    let (first, hal) := mvCesaAction (crypt.firstCommand addr addrWa) none s.hal
    if ¬ first.Accepted then (⟨.einval, some first, none⟩, { s with hal })
    else
      let (second, hal) := mvCesaAction (crypt.secondCommand addr) none hal
      let heap := Function.update s.heap addr (some ⟨crypt.crp, true, addr⟩)
      let heap := Function.update heap addrWa (some ⟨crypt.crp, false, addr⟩)
      let (ret, s) := ocfFinish s hal heap second
      (⟨ret, some first, some second⟩, s)

/-- `cesa_ocf_process`, which the framework calls with interrupts disabled. The
structures are allocated at `addr` and `addrWa`, if at all. The driver opens no session
in counter mode, so that the queue asks for no memory. -/
def cesaOcfProcess (crypt : Cryptop) (addr addrWa : Option ℕ) (s : Ocf) : OcfAnswer × Ocf :=
  if s.block then (⟨.erestart, none, none⟩, s)
  else
    match addr with
    | none => (⟨.einval, none, none⟩, s)
    | some addr =>
      if ¬ crypt.wellFormed then (⟨.einval, none, none⟩, s)
      else
        let (status, hal) := mvCesaAction (crypt.command addr) none s.hal
        if status = .notAllowed then
          if crypt.auth ∧ (crypt.encrypt ∨ crypt.decrypt) then
            ocfSplit crypt addr addrWa { s with hal }
          else (⟨.einval, none, none⟩, { s with hal })
        else
          let heap := Function.update s.heap addr (some ⟨crypt.crp, true, addr⟩)
          let (ret, s) := ocfFinish s hal heap status
          (⟨ret, none, none⟩, s)

/-- The first loop of `cesa_callback`: the requests that are ready are collected. The
list has one entry for each round, which says if the digest of the round's request
differs. -/
def callbackCollect : List Bool → (Fin 2 → Bool) → List Result → Queue →
    Option (List Result × Queue)
  | [], _, _, _ => none
  | digestErr :: rounds, readyMap, results, hal =>
    let (status, result, hal) := mvCesaReadyGet readyMap digestErr hal
    if status = .ok then
      let results := results ++ result.toList
      if results.length > 2 then if rounds = [] then some (results, hal) else none
      else callbackCollect rounds (fun _ => false) results hal
    else if status = .terminate then callbackCollect rounds (fun _ => false) results hal
    else if rounds = [] then some (results, hal)
    else none

/-- The second loop of `cesa_callback`: each result is reported and its structure is
freed. -/
def callbackReport : List Result → Ocf → Ocf
  | [], s => s
  | result :: results, s =>
    if result.pReqPrv = 0 then s
    else
      match s.heap result.pReqPrv with
      | none => { s with fault := true }
      | some process =>
        callbackReport results { s with
          block := s.block && !process.needCb
          done := if process.needCb then s.done ++ [process.crp] else s.done
          heap := Function.update s.heap result.pReqPrv none }

/-- `cesa_callback`. -/
def cesaCallback (rounds : List Bool) (readyMap : Fin 2 → Bool) (s : Ocf) : Option Ocf :=
  match callbackCollect rounds readyMap [] s.hal with
  | none => none
  | some (results, hal) => some (callbackReport results { s with hal })

/-- What happens to the driver. Sessions of the engine are opened and closed with
those of the framework. -/
inductive OcfEvent
  | sessionOpen (session : OpenSession)
  | sessionClose (sid : ℕ)
  | process (crypt : Cryptop) (addr addrWa : Option ℕ)
  | hwDone (c : Fin 2)
  | interrupt (rounds : List Bool)

/-- The channels that reported done, in the cause register or in `cesaReadyMap`. -/
def Queue.doneMap (q : Queue) (c : Fin 2) : Bool := (q.chan c).done

/-- `mvCesaChanInProcessGet`. -/
def mvCesaChanInProcessGet (q : Queue) (c : Fin 2) : Bool := (q.chan c).state = .process

/-- One event. Memory is allocated at addresses that are not in use. The interrupt
handler calls `cesa_callback` when all channels in process have reported; else the
reports stay in `cesaReadyMap`. -/
def ocfStep (env : OpenEnv) (s : Ocf) : OcfEvent → Option (Option OcfAnswer × Ocf)
  | .sessionOpen session =>
    let keys := (mvCesaSessionOpen env session s.hal.keys).2.2
    some (none, { s with hal := { s.hal with keys } })
  | .sessionClose sid =>
    let keys := (mvCesaSessionClose sid s.hal.keys).2
    some (none, { s with hal := { s.hal with keys } })
  | .process crypt addr addrWa =>
    if (∀ a ∈ addr, a ≠ 0 ∧ s.heap a = none) ∧ (∀ a ∈ addrWa, a ≠ 0 ∧ s.heap a = none) ∧
        (addr = none ∨ addr ≠ addrWa) then
      let (answer, s) := cesaOcfProcess crypt addr addrWa s
      some (some answer, s)
    else none
  | .hwDone c =>
    if (s.hal.chan c).active then
      some (none, { s with hal := { s.hal with
        chan := Function.update s.hal.chan c
          { s.hal.chan c with active := false, done := true } } })
    else none
  | .interrupt rounds =>
    if ∀ c, s.hal.doneMap c = mvCesaChanInProcessGet s.hal c then
      let hal := { s.hal with chan := fun c => { s.hal.chan c with done := false } }
      match cesaCallback rounds s.hal.doneMap { s with hal } with
      | none => none
      | some s => some (none, s)
    else if rounds = [] then some (none, s)
    else none

/-- The answer of the checks of `mvCesaAction` to a command, for a queue with a free
slot and no memory for key streams. -/
def actionCheck (is5182 : Bool) (ks : KeyStore) (cmd : Command) : Status :=
  let sa := ks.sad cmd.sid
  if cmd.sid ≥ ks.maxSA ∨ ¬ sa.valid then .badParam
  else if sa.ctrMode then if operationOf sa.config ≠ cryptoOnly then .notAllowed else .outOfCpuMem
  else
    let status := mvCesaParamCheck sa cmd
    if status ≠ .ok then status
    else
      match fragModeOf is5182 sa cmd with
      | .error status => status
      | .ok _ => .ok

/-- A command that passes the checks is accepted by a queue with a free slot; another
one is answered as the checks say. -/
theorem mvCesaAction_status (cmd : Command) (q : Queue) (hfree : q.resources ≠ 0) :
    (actionCheck q.is5182 q.keys cmd = .ok ∧ (mvCesaAction cmd none q).1.Accepted) ∨
      (actionCheck q.is5182 q.keys cmd ≠ .ok ∧
        (mvCesaAction cmd none q).1 = actionCheck q.is5182 q.keys cmd) := by
  unfold actionCheck mvCesaAction
  dsimp only
  rw [if_neg hfree]
  by_cases hopen : cmd.sid ≥ q.keys.maxSA ∨ ¬ (q.keys.sad cmd.sid).valid = true
  · rw [if_pos hopen, if_pos hopen]
    exact Or.inr ⟨by simp, rfl⟩
  rw [if_neg hopen, if_neg hopen]
  by_cases hctr : (q.keys.sad cmd.sid).ctrMode = true
  · rw [if_pos hctr, if_pos hctr]
    refine Or.inr ?_
    split_ifs <;> simp
  rw [if_neg hctr, if_neg hctr]
  by_cases hcheck : mvCesaParamCheck (q.keys.sad cmd.sid) cmd ≠ .ok
  · rw [if_pos hcheck, if_pos hcheck]
    exact Or.inr ⟨hcheck, rfl⟩
  rw [if_neg hcheck, if_neg hcheck]
  unfold actionQueue
  cases hmode : fragModeOf q.is5182 (q.keys.sad cmd.sid) cmd with
  | error status =>
    rcases fragModeOf_error hmode with rfl | rfl
    · exact Or.inr ⟨by simp, rfl⟩
    · exact Or.inr ⟨by simp, rfl⟩
  | ok fragMode =>
    refine Or.inl ⟨rfl, ?_⟩
    dsimp only
    split_ifs
    · exact Or.inr rfl
    · exact Or.inl rfl

/-- The checks do not answer as a queue without free slots does. -/
theorem actionCheck_ne_noMore (is5182 : Bool) (ks : KeyStore) (cmd : Command) :
    actionCheck is5182 ks cmd ≠ .noMore := by
  have hparam := mvCesaParamCheck_cases (ks.sad cmd.sid) cmd
  have hfrag := @fragModeOf_error is5182 (ks.sad cmd.sid) cmd
  unfold actionCheck
  grind

end Mv88fxx81.Cesa
