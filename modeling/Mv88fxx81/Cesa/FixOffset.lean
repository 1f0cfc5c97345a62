import Mv88fxx81.Cesa.IdmaCopy
import Mv88fxx81.Cesa.Sram

/-!
# The shift of a request in the SRAM

The data of a request can be shifted in the buffer of its channel, so that the offsets in
the descriptor become multiples of 8. The shift is kept in the field `fixOffset` of the
request. `mvCesaParamCheck` computes it and does not store it, so that it is zero in every
request of every run.
-/

namespace Mv88fxx81.Cesa

open TransitionSystem

/-- No request is shifted. -/
def Queue.Unshifted (q : Queue) : Prop := ∀ i, (q.reqs i).fixOffset = 0

section Unshifted

variable {q q' : Queue} {p : ℕ} {req : Req} {c : Fin 2}

/-- Writing a request that is not shifted. -/
theorem Queue.Unshifted.update (hq : q.Unshifted) (hreqs : q'.reqs = Function.update q.reqs p req)
    (hreq : req.fixOffset = 0) : q'.Unshifted := by
  intro i
  rw [hreqs]
  by_cases hi : i = p
  · rw [hi, Function.update_self, hreq]
  · rw [Function.update_of_ne hi, hq i]

/-- Changes of other parts of the state. -/
theorem Queue.Unshifted.congr (hq : q.Unshifted) (hreqs : q'.reqs = q.reqs) : q'.Unshifted := by
  intro i
  rw [hreqs, hq i]

theorem mvCesaReqProcess_reqs :
    (mvCesaReqProcess c p q).2.reqs =
      Function.update q.reqs p { q.reqs p with chanId := c, state := .process } := by
  unfold mvCesaReqProcess
  dsimp only
  split
  · split <;> rfl
  · split
    · split <;> rfl
    · split <;> rfl

theorem mvCesaReqProcess_unshifted (hq : q.Unshifted) : (mvCesaReqProcess c p q).2.Unshifted :=
  hq.update mvCesaReqProcess_reqs (hq p)

theorem mvCesaFragReqProcess_unshifted (hq : q.Unshifted) :
    (mvCesaFragReqProcess p q).2.Unshifted := by
  by_cases hmode : (q.reqs p).fragMode = .first
  · rw [mvCesaFragReqProcess_first hmode]
    exact hq.update (fragFirst_started p q).1.reqs (hq p)
  obtain hcase | ⟨digestOffset, hcase⟩ | ⟨digestOffset, hcase⟩ := mvCesaFragReqProcess_cases hmode
  · rw [hcase]
    exact hq.update (fragMiddle_started p q).1.reqs (hq p)
  · rw [hcase]
    exact hq.update (fragLast_started p digestOffset q).1.reqs (hq p)
  · rw [hcase]
    have hreqs : (fragTerminate p digestOffset q).reqs = Function.update q.reqs p
        { q.reqs p with chanId := 0, fragMode := .last } := rfl
    exact hq.update hreqs (hq p)

theorem actionChans_unshifted (cs : List (Fin 2)) (hq : q.Unshifted) :
    (actionChans cs p q).2.Unshifted := by
  induction cs generalizing p q with
  | nil => exact hq
  | cons c cs ih =>
    have hstart : (actionStart c p q).2.Unshifted := by
      unfold actionStart
      split
      · exact mvCesaReqProcess_unshifted hq
      · exact mvCesaFragReqProcess_unshifted hq
    rw [actionChans]
    split
    · exact hq
    · split
      · exact hq
      · split
        · exact ih hstart
        · exact ih hq

/-- A new request keeps the shift that its slot had. -/
theorem actionQueue_unshifted (cmd : Command) (sa : SA) (hq : q.Unshifted) :
    (actionQueue cmd sa q).2.Unshifted := by
  unfold actionQueue
  split
  · exact hq
  · have henqueue : ∀ fragMode, (q.enqueue cmd sa fragMode).Unshifted := fun fragMode => by
      refine hq.update rfl ?_
      exact hq q.reqEmpty
    exact (actionChans_unshifted [0, 1] (henqueue _)).congr rfl

theorem mvCesaAction_unshifted (cmd : Command) (ctrMemory : Option CtrMemory) (hq : q.Unshifted) :
    (mvCesaAction cmd ctrMemory q).2.Unshifted := by
  unfold mvCesaAction
  dsimp only
  split
  · exact hq
  · split
    · exact hq
    · split
      · split
        · exact hq
        · split
          · refine hq.update rfl ?_
            exact hq q.reqEmpty
          · refine actionQueue_unshifted _ _ ?_
            exact hq.update rfl rfl
      · split
        · exact hq
        · exact actionQueue_unshifted _ _ hq

theorem readyNext_unshifted {readyStatus : Status} (hq : q.Unshifted) :
    (readyNext c readyStatus q).2.Unshifted := by
  have hfrag : ∀ p, (mvCesaFragReqProcess p q).2.Unshifted :=
    fun p => mvCesaFragReqProcess_unshifted hq
  have hreq : ∀ c p, (mvCesaReqProcess c p q).2.Unshifted :=
    fun c p => mvCesaReqProcess_unshifted hq
  unfold readyNext
  dsimp only
  split
  · obtain ⟨status, q₁, hprocess⟩ :
        ∃ status q₁, mvCesaFragReqProcess q.reqProcess q = (status, q₁) := ⟨_, _, rfl⟩
    have hq₁ := hfrag q.reqProcess
    rw [hprocess] at hq₁ ⊢
    dsimp only at hq₁ ⊢
    have hlast : (q₁.setReq q.reqProcess
        { q₁.reqs q.reqProcess with fragMode := .last }).Unshifted :=
      hq₁.update rfl (hq₁ q.reqProcess)
    have hnext : ∀ q₂ : Queue, q₂.Unshifted →
        (if (q₂.reqs q.reqProcess).fragMode = .last then
          { q₂ with reqProcess := q₂.reqNext q.reqProcess } else q₂).Unshifted := by
      intro q₂ hq₂
      split
      · exact hq₂.congr rfl
      · exact hq₂
    refine hnext _ ?_
    split
    · exact hlast
    · exact hq₁
  · split
    · split
      · split
        · split
          · split
            · exact (hfrag _).congr rfl
            · exact hfrag _
          · exact (hreq _ _).congr rfl
        · exact hq
      · exact (hreq _ _).congr rfl
    · exact hq

theorem mvCesaReadyGet_unshifted (chanMap : Fin 2 → Bool) (digestErr : Bool) (hq : q.Unshifted) :
    (mvCesaReadyGet chanMap digestErr q).2.2.Unshifted := by
  have hretire : ∀ {q : Queue}, q.Unshifted → q.retire.Unshifted := fun {q} hq =>
    hq.update rfl (hq q.reqReady)
  unfold mvCesaReadyGet readyHead
  dsimp only
  split
  · exact hq.congr rfl
  · split
    · exact hq.congr rfl
    · split
      · exact hq.congr rfl
      · split
        · exact readyNext_unshifted (hretire (hq.congr rfl))
        · exact readyNext_unshifted (hq.congr rfl)

/-- No event shifts a request. -/
theorem queueStep_unshifted {env : OpenEnv} {e : QueueEvent} {o : QueueAnswer} (hq : q.Unshifted)
    (hstep : queueStep env q e = some (o, q')) : q'.Unshifted := by
  cases e with
  | sessionOpen session =>
    simp only [queueStep, Option.some.injEq, Prod.mk.injEq] at hstep
    exact hq.congr (by rw [← hstep.2])
  | sessionClose sid =>
    simp only [queueStep, Option.some.injEq, Prod.mk.injEq] at hstep
    exact hq.congr (by rw [← hstep.2])
  | action cmd ctrMemory =>
    simp only [queueStep, Option.some.injEq, Prod.mk.injEq] at hstep
    rw [← hstep.2]
    exact mvCesaAction_unshifted cmd ctrMemory hq
  | readyGet chanMap digestErr =>
    simp only [queueStep] at hstep
    split at hstep
    · simp only [Option.some.injEq, Prod.mk.injEq] at hstep
      rw [← hstep.2]
      exact mvCesaReadyGet_unshifted chanMap digestErr (hq.congr rfl)
    · cases hstep
  | hwDone c =>
    simp only [queueStep] at hstep
    split at hstep
    · simp only [Option.some.injEq, Prod.mk.injEq] at hstep
      exact hq.congr (by rw [← hstep.2])
    · cases hstep

/-- No request of any run is shifted. -/
theorem queueRun_unshifted {env : OpenEnv} {is5182 : Bool} {numOfSession queueDepth : ℕ}
    {trace : List (QueueEvent × QueueAnswer)}
    (hrun : Run (queueStep env) (fun _ _ => True) (mvCesaInit is5182 numOfSession queueDepth)
      trace q) : q.Unshifted :=
  Run.invariant (I := fun _ q => q.Unshifted) (fun _ => rfl)
    (fun _ _ _ _ _ hq _ hstep => queueStep_unshifted hq hstep) hrun

end Unshifted

/-- The offsets that the operation of a session uses: those of the authenticated data and the
digest, and those of the encrypted data and of an IV of the user. -/
def usedOffsets (sa : SA) (cmd : Command) : List ℕ :=
  (if operationOf sa.config ≠ cryptoOnly then [cmd.macOffset.toNat, cmd.digestOffset.toNat]
    else []) ++
    (if operationOf sa.config ≠ macOnly then
      cmd.cryptoOffset.toNat ::
        (if 0 < sa.cryptoIvSize ∧ cmd.ivFromUser ≠ 0 then [cmd.ivOffset.toNat] else [])
    else [])

/-- The offset from which `mvCesaParamCheck` takes the alignment that all others must have. -/
def alignmentOffset (sa : SA) (cmd : Command) : ℕ :=
  if operationOf sa.config ≠ cryptoOnly then cmd.macOffset.toNat else cmd.cryptoOffset.toNat

section Alignment

variable {sa : SA} {cmd : Command}

/-- The alignment of the authentication part. -/
theorem paramCheckAuth_some {fixOffset : ℕ} (hcheck : paramCheckAuth cmd = some fixOffset) :
    fixOffset = cmd.macOffset.toNat % 8 ∧ cmd.digestOffset.toNat % 8 = fixOffset := by
  unfold paramCheckAuth at hcheck
  dsimp only at hcheck
  split_ifs at hcheck with hmac hdigest hsame
  obtain rfl := Option.some.inj hcheck
  exact ⟨rfl, not_not.mp hsame⟩

/-- The offsets of the encryption part have the alignment found before. -/
theorem paramCheckCrypto_ok {fixOffset : Option ℕ}
    (hcheck : paramCheckCrypto sa cmd fixOffset = .ok) :
    cmd.cryptoOffset.toNat % 8 = fixOffset.getD (cmd.cryptoOffset.toNat % 8) ∧
      (0 < sa.cryptoIvSize → cmd.ivOffset.toNat % 8 =
        fixOffset.getD (cmd.cryptoOffset.toNat % 8)) := by
  unfold paramCheckCrypto at hcheck
  dsimp only at hcheck
  split_ifs at hcheck with hcrypto hlength hsame hiv hinside hivAlign hivSame
  · exact ⟨not_not.mp hsame, fun _ => not_not.mp hivSame⟩
  · exact ⟨not_not.mp hsame, fun hpos => absurd hpos hiv⟩

/-- All offsets of a command that passes the checks have the same alignment. -/
theorem mvCesaParamCheck_alignment (hcheck : mvCesaParamCheck sa cmd = .ok) :
    ∀ offset ∈ usedOffsets sa cmd, offset % 8 = alignmentOffset sa cmd % 8 := by
  unfold mvCesaParamCheck at hcheck
  unfold usedOffsets alignmentOffset
  by_cases hauth : operationOf sa.config ≠ cryptoOnly
  · rw [if_pos hauth] at hcheck
    cases hfix : paramCheckAuth cmd with
    | none => simp [hfix] at hcheck
    | some fixOffset =>
      obtain ⟨hmac, hdigest⟩ := paramCheckAuth_some hfix
      rw [hfix] at hcheck
      dsimp only at hcheck
      rw [if_pos hauth, if_pos hauth]
      by_cases hcrypto : operationOf sa.config ≠ macOnly
      · rw [if_pos hcrypto] at hcheck ⊢
        obtain ⟨hoffset, hiv⟩ := paramCheckCrypto_ok hcheck
        simp only [Option.getD_some] at hoffset hiv
        intro offset hmem
        by_cases huser : 0 < sa.cryptoIvSize ∧ cmd.ivFromUser ≠ 0
        · have := hiv huser.1
          simp only [if_pos huser, List.cons_append, List.nil_append, List.mem_cons,
            List.not_mem_nil, or_false] at hmem
          omega
        · simp only [if_neg huser, List.cons_append, List.nil_append, List.mem_cons,
            List.not_mem_nil, or_false] at hmem
          omega
      · rw [if_neg hcrypto]
        intro offset hmem
        simp only [List.append_nil, List.mem_cons, List.not_mem_nil, or_false] at hmem
        omega
  · rw [if_neg hauth] at hcheck
    have hcrypto : operationOf sa.config ≠ macOnly := by
      rw [not_not.mp hauth]
      decide
    obtain ⟨hoffset, hiv⟩ := paramCheckCrypto_ok hcheck
    simp only [Option.getD_none] at hoffset hiv
    rw [if_neg hauth, if_neg hauth, if_pos hcrypto, List.nil_append]
    intro offset hmem
    by_cases huser : 0 < sa.cryptoIvSize ∧ cmd.ivFromUser ≠ 0
    · have := hiv huser.1
      simp only [if_pos huser, List.mem_cons, List.not_mem_nil, or_false] at hmem
      omega
    · simp only [if_neg huser, List.mem_cons, List.not_mem_nil, or_false] at hmem
      omega

/-- The first of the offsets is the one that gives the alignment. -/
theorem alignmentOffset_mem (sa : SA) (cmd : Command) :
    alignmentOffset sa cmd ∈ usedOffsets sa cmd := by
  unfold usedOffsets alignmentOffset
  by_cases hauth : operationOf sa.config ≠ cryptoOnly
  · simp [hauth]
  · have hcrypto : operationOf sa.config ≠ macOnly := by
      rw [not_not.mp hauth]
      decide
    rw [if_neg hauth, if_neg hauth, if_pos hcrypto]
    simp

end Alignment

/-- The buffer of a request in the SRAM, as a number of bytes. A large request has the
buffers of both channels. -/
def sramBufSize (cmd : Command) : ℕ := if cmd.Large then bothBufSize else maxBufSize

/-- The channel `ch` is given the data of the command with a shift: the copies and the
descriptor name the shifted places, and the bytes of the source are put there in their order,
all of them inside of the buffer. -/
structure PlacesData (c : Fin 2) (cmd : Command) (fixOffset : ℕ) (ch : Chan) : Prop where
  copyIn : ch.copyIn = ⟨sramBufOffset c + fixOffset, cmd.size⟩
  copyOut : ch.copyOut = ⟨sramBufOffset c + fixOffset, cmd.dst.mbufSize.toNat⟩
  inside : fixOffset + cmd.size ≤ sramBufSize cmd
  bytes : ∀ frags pIdmaDesc, (bufSizes frags).sum = cmd.size → ∃ prepared,
    mvCesaIdmaCopyPrepare frags (ch.copyIn.offset).toNat pIdmaDesc false 0 cmd.size =
        some prepared ∧
      prepared.descs.flatMap (DmaDesc.mbufBytes false) = mbufBytes frags ∧
      prepared.descs.flatMap (DmaDesc.sramBytes false) =
        List.range' (sramBufOffset c + fixOffset).toNat cmd.size
  crypto : operationOf ch.desc.config ≠ macOnly → cmd.cryptoOffset.toNat ≤ cmd.size →
    (ch.desc.cryptoSrcOffset.toNat : ℤ) = sramBufOffset c + fixOffset + cmd.cryptoOffset.toNat ∧
      ch.desc.cryptoDstOffset = ch.desc.cryptoSrcOffset
  iv : operationOf ch.desc.config ≠ macOnly → cmd.ivOffset.toNat ≤ cmd.size →
    (ch.desc.cryptoIvBufOffset.toNat : ℤ) = sramBufOffset c + fixOffset + cmd.ivOffset.toNat
  mac : operationOf ch.desc.config ≠ cryptoOnly → cmd.macOffset.toNat ≤ cmd.size →
    (ch.desc.macSrcOffset.toNat : ℤ) = sramBufOffset c + fixOffset + cmd.macOffset.toNat
  digest : operationOf ch.desc.config ≠ cryptoOnly → cmd.digestOffset.toNat ≤ cmd.size →
    (ch.desc.macDigestOffset.toNat : ℤ) = sramBufOffset c + fixOffset + cmd.digestOffset.toNat

section Placement

variable {q : Queue} {c : Fin 2} {p : ℕ}

/-- The ranges in a descriptor. -/
theorem mvCesaSramDescrBuild_ranges (desc : Desc) (c : Fin 2) (cacheIdx : ℤ) (config : UInt32)
    (r : DescRanges) :
    let built := mvCesaSramDescrBuild desc c cacheIdx config r
    built.config = config ∧
      (operationOf config ≠ macOnly →
        built.cryptoSrcOffset = UInt16.ofInt (sramBufOffset c + r.cryptoOffset) ∧
        built.cryptoDstOffset = UInt16.ofInt (sramBufOffset c + r.cryptoOffset) ∧
        built.cryptoDataLen = UInt16.ofInt r.cryptoLength ∧
        built.cryptoIvBufOffset = UInt16.ofInt (sramBufOffset c + r.ivOffset)) ∧
      (operationOf config ≠ cryptoOnly →
        built.macSrcOffset = UInt16.ofInt (sramBufOffset c + r.macOffset) ∧
        built.macDataLen = UInt16.ofInt r.macLength ∧
        built.macDigestOffset = UInt16.ofInt (sramBufOffset c + r.digestOffset)) := by
  unfold mvCesaSramDescrBuild
  dsimp only
  refine ⟨?_, fun hcrypto => ?_, fun hmac => ?_⟩
  · split_ifs <;> rfl
  · rw [if_pos hcrypto]
    split_ifs <;> exact ⟨rfl, rfl, rfl, rfl⟩
  · rw [if_pos hmac]
    exact ⟨rfl, rfl, rfl⟩

/-- The place of an offset inside of the data, as the descriptor gives it. -/
theorem descOffset_toNat {offset fixOffset : ℕ} (hfix : fixOffset = 0)
    (hoffset : offset ≤ bothBufSize) :
    ((UInt16.ofInt (sramBufOffset c + ((offset : ℤ) + fixOffset))).toNat : ℤ) =
      sramBufOffset c + fixOffset + offset := by
  have hbase : 0 ≤ sramBufOffset c ∧ sramBufOffset c ≤ 1600 := by
    simp only [sramBufOffset, maxBufSize]
    omega
  simp only [bothBufSize] at hoffset
  rw [toNat_ofInt (by omega) (by omega)]
  omega

/-- The ranges that `mvCesaCmdProcess` hands to `mvCesaSramDescrBuild`. -/
def cmdRanges (cmd : Command) (fixOffset : ℕ) : DescRanges :=
  { cryptoOffset := cmd.cryptoOffset.toNat + fixOffset
    ivOffset := cmd.ivOffset.toNat + fixOffset
    cryptoLength := cmd.cryptoLength.toNat
    macOffset := cmd.macOffset.toNat + fixOffset
    digestOffset := cmd.digestOffset.toNat + fixOffset
    macLength := cmd.macLength.toNat
    macTotalLen := cmd.macLength.toNat }

/-- The channel after `mvCesaCmdProcess`. -/
theorem mvCesaCmdProcess_chan :
    ∃ sa : SA,
      ((mvCesaCmdProcess c p q).2.chan c).copyIn =
        ⟨sramBufOffset c + (q.reqs p).fixOffset, (q.reqs p).cmd.size⟩ ∧
      ((mvCesaCmdProcess c p q).2.chan c).copyOut =
        ⟨sramBufOffset c + (q.reqs p).fixOffset, (q.reqs p).cmd.dst.mbufSize.toNat⟩ ∧
      ((mvCesaCmdProcess c p q).2.chan c).desc = mvCesaSramDescrBuild (q.chan c).desc c
        sa.cacheIdx sa.config (cmdRanges (q.reqs p).cmd (q.reqs p).fixOffset) := by
  refine ⟨(mvCesaCacheSramUpdate (q.reqs p).cmd.sid q.keys).2.sad (q.reqs p).cmd.sid, ?_, ?_, ?_⟩
  all_goals simp [mvCesaCmdProcess, Queue.startEngine, Queue.note, cmdRanges]

/-- A request that is not shifted has its data placed in its buffer when it is started. -/
theorem mvCesaCmdProcess_places (hfix : (q.reqs p).fixOffset = 0)
    (hsize : (q.reqs p).cmd.size ≤ bothBufSize) :
    PlacesData c (q.reqs p).cmd (q.reqs p).fixOffset ((mvCesaCmdProcess c p q).2.chan c) := by
  obtain ⟨sa, hin, hout, hdesc⟩ := mvCesaCmdProcess_chan (q := q) (c := c) (p := p)
  obtain ⟨hconfig, hcrypto, hmac⟩ := mvCesaSramDescrBuild_ranges (q.chan c).desc c sa.cacheIdx
    sa.config (cmdRanges (q.reqs p).cmd (q.reqs p).fixOffset)
  rw [← hdesc] at hconfig hcrypto hmac
  rw [← hconfig] at hcrypto hmac
  refine ⟨hin, hout, ?_, fun frags pIdmaDesc hsum => ?_, fun hop hle => ?_, fun hop hle => ?_,
    fun hop hle => ?_, fun hop hle => ?_⟩
  · rw [hfix, Nat.zero_add]
    unfold sramBufSize
    split_ifs with hlarge
    · exact hsize
    · exact Nat.le_of_not_lt hlarge
  · obtain ⟨prepared, hprepare, -, ⟨hmbuf, hsram⟩, -⟩ := @mvCesaIdmaCopyPrepare_spec frags
      (sramBufOffset c + (q.reqs p).fixOffset).toNat pIdmaDesc 0 (q.reqs p).cmd.size false
      (by omega)
    have hall : (mbufBytes frags).length = (q.reqs p).cmd.size := by
      rw [← hsum, mbufBytes, List.length_flatMap, bufSizes]
      congr 1
      exact List.map_congr_left fun f _ => List.length_range'
    rw [List.drop_zero, List.take_of_length_le (Nat.le_of_eq hall)] at hmbuf
    rw [hin]
    exact ⟨prepared, hprepare, hmbuf, hsram⟩
  · obtain ⟨hsrc, hdst, -⟩ := hcrypto hop
    rw [hdst, hsrc]
    exact ⟨descOffset_toNat hfix (by omega), rfl⟩
  · rw [(hcrypto hop).2.2.2]
    exact descOffset_toNat hfix (by omega)
  · rw [(hmac hop).1]
    exact descOffset_toNat hfix (by omega)
  · rw [(hmac hop).2.2]
    exact descOffset_toNat hfix (by omega)

end Placement

/-- A command whose offset is not a multiple of 8 is accepted, and its request is not shifted. -/
theorem queueRun_misaligned :
    ∃ trace q, Run (queueStep plainEnv) (fun _ _ => True) (mvCesaInit false 4 2) trace q ∧
      (q.reqs 0).state = .process ∧ mvCesaParamCheck (q.reqs 0).accepted (q.reqs 0).cmd = .ok ∧
      (q.reqs 0).cmd.cryptoOffset = 4 ∧ (q.reqs 0).fixOffset = 0 := by
  have hrun : Run (queueStep plainEnv) (fun _ _ => True) (mvCesaInit false 4 2) _ _ :=
    Run.of_exec [.sessionOpen (desSession 1),
      .action { plainCommand 1 64 with cryptoOffset := 4, cryptoLength := 8 } none] rfl
  exact ⟨_, _, hrun, rfl, by decide, rfl, rfl⟩

/-- In every run, the shift of a request whose command passes the checks makes all offsets that
the operation uses multiples of 8 exactly when they are multiples of 8 without it. The data is
placed in the buffer of the channel in either case. -/
theorem queueRun_aligned_iff {env : OpenEnv} {is5182 : Bool} {numOfSession queueDepth : ℕ}
    {trace : List (QueueEvent × QueueAnswer)} {q : Queue}
    (hrun : Run (queueStep env) (fun _ _ => True) (mvCesaInit is5182 numOfSession queueDepth)
      trace q) {p : ℕ} {sa : SA} (hcheck : mvCesaParamCheck sa (q.reqs p).cmd = .ok) :
    ((∀ offset ∈ usedOffsets sa (q.reqs p).cmd, 8 ∣ offset + (q.reqs p).fixOffset) ∧
        ∀ c, ((q.reqs p).cmd.Large → c = 0) → (q.reqs p).cmd.size ≤ bothBufSize →
          PlacesData c (q.reqs p).cmd (q.reqs p).fixOffset ((mvCesaCmdProcess c p q).2.chan c)) ↔
      8 ∣ alignmentOffset sa (q.reqs p).cmd := by
  have hfix := queueRun_unshifted hrun p
  constructor
  · rintro ⟨hall, -⟩
    have hfirst := hall _ (alignmentOffset_mem sa (q.reqs p).cmd)
    rwa [hfix, Nat.add_zero] at hfirst
  · intro haligned
    refine ⟨fun offset hmem => ?_, fun c _ hsize => mvCesaCmdProcess_places hfix hsize⟩
    have hsame := mvCesaParamCheck_alignment hcheck offset hmem
    omega

/-- A command with all its offsets at multiples of 8. -/
theorem queueRun_aligned_iff_plain :
    ∃ trace q, Run (queueStep plainEnv) (fun _ _ => True) (mvCesaInit false 4 2) trace q ∧
      mvCesaParamCheck (q.reqs 0).accepted (q.reqs 0).cmd = .ok ∧
      ∀ offset ∈ usedOffsets (q.reqs 0).accepted (q.reqs 0).cmd,
        8 ∣ offset + (q.reqs 0).fixOffset := by
  have hrun : Run (queueStep plainEnv) (fun _ _ => True) (mvCesaInit false 4 2) _ _ :=
    Run.of_exec [.sessionOpen (desSession 1), .action (plainCommand 1 64) none] rfl
  exact ⟨_, _, hrun, by decide,
    ((queueRun_aligned_iff (p := 0) hrun (by decide)).mpr (by decide)).1⟩

end Mv88fxx81.Cesa
