import Mv88fxx81.Cesa.Binding

/-!
# Exclusive use of the SRAM

Each channel has at most one request in process, and a large request is in process
alone, on channel 0. The copies of the DMA engine and the ranges in the descriptors
of two requests in process are therefore apart as long as the ranges of each short
command lie in the buffer of one channel. The driver checks the ranges of fragmented
commands only.
-/

namespace Mv88fxx81.Cesa

open TransitionSystem

/-- The byte `b` of the SRAM is in the range. -/
def Transfer.Touches (t : Transfer) (b : ℤ) : Prop := t.offset ≤ b ∧ b < t.offset + t.size

instance (t : Transfer) (b : ℤ) : Decidable (t.Touches b) := inferInstanceAs (Decidable (_ ∧ _))

/-- The range is empty or lies in the buffer of channel `c`. -/
def Transfer.Within (t : Transfer) (c : Fin 2) : Prop :=
  t.size = 0 ∨ (sramBufOffset c ≤ t.offset ∧ t.offset + t.size ≤ sramBufOffset c + maxBufSize)

/-- The bytes of an IV that the engine reads or writes next to the data: one block
of the algorithm in CBC mode. -/
def ivWidth (config : UInt32) : ℕ :=
  if cryptoModeOf config = cryptoCbc then
    if (config &&& 0x300) >>> 8 = cryptoAes then 16 else 8
  else 0

/-- The bytes of a digest that the engine writes: 12 if it is cut, else those of
the hash. -/
def digestWidth (config : UInt32) : ℕ :=
  if config &&& 0x80 ≠ 0 then 12
  else if macModeOf config = macMd5 ∨ macModeOf config = macHmacMd5 then 16
  else 20

/-- The ranges of the SRAM that the copies and the descriptor of a channel name. -/
def Chan.regions (ch : Chan) : List Transfer :=
  let config := ch.desc.config
  [ch.copyIn, ch.copyOut] ++
    (if operationOf config ≠ macOnly then
      [⟨ch.desc.cryptoSrcOffset.toNat, ch.desc.cryptoDataLen.toNat⟩,
        ⟨ch.desc.cryptoDstOffset.toNat, ch.desc.cryptoDataLen.toNat⟩,
        ⟨ch.desc.cryptoIvBufOffset.toNat, ivWidth config⟩]
    else []) ++
    (if operationOf config ≠ cryptoOnly then
      [⟨ch.desc.macSrcOffset.toNat, ch.desc.macDataLen.toNat⟩,
        ⟨ch.desc.macDigestOffset.toNat, digestWidth config⟩]
    else [])

/-- The request in slot `i` uses the byte `b` of the buffers. -/
def Queue.UsesByte (q : Queue) (i : ℕ) (b : ℤ) : Prop :=
  0 ≤ b ∧ b < bothBufSize ∧ ∃ t ∈ (q.chan (q.reqs i).chanId).regions, t.Touches b

/-- The ranges of a command, from the start of its data, for an operation given by
the configuration word. -/
def Command.ranges (cmd : Command) (config : UInt32) : List Transfer :=
  [⟨0, cmd.size⟩, ⟨0, cmd.dst.mbufSize.toNat⟩] ++
    (if operationOf config ≠ macOnly then
      [⟨cmd.cryptoOffset.toNat, cmd.cryptoLength.toNat⟩, ⟨cmd.ivOffset.toNat, ivWidth config⟩]
    else []) ++
    (if operationOf config ≠ cryptoOnly then
      [⟨cmd.macOffset.toNat, cmd.macLength.toNat⟩, ⟨cmd.digestOffset.toNat, digestWidth config⟩]
    else [])

/-- A short command has its ranges in one buffer. -/
def Command.Fits (config : UInt32) (cmd : Command) : Prop :=
  ¬ cmd.Large → ∀ t ∈ cmd.ranges config, t.size = 0 ∨ t.offset + t.size ≤ maxBufSize

instance (config : UInt32) (cmd : Command) : Decidable (cmd.Fits config) :=
  inferInstanceAs (Decidable (_ → ∀ t ∈ _, _ ∨ _))

/-- A number that fits is not changed by the conversion to 16 bits. -/
theorem toNat_ofInt {x : ℤ} (hx : 0 ≤ x) (hlt : x < 2 ^ 16) : ((UInt16.ofInt x).toNat : ℤ) = x := by
  unfold UInt16.ofInt
  rw [UInt16.toNat_ofNat', Int.emod_eq_of_lt hx hlt]
  omega

/-- The place of a range in the buffer of a channel, as the descriptor gives it. -/
theorem Transfer.within_of_fits {c : Fin 2} {offset : ℕ} {size : ℤ} (hsize : 0 ≤ size)
    (hfits : size = 0 ∨ (offset : ℤ) + size ≤ maxBufSize) :
    Transfer.Within ⟨((UInt16.ofInt (sramBufOffset c + offset)).toNat : ℤ), size⟩ c := by
  rcases hfits with hzero | hle
  · exact Or.inl hzero
  · by_cases hzero : size = 0
    · exact Or.inl hzero
    · have hbase : 0 ≤ sramBufOffset c ∧ sramBufOffset c ≤ 1600 := by
        simp only [sramBufOffset, maxBufSize]
        omega
      simp only [maxBufSize] at hle
      refine Or.inr ?_
      dsimp only
      rw [toNat_ofInt (by omega) (by omega)]
      simp only [maxBufSize]
      omega

/-- Ranges in the buffers of different channels have no byte in common. -/
theorem Transfer.Within.apart {t t' : Transfer} {c c' : Fin 2} {b : ℤ} (hne : c ≠ c')
    (hwithin : t.Within c) (hwithin' : t'.Within c') (htouch : t.Touches b) : ¬ t'.Touches b := by
  intro htouch'
  unfold Transfer.Within Transfer.Touches sramBufOffset maxBufSize at *
  have hval : c.val ≠ c'.val := fun h => hne (Fin.ext h)
  omega

/-- The commands in the queue fit the buffers, and the ranges of a short request in
process lie in the buffer of its channel. -/
structure Queue.Confined (q : Queue) : Prop where
  fixOffset : ∀ i, (q.reqs i).fixOffset = 0
  fits : ∀ i, (q.reqs i).state ≠ .idle → (q.reqs i).cmd.Fits (q.reqs i).accepted.config
  within : ∀ i, (q.reqs i).state = .process → ¬ (q.reqs i).cmd.Large →
    ∀ t ∈ (q.chan (q.reqs i).chanId).regions, t.Within (q.reqs i).chanId

/-- The commands that are admitted: short ones have their ranges in one buffer. -/
def acceptFits (sa : SA) (cmd : Command) : Prop := cmd.Fits sa.config

/-- The channel of a short request after it was started. -/
theorem mvCesaReqProcess_chan {q : Queue} {c : Fin 2} {p : ℕ} (hshort : ¬ (q.reqs p).cmd.Large) :
    ∃ sa : SA, sa = (mvCesaCacheSramUpdate (q.reqs p).cmd.sid q.keys).2.sad (q.reqs p).cmd.sid ∧
      ((mvCesaReqProcess c p q).2.chan c).copyIn =
        ⟨sramBufOffset c + (q.reqs p).fixOffset, (q.reqs p).cmd.size⟩ ∧
      ((mvCesaReqProcess c p q).2.chan c).copyOut =
        ⟨sramBufOffset c + (q.reqs p).fixOffset, (q.reqs p).cmd.dst.mbufSize.toNat⟩ ∧
      ((mvCesaReqProcess c p q).2.chan c).desc =
        mvCesaSramDescrBuild (q.chan c).desc c sa.cacheIdx sa.config
          { cryptoOffset := (q.reqs p).cmd.cryptoOffset.toNat + (q.reqs p).fixOffset
            ivOffset := (q.reqs p).cmd.ivOffset.toNat + (q.reqs p).fixOffset
            cryptoLength := (q.reqs p).cmd.cryptoLength.toNat
            macOffset := (q.reqs p).cmd.macOffset.toNat + (q.reqs p).fixOffset
            digestOffset := (q.reqs p).cmd.digestOffset.toNat + (q.reqs p).fixOffset
            macLength := (q.reqs p).cmd.macLength.toNat
            macTotalLen := (q.reqs p).cmd.macLength.toNat } := by
  refine ⟨_, rfl, ?_, ?_, ?_⟩
  all_goals
    simp [mvCesaReqProcess, mvCesaCmdProcess, hshort, Queue.setReq, Queue.setChanState,
      Queue.startEngine, Queue.note]

/-- The ranges in a descriptor lie in the buffer of the channel if those of the
command fit. -/
theorem regions_within {ch : Chan} {c : Fin 2} {cmd : Command} {config : UInt32} {desc : Desc}
    {cacheIdx macTotalLen : ℤ}
    (hin : ch.copyIn = ⟨sramBufOffset c, cmd.size⟩)
    (hout : ch.copyOut = ⟨sramBufOffset c, cmd.dst.mbufSize.toNat⟩)
    (hdesc : ch.desc = mvCesaSramDescrBuild desc c cacheIdx config
      { cryptoOffset := cmd.cryptoOffset.toNat
        ivOffset := cmd.ivOffset.toNat
        cryptoLength := cmd.cryptoLength.toNat
        macOffset := cmd.macOffset.toNat
        digestOffset := cmd.digestOffset.toNat
        macLength := cmd.macLength.toNat
        macTotalLen })
    (hfits : ∀ t ∈ cmd.ranges config, t.size = 0 ∨ t.offset + t.size ≤ maxBufSize) :
    ∀ t ∈ ch.regions, t.Within c := by
  have hconfig : ch.desc.config = config := by
    rw [hdesc]
    unfold mvCesaSramDescrBuild
    dsimp only
    split_ifs <;> rfl
  have hlen : ∀ n : UInt16, ((UInt16.ofInt n.toNat).toNat : ℤ) = n.toNat := by
    intro n
    have := n.toNat_lt
    exact toNat_ofInt (by omega) (by omega)
  have hcopy : ∀ size : ℕ, ((size : ℤ) = 0 ∨ 0 + (size : ℤ) ≤ maxBufSize) →
      Transfer.Within ⟨sramBufOffset c, size⟩ c := by
    intro size hsize
    unfold Transfer.Within
    dsimp only
    omega
  unfold Command.ranges at hfits
  unfold Chan.regions
  intro t ht
  rw [hconfig, hin, hout] at ht
  dsimp only at ht
  rcases List.mem_append.mp ht with ht | ht
  · rcases List.mem_append.mp ht with ht | ht
    · -- the copies of the DMA engine
      simp only [List.mem_cons, List.not_mem_nil, or_false] at ht
      rcases ht with rfl | rfl
      · exact hcopy _ (hfits ⟨0, cmd.size⟩ (by simp))
      · exact hcopy _ (hfits ⟨0, cmd.dst.mbufSize.toNat⟩ (by simp))
    · -- the ranges of the encryption
      by_cases hop : operationOf config ≠ macOnly
      · have hsrc : ch.desc.cryptoSrcOffset = UInt16.ofInt
          (sramBufOffset c + cmd.cryptoOffset.toNat) ∧
            ch.desc.cryptoDstOffset = UInt16.ofInt (sramBufOffset c + cmd.cryptoOffset.toNat) ∧
            ch.desc.cryptoDataLen = UInt16.ofInt cmd.cryptoLength.toNat ∧
            ch.desc.cryptoIvBufOffset = UInt16.ofInt (sramBufOffset c + cmd.ivOffset.toNat) := by
          rw [hdesc]
          unfold mvCesaSramDescrBuild
          simp only [if_pos hop]
          split_ifs <;> exact ⟨rfl, rfl, rfl, rfl⟩
        obtain ⟨hsrcOffset, hdstOffset, hdataLen, hivOffset⟩ := hsrc
        have hcrypto := hfits ⟨cmd.cryptoOffset.toNat, cmd.cryptoLength.toNat⟩ (by simp [hop])
        have hiv := hfits ⟨cmd.ivOffset.toNat, ivWidth config⟩ (by simp [hop])
        rw [if_pos hop, hsrcOffset, hdstOffset, hdataLen, hivOffset, hlen] at ht
        simp only [List.mem_cons, List.not_mem_nil, or_false] at ht
        rcases ht with rfl | rfl | rfl
        · exact Transfer.within_of_fits (by omega) hcrypto
        · exact Transfer.within_of_fits (by omega) hcrypto
        · exact Transfer.within_of_fits (by omega) hiv
      · rw [if_neg hop] at ht
        cases ht
  · -- the ranges of the authentication
    by_cases hop : operationOf config ≠ cryptoOnly
    · have hmac : ch.desc.macSrcOffset = UInt16.ofInt (sramBufOffset c + cmd.macOffset.toNat) ∧
          ch.desc.macDataLen = UInt16.ofInt cmd.macLength.toNat ∧
          ch.desc.macDigestOffset = UInt16.ofInt (sramBufOffset c + cmd.digestOffset.toNat) := by
        rw [hdesc]
        unfold mvCesaSramDescrBuild
        simp only [if_pos hop]
        exact ⟨trivial, trivial, trivial⟩
      obtain ⟨hsrcOffset, hdataLen, hdigestOffset⟩ := hmac
      have hrange := hfits ⟨cmd.macOffset.toNat, cmd.macLength.toNat⟩ (by simp [hop])
      have hdigest := hfits ⟨cmd.digestOffset.toNat, digestWidth config⟩ (by simp [hop])
      rw [if_pos hop, hsrcOffset, hdataLen, hdigestOffset, hlen] at ht
      simp only [List.mem_cons, List.not_mem_nil, or_false] at ht
      rcases ht with rfl | rfl
      · exact Transfer.within_of_fits (by omega) hrange
      · exact Transfer.within_of_fits (by omega) hdigest
    · rw [if_neg hop] at ht
      cases ht

/-- The ranges of a short request that was started lie in the buffer of its channel
if its command fits. -/
theorem mvCesaReqProcess_within {q : Queue} {c : Fin 2} {p : ℕ} {config : UInt32}
    (hshort : ¬ (q.reqs p).cmd.Large) (hfix : (q.reqs p).fixOffset = 0)
    (hconfig : ((mvCesaCacheSramUpdate (q.reqs p).cmd.sid q.keys).2.sad
      (q.reqs p).cmd.sid).config = config)
    (hfits : (q.reqs p).cmd.Fits config) :
    ∀ t ∈ ((mvCesaReqProcess c p q).2.chan c).regions, t.Within c := by
  obtain ⟨sa, rfl, hin, hout, hdesc⟩ := mvCesaReqProcess_chan hshort (c := c)
  rw [hconfig] at hdesc
  simp only [hfix, Nat.cast_zero, add_zero] at hin hout hdesc
  exact regions_within hin hout hdesc (hfits hshort)

section Moves

variable {q q' : Queue} {p : ℕ} {req : Req}

/-- Writing a request of the same command keeps the commands of the queue fitting. -/
theorem Queue.Confined.fits_update (hconfined : q.Confined) (hstate : (q.reqs p).state ≠ .idle)
    (hcmd : req.cmd = (q.reqs p).cmd) (haccepted : req.accepted = (q.reqs p).accepted) :
    ∀ i, (Function.update q.reqs p req i).state ≠ .idle → (Function.update q.reqs p req i).cmd.Fits
      (Function.update q.reqs p req i).accepted.config := by
  intro i hi
  by_cases heq : i = p
  · subst heq
    rw [Function.update_self, hcmd, haccepted]
    exact hconfined.fits i hstate
  · rw [Function.update_of_ne heq] at hi ⊢
    exact hconfined.fits i hi

/-- Writing a request with no offset keeps the offsets zero. -/
theorem Queue.Confined.fixOffset_update (hconfined : q.Confined) (hfix : req.fixOffset = 0) :
    ∀ i, (Function.update q.reqs p req i).fixOffset = 0 := by
  intro i
  by_cases heq : i = p
  · subst heq
    rwa [Function.update_self]
  · rw [Function.update_of_ne heq]
    exact hconfined.fixOffset i

/-- A large request that is started or continued is the only one in process. -/
theorem Queue.Confined.alone (hconfined : q.Confined) (hstate : (q.reqs p).state ≠ .idle)
    (hlarge : (q.reqs p).cmd.Large) (honly : ∀ i, (q.reqs i).state = .process → i = p)
    (hreqs : q'.reqs = Function.update q.reqs p req) (hcmd : req.cmd = (q.reqs p).cmd)
    (haccepted : req.accepted = (q.reqs p).accepted)
    (hfix : req.fixOffset = (q.reqs p).fixOffset) : q'.Confined := by
  refine ⟨?_, ?_, ?_⟩
  · rw [hreqs]
    exact hconfined.fixOffset_update (hfix.trans (hconfined.fixOffset p))
  · rw [hreqs]
    exact hconfined.fits_update hstate hcmd haccepted
  · intro i hi hshort
    rw [hreqs] at hi hshort
    by_cases heq : i = p
    · subst heq
      rw [Function.update_self, hcmd] at hshort
      exact absurd hlarge hshort
    · rw [Function.update_of_ne heq] at hi
      exact absurd (honly i hi) heq

/-- Every move with fitting commands keeps the ranges in the buffers. -/
theorem Move.confined (hmove : Move acceptFits q q') (hbound : q.Bound) (hconfined : q.Confined) :
    q'.Confined := by
  cases hmove with
  | control _ _ _ hreqs _ hchan =>
    refine ⟨by rw [hreqs]; exact hconfined.fixOffset, by rw [hreqs]; exact hconfined.fits, ?_⟩
    intro i hi hshort
    rw [hreqs] at hi hshort ⊢
    have hregions : (q'.chan (q.reqs i).chanId).regions = (q.chan (q.reqs i).chanId).regions := by
      obtain ⟨hdesc, hin, hout⟩ := hchan (q.reqs i).chanId
      unfold Chan.regions
      rw [hdesc, hin, hout]
    rw [hregions]
    exact hconfined.within i hi hshort
  | @note p _ fixOffset hidle hfix =>
    refine ⟨?_, ?_, ?_⟩
    · refine hconfined.fixOffset_update ?_
      rcases hfix with hzero | hsame
      · exact hzero
      · exact hsame.trans (hconfined.fixOffset p)
    · intro i hi
      by_cases heq : i = p
      · subst heq
        simp [Queue.setReq, hidle] at hi
      · simp only [Queue.setReq, Function.update_of_ne heq] at hi ⊢
        exact hconfined.fits i hi
    · intro i hi hshort
      by_cases heq : i = p
      · subst heq
        simp [Queue.setReq, hidle] at hi
      · simp only [Queue.setReq, Function.update_of_ne heq] at hi hshort ⊢
        exact hconfined.within i hi hshort
  | enqueue hidle hsid hvalid hfits =>
    refine ⟨hconfined.fixOffset_update (hconfined.fixOffset _), ?_, ?_⟩
    · intro i hi
      by_cases heq : i = q.reqEmpty
      · subst heq
        simp only [Queue.enqueue, Queue.setReq, Function.update_self]
        exact hfits
      · simp only [Queue.enqueue, Queue.setReq, Function.update_of_ne heq] at hi ⊢
        exact hconfined.fits i hi
    · intro i hi hshort
      by_cases heq : i = q.reqEmpty
      · subst heq
        simp [Queue.enqueue, Queue.setReq] at hi
      · simp only [Queue.enqueue, Queue.setReq, Function.update_of_ne heq] at hi hshort ⊢
        exact hconfined.within i hi hshort
  | @short c p hpending hshort hnone hfree =>
    obtain ⟨hstart, -⟩ := mvCesaReqProcess_short hshort (c := c)
    have hstate : (q.reqs p).state ≠ .idle := by
      rw [hpending]
      simp
    have hconfig : ((mvCesaCacheSramUpdate (q.reqs p).cmd.sid q.keys).2.sad
        (q.reqs p).cmd.sid).config = (q.reqs p).accepted.config :=
      association_config ((mvCesaCacheSramUpdate_association q.keys _ _).trans
        (hbound.queued p hstate).association)
    refine ⟨?_, ?_, ?_⟩
    · rw [hstart.reqs]
      exact hconfined.fixOffset_update (hconfined.fixOffset p)
    · rw [hstart.reqs]
      exact hconfined.fits_update hstate rfl rfl
    · intro i hi hsmall
      rw [hstart.reqs] at hi hsmall ⊢
      by_cases heq : i = p
      · subst heq
        rw [Function.update_self]
        exact mvCesaReqProcess_within hshort (hconfined.fixOffset i) hconfig
          (hconfined.fits i hstate)
      · rw [Function.update_of_ne heq] at hi hsmall ⊢
        rw [hstart.others _ (hfree i hi).1]
        exact hconfined.within i hi hsmall
  | large hpending hlarge _ hnone =>
    exact hconfined.alone (by rw [hpending]; simp) hlarge (fun i hi => absurd hi (hnone i))
      (mvCesaReqProcess_large hlarge).1.reqs rfl rfl rfl
  | @first p hpending hlarge hnone =>
    exact hconfined.alone (by rw [hpending]; simp) hlarge (fun i hi => absurd hi (hnone i))
      (fragFirst_started p q).1.reqs rfl rfl rfl
  | @middle p hprocess hlarge _ honly =>
    exact hconfined.alone (by rw [hprocess]; simp) hlarge honly
      (fragMiddle_started p q).1.reqs rfl rfl rfl
  | @last p digestOffset hprocess hlarge _ honly =>
    exact hconfined.alone (by rw [hprocess]; simp) hlarge honly
      (fragLast_started p digestOffset q).1.reqs rfl rfl rfl
  | @terminate p digestOffset hprocess hlarge _ honly =>
    have hreqs : (fragTerminate p digestOffset q).reqs =
        Function.update q.reqs p { q.reqs p with chanId := 0, fragMode := .last } := rfl
    exact hconfined.alone (by rw [hprocess]; simp) hlarge honly hreqs rfl rfl rfl
  | retire hprocess =>
    refine ⟨hconfined.fixOffset_update (hconfined.fixOffset _),
      hconfined.fits_update (by rw [hprocess]; simp) rfl rfl, ?_⟩
    intro i hi hshort
    by_cases heq : i = q.reqReady
    · subst heq
      simp [Queue.retire, Queue.setReq] at hi
    · simp only [Queue.retire, Queue.note, Queue.setReq, Function.update_of_ne heq] at hi hshort ⊢
      exact hconfined.within i hi hshort

end Moves

/-- Each channel has at most one request in process, and a large request is the only
one, on channel 0. -/
structure Queue.Exclusive (q : Queue) : Prop where
  channel : ∀ i j, (q.reqs i).state = .process → (q.reqs j).state = .process →
    (q.reqs i).chanId = (q.reqs j).chanId → i = j
  large : ∀ i, (q.reqs i).state = .process → (q.reqs i).cmd.Large →
    (q.reqs i).chanId = 0 ∧ ∀ j, (q.reqs j).state = .process → j = i

/-- A scheduled queue is exclusive. -/
theorem Scheduled.exclusive {q : Queue} {r w : ℕ} (hsched : Scheduled q r w) : q.Exclusive := by
  obtain ⟨n, hserving, -⟩ := hsched.serving
  have hring := hsched.ring
  cases hserving with
  | short hshort =>
    constructor
    · intro i j hi hj hsame
      obtain ⟨k, hk, rfl⟩ := hring.process_pos hi
      obtain ⟨l, hl, rfl⟩ := hring.process_pos hj
      by_contra hne
      have hkl : k ≠ l := fun h => hne (by rw [h])
      have hle := hshort.le_two
      have happart := hshort.apart (by omega)
      rcases Nat.lt_or_gt_of_ne hkl with hlt | hgt
      · obtain ⟨rfl, rfl⟩ : k = 0 ∧ l = 1 := by omega
        exact happart hsame
      · obtain ⟨rfl, rfl⟩ : k = 1 ∧ l = 0 := by omega
        exact happart hsame.symm
    · intro i hi hlarge
      obtain ⟨k, hk, rfl⟩ := hring.process_pos hi
      exact absurd hlarge (hshort.short k hk).1
  | more halone =>
    have honly := fun i (hi : (q.reqs i).state = .process) => hring.head_process hi
    constructor
    · intro i j hi hj _
      rw [honly i hi, honly j hj]
    · intro i hi _
      obtain rfl := honly i hi
      exact ⟨halone.chanId, honly⟩
  | done halone =>
    have honly := fun i (hi : (q.reqs i).state = .process) => hring.head_process hi
    constructor
    · intro i j hi hj _
      rw [honly i hi, honly j hj]
    · intro i hi _
      obtain rfl := honly i hi
      exact ⟨halone.chanId, honly⟩

/-- Requests in process of an exclusive queue with fitting commands have no byte of
the buffers in common. -/
theorem Queue.Confined.disjoint {q : Queue} {i j : ℕ} {b : ℤ} (hconfined : q.Confined)
    (hexclusive : q.Exclusive) (hi : (q.reqs i).state = .process)
    (hj : (q.reqs j).state = .process) (hne : i ≠ j) (huses : q.UsesByte i b) :
    ¬ q.UsesByte j b := by
  have hsmall : ¬ (q.reqs i).cmd.Large := fun h => hne ((hexclusive.large i hi h).2 j hj).symm
  have hsmall' : ¬ (q.reqs j).cmd.Large := fun h => hne ((hexclusive.large j hj h).2 i hi)
  have hchan : (q.reqs i).chanId ≠ (q.reqs j).chanId :=
    fun h => hne (hexclusive.channel i j hi hj h)
  obtain ⟨-, -, t, ht, htouch⟩ := huses
  rintro ⟨-, -, t', ht', htouch'⟩
  exact (hconfined.within i hi hsmall t ht).apart hchan (hconfined.within j hj hsmall' t' ht')
    htouch htouch'

/-- The condition on the steps of a run: the ranges of a short command that passes
the parameter checks lie in one buffer, no session is closed while a request in the queue
belongs to it, and no key stream lacks its memory. -/
def StaysInBuffer (q : Queue) (e : QueueEvent) : Prop := Admits acceptFits q e ∧ KeepsSessions q e

instance (q : Queue) (e : QueueEvent) : Decidable (StaysInBuffer q e) :=
  haveI : Decidable (Admits acceptFits q e) :=
    match e with
    | .action cmd ctrMemory =>
      haveI (sa : SA) : DecidablePred (acceptFits sa) :=
        fun cmd => inferInstanceAs (Decidable (cmd.Fits sa.config))
      inferInstanceAs (Decidable (_ → _ →
        ∀ queued ∈ queuedCommand (q.keys.sad cmd.sid) cmd ctrMemory, acceptFits _ queued))
    | .sessionOpen _ | .sessionClose _ | .readyGet _ _ | .hwDone _ =>
      inferInstanceAs (Decidable True)
  inferInstanceAs (Decidable (_ ∧ _))

/-- Every event that stays in the buffers keeps the ranges in the buffers. -/
theorem EventMoves.confined {env : OpenEnv} {q q' : Queue} {e : QueueEvent} (hbound : q.Bound)
    (hconfined : q.Confined) (hmoves : EventMoves acceptFits env q q' e) : q'.Confined := by
  have hall : ∀ {q q'}, Moves acceptFits q q' → q.Bound ∧ q.Confined → q'.Bound ∧ q'.Confined :=
    fun h => Moves.invariant (I := fun q => q.Bound ∧ q.Confined)
      (fun hmove hq => ⟨hmove.bound hq.1, hmove.confined hq.1 hq.2⟩) h
  cases e with
  | sessionOpen session =>
    simp only [EventMoves] at hmoves
    rw [hmoves]
    exact ⟨hconfined.fixOffset, hconfined.fits, hconfined.within⟩
  | sessionClose sid =>
    simp only [EventMoves] at hmoves
    rw [hmoves]
    exact ⟨hconfined.fixOffset, hconfined.fits, hconfined.within⟩
  | action cmd ctrMemory => exact (hall hmoves ⟨hbound, hconfined⟩).2
  | readyGet chanMap digestErr => exact (hall hmoves ⟨hbound, hconfined⟩).2
  | hwDone c => exact (hall hmoves ⟨hbound, hconfined⟩).2

/-- Along every run that stays in the buffers, the ranges are in the buffers. -/
theorem queueRun_confined {env : OpenEnv} {is5182 : Bool} {numOfSession queueDepth : ℕ}
    (hdepth : 2 ≤ queueDepth) {trace : List (QueueEvent × QueueAnswer)} {q : Queue}
    (hrun : Run (queueStep env) StaysInBuffer (mvCesaInit is5182 numOfSession queueDepth)
      trace q) : ((∃ r w, Scheduled q r w) ∧ q.Bound) ∧ q.Confined := by
  refine Run.invariant (I := fun _ q => ((∃ r w, Scheduled q r w) ∧ q.Bound) ∧ q.Confined) ?_ ?_
    hrun
  · refine ⟨⟨⟨0, 0, mvCesaInit_scheduled is5182 numOfSession hdepth⟩, mvCesaInit_bound _ _ _⟩,
      fun _ => rfl, ?_, ?_⟩
    · intro i hi
      simp [mvCesaInit, zeroReq] at hi
    · intro i hi
      simp [mvCesaInit, zeroReq] at hi
  · rintro _ q e o q' ⟨⟨⟨r, w, hsched⟩, hbound⟩, hconfined⟩ ⟨hfits, hunused, hkey⟩ hstep
    obtain ⟨r', w', hsched', hmoves, -⟩ := queueStep_scheduled hsched hkey hfits hstep
    exact ⟨⟨⟨r', w', hsched'⟩, hmoves.bound hsched hbound hunused⟩,
      hmoves.confined hbound hconfined⟩

/-- Exclusive use of the SRAM. In every run that has memory for its key streams, each channel has at
most one request in process and a large request is in process alone on channel 0. If in addition the
ranges of every short command lie in one buffer, then no two requests in process use the same byte
of the buffers. -/
theorem queueRun_exclusive {env : OpenEnv} {is5182 : Bool} {numOfSession queueDepth : ℕ}
    (hdepth : 2 ≤ queueDepth) {trace : List (QueueEvent × QueueAnswer)} {q : Queue} :
    (Run (queueStep env) HasKeyStream (mvCesaInit is5182 numOfSession queueDepth) trace q →
        q.Exclusive) ∧
      (Run (queueStep env) StaysInBuffer (mvCesaInit is5182 numOfSession queueDepth) trace q →
        q.Exclusive ∧ ∀ i j, i ≠ j → (q.reqs i).state = .process → (q.reqs j).state = .process →
          ∀ b, q.UsesByte i b → ¬ q.UsesByte j b) := by
  constructor
  · intro hrun
    obtain ⟨-, r, w, hsched, -⟩ := queueRun_scheduled hdepth hrun
    exact hsched.exclusive
  · intro hrun
    obtain ⟨⟨⟨r, w, hsched⟩, -⟩, hconfined⟩ := queueRun_confined hdepth hrun
    exact ⟨hsched.exclusive, fun i j hne hi hj b huses =>
      hconfined.disjoint hsched.exclusive hi hj hne huses⟩

/-- Two short requests in process at the same time, with their data apart. -/
theorem queueRun_exclusive_two_channels :
    ∃ trace q, Run (queueStep plainEnv) StaysInBuffer (mvCesaInit false 4 2) trace q ∧
      (q.reqs 0).state = .process ∧ (q.reqs 1).state = .process ∧
      ∀ b, q.UsesByte 0 b → ¬ q.UsesByte 1 b := by
  have hrun : Run (queueStep plainEnv) StaysInBuffer (mvCesaInit false 4 2) _ _ :=
    Run.of_exec [.sessionOpen (desSession 1), .action (plainCommand 1 64) none,
      .action (plainCommand 2 64) none] rfl
  exact ⟨_, _, hrun, rfl, rfl,
    ((queueRun_exclusive (by decide)).2 hrun).2 0 1 (by decide) rfl rfl⟩

/-- A command of 64 bytes whose range to be encrypted is longer than the buffer of a
channel is accepted, and the engine encrypts the data of the other channel with it. -/
theorem queueRun_buffer_overrun :
    ∃ trace q, Run (queueStep plainEnv) (fun _ _ => True) (mvCesaInit false 4 2) trace q ∧
      (q.reqs 0).state = .process ∧ (q.reqs 1).state = .process ∧
      q.UsesByte 0 1600 ∧ q.UsesByte 1 1600 := by
  have hrun : Run (queueStep plainEnv) (fun _ _ => True) (mvCesaInit false 4 2) _ _ :=
    Run.of_exec [.sessionOpen (desSession 1),
      .action { plainCommand 1 64 with cryptoLength := 1664 } none,
      .action (plainCommand 2 64) none] rfl
  refine ⟨_, _, hrun, rfl, rfl, ⟨by decide, by decide, ⟨0, 1664⟩, by decide, by decide⟩,
    ⟨by decide, by decide, ⟨1600, 64⟩, by decide, by decide⟩⟩

end Mv88fxx81.Cesa
