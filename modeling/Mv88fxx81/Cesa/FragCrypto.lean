import Mv88fxx81.Cesa.Fragment

/-!
# Fragmented encryption

A request of a session that encrypts only is cut into pieces of whole cipher blocks. The
piece before the last one leaves at least one block, which the bound on the data behind the
message lets the last piece take.
-/

namespace Mv88fxx81.Cesa

open TransitionSystem Tiling

/-- The end of `openCrypto`: the length of the key and the choice of the mode. -/
theorem openMode_config (keyLength : ℕ) (word : UInt32) {session : OpenSession}
    {ecb cbc ctr bad bad' sa' : SA} {config word' config' : UInt32}
    (hresult : (if session.cryptoKeyLength ≠ keyLength then Except.error bad'
      else if session.cryptoMode = cryptoEcb then Except.ok (ecb, config ||| word ||| word')
      else if session.cryptoMode = cryptoCbc then
        Except.ok (cbc, config ||| word ||| word' ||| cryptoCbc <<< 16)
      else if session.cryptoMode = cryptoCtr ∧ session.cryptoAlgorithm = cryptoAes then
        Except.ok (ctr, config ||| word ||| word' ||| cryptoEcb <<< 16)
      else Except.error bad) = Except.ok (sa', config'))
    (hoperation : (word ||| word') &&& 0x3 = 0) (hmac : (word ||| word') &&& 0x70 = 0) :
    (sa' = ecb ∨ sa' = cbc ∨ sa' = ctr) ∧
      ∃ bits, bits &&& 0x3 = 0 ∧ bits &&& 0x70 = 0 ∧ config' = config ||| bits := by
  have hmasked : ∀ mode mask : UInt32, (word ||| word') &&& mask = 0 → mode &&& mask = 0 →
      (word ||| word' ||| mode) &&& mask = 0 := by
    intro mode mask hword hmode
    rw [or_and_of_masked hmode, hword]
  rw [UInt32.or_assoc config word word'] at hresult
  split_ifs at hresult
  · obtain ⟨rfl, rfl⟩ := Prod.mk.inj (Except.ok.inj hresult)
    exact ⟨Or.inl rfl, _, hoperation, hmac, rfl⟩
  · obtain ⟨rfl, rfl⟩ := Prod.mk.inj (Except.ok.inj hresult)
    exact ⟨Or.inr (Or.inl rfl), _, hmasked _ _ hoperation (by decide),
      hmasked _ _ hmac (by decide), UInt32.or_assoc _ _ _⟩
  · obtain ⟨rfl, rfl⟩ := Prod.mk.inj (Except.ok.inj hresult)
    exact ⟨Or.inr (Or.inr rfl), _, hmasked _ _ hoperation (by decide),
      hmasked _ _ hmac (by decide), UInt32.or_assoc _ _ _⟩

/-- The words that `openCrypto` puts into the configuration leave the operation and the MAC mode
as they are. -/
theorem openCrypto_config {env : OpenEnv} {session : OpenSession} {sa sa' : SA}
    {config config' : UInt32} (hopen : openCrypto env session sa config = .ok (sa', config')) :
    (sa'.cryptoBlockSize = 8 ∨ sa'.cryptoBlockSize = 16) ∧
      ∃ bits, bits &&& 0x3 = 0 ∧ bits &&& 0x70 = 0 ∧ config' = config ||| bits := by
  unfold openCrypto at hopen
  by_cases hdes : session.cryptoAlgorithm = cryptoDes
  · rw [if_pos hdes] at hopen
    obtain ⟨hentry, hbits⟩ := openMode_config 8 0 hopen (by rw [hdes]; decide)
      (by rw [hdes]; decide)
    refine ⟨Or.inl ?_, hbits⟩
    rcases hentry with rfl | rfl | rfl <;> rfl
  rw [if_neg hdes] at hopen
  by_cases h3Des : session.cryptoAlgorithm = crypto3Des
  · rw [if_pos h3Des] at hopen
    obtain ⟨hentry, hbits⟩ := openMode_config 24 ((1 : UInt32) <<< 20) hopen
      (by rw [h3Des]; decide) (by rw [h3Des]; decide)
    refine ⟨Or.inl ?_, hbits⟩
    rcases hentry with rfl | rfl | rfl <;> rfl
  rw [if_neg h3Des] at hopen
  by_cases haes : session.cryptoAlgorithm = cryptoAes
  · rw [if_pos haes] at hopen
    by_cases hshort : session.cryptoKeyLength = 16
    · rw [if_pos hshort] at hopen
      obtain ⟨hentry, hbits⟩ := openMode_config 16 ((0 : UInt32) <<< 24) hopen
        (by rw [haes]; decide) (by rw [haes]; decide)
      refine ⟨Or.inr ?_, hbits⟩
      rcases hentry with rfl | rfl | rfl <;> rfl
    rw [if_neg hshort] at hopen
    by_cases hmiddle : session.cryptoKeyLength = 24
    · rw [if_pos hmiddle] at hopen
      obtain ⟨hentry, hbits⟩ := openMode_config 24 ((1 : UInt32) <<< 24) hopen
        (by rw [haes]; decide) (by rw [haes]; decide)
      refine ⟨Or.inr ?_, hbits⟩
      rcases hentry with rfl | rfl | rfl <;> rfl
    · rw [if_neg hmiddle] at hopen
      obtain ⟨hentry, hbits⟩ := openMode_config 32 ((2 : UInt32) <<< 24) hopen
        (by rw [haes]; decide) (by rw [haes]; decide)
      refine ⟨Or.inr ?_, hbits⟩
      rcases hentry with rfl | rfl | rfl <;> rfl
  · rw [if_neg haes] at hopen
    cases hopen

/-- `sa` is the entry that a session is opened with. -/
def OpenedWith (session : OpenSession) (sa : SA) : Prop :=
  (session.direction = dirEncode ∨ session.direction = dirDecode) ∧
    ∃ env, openEntry env session = .ok sa

/-- What the entry of a session with encryption only says. -/
theorem OpenedWith.cryptoOnly {session : OpenSession} {sa : SA} (hopened : OpenedWith session sa)
    (hsession : session.operation = cryptoOnly) :
    operationOf sa.config = Cesa.cryptoOnly ∧ macModeOf sa.config = 0 ∧
      (sa.cryptoBlockSize = 8 ∨ sa.cryptoBlockSize = 16) := by
  obtain ⟨hdirection, env, hopen⟩ := hopened
  unfold openEntry at hopen
  rw [hsession] at hopen
  simp only [bind, Except.bind, pure, Except.pure, ne_eq, not_true_eq_false, if_false] at hopen
  rw [if_pos (by decide)] at hopen
  cases hcrypto : openCrypto env session zeroSA (Cesa.cryptoOnly ||| session.direction <<< 12) with
  | error sa' =>
    rw [hcrypto] at hopen
    cases hopen
  | ok result =>
    obtain ⟨sa', config'⟩ := result
    rw [hcrypto] at hopen
    obtain rfl := Except.ok.inj hopen
    obtain ⟨hblock, bits, hoperation, hmac, rfl⟩ := openCrypto_config hcrypto
    refine ⟨?_, ?_, hblock⟩
    · show (_ ||| bits) &&& 0x3 = _
      rw [or_and_of_masked hoperation]
      rcases hdirection with hdir | hdir <;> rw [hdir] <;> decide
    · show ((_ ||| bits) &&& 0x70) >>> 4 = _
      rw [or_and_of_masked hmac]
      rcases hdirection with hdir | hdir <;> rw [hdir] <;> decide

/-- From `bufOffset` on, the engine copies the data of the command in pieces that end with it,
and encrypts the message from `start` on in pieces of whole blocks, each inside of what is
copied with it. -/
structure FragTrace.CutsCrypto (trace : FragTrace) (sa : SA) (cmd : Command)
    (bufOffset start : ℤ) : Prop where
  engine : trace.software = none
  cuts : trace.Cuts cmd (trace.pieces.map FragPiece.cryptoRange) sa.cryptoBlockSize bufOffset start
    (cmd.cryptoOffset.toNat + cmd.cryptoLength.toNat)
  inside : ∀ piece ∈ trace.pieces, piece.copyOffset ≤ piece.cryptoOffset ∧
    piece.cryptoOffset + piece.cryptoSize ≤ piece.copyOffset + piece.copySize

section Crypto

variable {q : Queue} {p : ℕ} {cmd : Command} {sa : SA} {is5182 : Bool}
  {cryptoSize macSize cryptoOffset macOffset : ℤ} {trace : FragTrace} {piece : FragPiece}
  {bufOffset start : ℤ}

/-- The sizes of a fragment before the last one: whole blocks, all but one of the rest or as
many as the buffers hold. -/
theorem nextSizes_crypto (cryptoSize macSize cryptoOffset macOffset : ℤ)
    (hop : operationOf sa.config = cryptoOnly)
    (hblock : sa.cryptoBlockSize = 8 ∨ sa.cryptoBlockSize = 16)
    (hwhole : (sa.cryptoBlockSize : ℤ) ∣ cmd.cryptoLength.toNat - cryptoSize)
    (hrest : 0 < cmd.cryptoLength.toNat - cryptoSize) (hoffset : 0 ≤ cryptoOffset)
    (hroom : cryptoOffset + sa.cryptoBlockSize ≤ bothBufSize) :
    ∃ size, nextSizes sa cmd cryptoSize macSize cryptoOffset macOffset =
        ⟨cryptoOffset + size, size, 0⟩ ∧ (sa.cryptoBlockSize : ℤ) ∣ size ∧ 0 ≤ size ∧
      cryptoOffset + size ≤ bothBufSize ∧ size < cmd.cryptoLength.toNat - cryptoSize ∧
      (size = cmd.cryptoLength.toNat - cryptoSize - sa.cryptoBlockSize ∨
        bothBufSize - sa.cryptoBlockSize < cryptoOffset + size) := by
  unfold nextSizes mvCesaFragSizeFind
  dsimp only
  rw [if_neg (not_not_intro hop), if_pos (by rw [hop]; decide)]
  generalize hsize : min ((bothBufSize : ℤ) - cryptoOffset)
    (cmd.cryptoLength.toNat - (cryptoSize + 1)) = size
  unfold alignDown
  simp only [bothBufSize] at hsize hroom ⊢
  refine ⟨size - size % sa.cryptoBlockSize, ?_, ?_, ?_, ?_, ?_, ?_⟩
  · by_cases halign : isNotAlign size sa.cryptoBlockSize
    · rw [if_pos halign]
    · rw [if_neg halign]
      unfold isNotAlign at halign
      -- the rest less one byte is no number of whole blocks
      have hfull : size = 3200 - cryptoOffset := by
        rcases hblock with h | h <;> rw [h] at hwhole halign <;> omega
      rw [not_not.mp halign, Int.sub_zero, FragSizes.mk.injEq]
      exact ⟨by omega, rfl, rfl⟩
  · exact Int.dvd_self_sub_emod
  all_goals rcases hblock with h | h <;> rw [h] at hwhole hroom ⊢ <;> omega

/-- What the checks say about the message of a session with encryption only. -/
theorem fragChecks_crypto (hop : operationOf sa.config = cryptoOnly)
    (hparam : mvCesaParamCheck sa cmd = .ok) (hfrag : mvCesaFragParamCheck is5182 sa cmd = .ok) :
    (sa.cryptoBlockSize : ℤ) ∣ cmd.cryptoLength.toNat ∧
      cmd.cryptoOffset.toNat + 4 ≤ bothBufSize - sa.cryptoBlockSize ∧
      cmd.cryptoOffset.toNat + cmd.cryptoLength.toNat ≤ cmd.size ∧
      cmd.size - (cmd.cryptoOffset.toNat + cmd.cryptoLength.toNat) <
        bothBufSize - sa.cryptoBlockSize := by
  have hwhole : (sa.cryptoBlockSize : ℤ) ∣ cmd.cryptoLength.toNat := by
    unfold mvCesaParamCheck at hparam
    rw [if_neg (not_not_intro hop)] at hparam
    unfold paramCheckCrypto at hparam
    dsimp only at hparam
    split_ifs at hparam with hoffset hlength
    all_goals exact Int.dvd_of_emod_eq_zero (not_not.mp hlength)
  have hcrypto : fragParamCheckCrypto sa cmd = .ok := by
    by_contra hne
    unfold mvCesaFragParamCheck at hfrag
    dsimp only at hfrag
    rw [if_neg (not_not_intro hop), if_pos (show operationOf sa.config ≠ macOnly by
      rw [hop]; decide), if_neg (not_not_intro rfl), if_pos hne] at hfrag
    exact hne hfrag
  unfold fragParamCheckCrypto at hcrypto
  dsimp only at hcrypto
  split_ifs at hcrypto with hoffset hend
  exact ⟨hwhole, by omega, by omega, by omega⟩

/-- One more piece in front. -/
theorem FragTrace.CutsCrypto.cons {size : ℤ}
    (hrest : trace.CutsCrypto sa cmd (bufOffset + (cryptoOffset + size))
      (bufOffset + (cryptoOffset + size)))
    (hcut : piece.Cut sa.config bufOffset ⟨cryptoOffset + size, size, 0⟩ cryptoOffset macOffset)
    (hop : operationOf sa.config = cryptoOnly)
    (hoffset : 0 ≤ cryptoOffset) (hsize : 0 ≤ size) (hpos : 0 < cryptoOffset + size)
    (hroom : cryptoOffset + size ≤ bothBufSize) (hwhole : (sa.cryptoBlockSize : ℤ) ∣ size) :
    (trace.cons piece).CutsCrypto sa cmd bufOffset (bufOffset + cryptoOffset) := by
  simp only [bothBufSize] at hroom
  obtain ⟨hcopyOffset, hcopySize⟩ := Prod.mk.inj hcut.copy
  obtain ⟨hrangeOffset, hrangeSize⟩ := Prod.mk.inj (hcut.crypto (by rw [hop]; decide))
  rw [inWord_of_lt hoffset (by omega)] at hrangeOffset
  dsimp only at hcopySize hrangeSize
  rw [inWord_of_lt hsize (by omega)] at hrangeSize
  have hsecond : piece.cryptoRange.2 = size := hrangeSize
  refine ⟨hrest.engine, ?_, fun other hmem => ?_⟩
  · refine (FragTrace.cuts_cons_iff hcopyOffset (by omega)
      (by simp only [bothBufSize]; omega) hrangeOffset ?_ ?_).mpr ?_
    · rw [hsecond]
      exact hsize
    · rw [hsecond]
      exact hwhole
    · rw [hsecond, Int.add_assoc, hcopySize]
      exact hrest.cuts
  · rcases List.mem_cons.mp hmem with rfl | hmem
    · omega
    · exact hrest.inside other hmem

/-- The pieces after the first one. -/
theorem fragEnds_crypto (hop : operationOf sa.config = cryptoOnly) (hmac : macModeOf sa.config = 0)
    (hblock : sa.cryptoBlockSize = 8 ∨ sa.cryptoBlockSize = 16)
    (hinside : cmd.cryptoOffset.toNat + cmd.cryptoLength.toNat ≤ cmd.size)
    (htail : cmd.size - (cmd.cryptoOffset.toNat + cmd.cryptoLength.toNat) <
      bothBufSize - sa.cryptoBlockSize)
    (hq : q.Between p cmd sa is5182 (cmd.cryptoOffset.toNat + cryptoSize) cryptoSize macSize)
    (hwhole : (sa.cryptoBlockSize : ℤ) ∣ cmd.cryptoLength.toNat - cryptoSize)
    (hnonneg : 0 ≤ cryptoSize) (hrest : 0 < cmd.cryptoLength.toNat - cryptoSize) :
    ∃ trace, FragEnds p q trace ∧ trace.CutsCrypto sa cmd (cmd.cryptoOffset.toNat + cryptoSize)
      (cmd.cryptoOffset.toNat + cryptoSize) := by
  have hnoSoftware : ¬ SoftwareLast sa cmd is5182 := fun hsoftware => hsoftware.1 hop
  have hnoRest : ¬ SoftwareRest sa is5182 := by
    rintro ⟨-, hmode | hmode⟩ <;> rw [hmac] at hmode <;> exact absurd hmode (by decide)
  -- each piece encrypts some of the rest
  induction hn : (cmd.cryptoLength.toNat - cryptoSize).toNat using Nat.strong_induction_on
    generalizing q cryptoSize macSize with
  | _ n ih =>
    subst hn
    by_cases hfits : FitsLast cmd (cmd.cryptoOffset.toNat + cryptoSize)
    · obtain ⟨piece, hends, hcut⟩ := fragEnds_last hq hfits hnoSoftware
      obtain ⟨hcopyOffset, hcopySize⟩ := Prod.mk.inj hcut.copy
      obtain ⟨hrangeOffset, hrangeSize⟩ := Prod.mk.inj (hcut.crypto (by rw [hop]; decide))
      dsimp only at hcopySize hrangeSize
      have hlength := cmd.cryptoLength.toNat_lt
      rw [inWord_of_lt (by omega) (by omega)] at hrangeOffset hrangeSize
      obtain ⟨hstart, hroom⟩ := hfits
      refine ⟨⟨[piece], none⟩, (hends _).mpr rfl, rfl, ?_, fun other hmem => ?_⟩
      · refine (FragTrace.cuts_last_iff hcopyOffset (by omega) (by omega) (by omega)).mpr ?_
        simp only [FragPiece.cryptoRange]
        omega
      · obtain rfl := List.mem_singleton.mp hmem
        omega
    · obtain ⟨size, hsizes, hsizeWhole, hsize, hroom, hlt, hfull⟩ :=
        nextSizes_crypto cryptoSize macSize 0 0 hop hblock hwhole hrest (by omega)
          (by rcases hblock with h | h <;> rw [h] <;> decide)
      obtain ⟨q', piece, hends, hq', hcut⟩ := fragEnds_middle hq hfits hnoRest
      rw [hsizes] at hq' hcut
      dsimp only at hq'
      rw [Int.zero_add, Int.add_assoc] at hq'
      have hpos : 0 < size := by
        simp only [FitsLast, bothBufSize] at hfits hfull htail
        rcases hblock with h | h <;> rw [h] at hfull htail hwhole <;> omega
      obtain ⟨rest, hrestEnds, hrestCuts⟩ := ih _ (by omega) hq' (by
        rw [← Int.sub_sub]
        exact Int.dvd_sub hwhole hsizeWhole) (by omega) (by omega) rfl
      refine ⟨rest.cons piece, (hends _).mpr ⟨rest, hrestEnds, rfl⟩, ?_⟩
      rw [← Int.add_assoc, ← Int.zero_add size] at hrestCuts
      have hcons := hrestCuts.cons hcut hop (by omega) hsize (by omega) hroom hsizeWhole
      rwa [Int.add_zero] at hcons

end Crypto

/-- In every run, the calls for a large request of a session with encryption only that has
passed the checks come to an end, and cut the data and the message of the request. -/
theorem fragRun_crypto_cuts {env : OpenEnv} {is5182 : Bool} {numOfSession queueDepth : ℕ}
    {trace : List (QueueEvent × QueueAnswer)} {q : Queue}
    (hrun : Run (queueStep env) (fun _ _ => True) (mvCesaInit is5182 numOfSession queueDepth)
      trace q) {p : ℕ} {cmd : Command} {session : OpenSession} {sa : SA}
    (hopened : OpenedWith session sa) (hsession : session.operation = cryptoOnly)
    (hcmd : (q.reqs p).cmd = cmd) (hfirst : (q.reqs p).fragMode = .first)
    (hentry : (q.keys.sad cmd.sid).association = sa.association)
    (hlength : 0 < cmd.cryptoLength.toNat) (hlarge : bothBufSize < cmd.size)
    (hparam : mvCesaParamCheck sa cmd = .ok)
    (hfrag : mvCesaFragParamCheck q.is5182 sa cmd = .ok) :
    ∃ n frags, fragRun p n q = some frags ∧ frags.CutsCrypto sa cmd 0 cmd.cryptoOffset.toNat := by
  obtain ⟨hop, hmac, hblock⟩ := hopened.cryptoOnly hsession
  obtain ⟨hwhole, hoffset, hinside, htail⟩ := fragChecks_crypto hop hparam hfrag
  have hfix : (q.reqs p).fixOffset = 0 := queueRun_unshifted hrun p
  have hwhole₀ : (sa.cryptoBlockSize : ℤ) ∣ cmd.cryptoLength.toNat - 0 := by
    rwa [Int.sub_zero]
  obtain ⟨size, hsizes, hsizeWhole, hsize, hroom, hlt, hfull⟩ :=
    nextSizes_crypto 0 0 cmd.cryptoOffset.toNat cmd.macOffset.toNat hop hblock hwhole₀
      (by omega) (by omega) (by omega)
  obtain ⟨q', piece, hends, hq', hcut⟩ := fragEnds_first hcmd hfix hfirst hentry
  rw [hsizes] at hq' hcut
  have hpos : 0 < (cmd.cryptoOffset.toNat : ℤ) + size := by
    simp only [bothBufSize] at hlarge htail hfull
    rcases hblock with h | h <;> rw [h] at htail hfull <;> omega
  obtain ⟨rest, hrest, hcuts⟩ := fragEnds_crypto hop hmac hblock hinside htail hq'
    (Int.dvd_sub hwhole hsizeWhole) hsize (by omega)
  obtain ⟨n, hn⟩ := (hends _).mpr ⟨rest, hrest, rfl⟩
  refine ⟨n, rest.cons piece, hn, ?_⟩
  rw [← Int.zero_add (_ + size)] at hcuts
  have hcons := hcuts.cons hcut hop (by omega) hsize hpos hroom hsizeWhole
  rwa [Int.zero_add] at hcons

/-- A request of 4000 bytes that waits behind a short one. -/
theorem fragRun_crypto_cuts_waiting :
    ∃ trace q, Run (queueStep plainEnv) (fun _ _ => True) (mvCesaInit false 4 2) trace q ∧
      (q.reqs 1).cmd.size = 4000 ∧
      ∃ sa n frags, fragRun 1 n q = some frags ∧ frags.CutsCrypto sa (q.reqs 1).cmd 0 0 := by
  have hrun : Run (queueStep plainEnv) (fun _ _ => True) (mvCesaInit false 4 2) _ _ :=
    Run.of_exec [.sessionOpen (desSession 1), .action (plainCommand 1 64) none,
      .action (plainCommand 2 4000) none] rfl
  have hopened : OpenedWith (desSession 1) _ := ⟨Or.inl rfl, plainEnv, rfl⟩
  exact ⟨_, _, hrun, rfl, _, fragRun_crypto_cuts (p := 1) hrun hopened rfl rfl rfl rfl (by decide)
    (by decide) (by decide) (by decide)⟩

end Mv88fxx81.Cesa
