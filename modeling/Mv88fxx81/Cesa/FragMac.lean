import Mv88fxx81.Cesa.Fragment

/-!
# Fragmented authentication

A request of a session that authenticates only is cut into pieces of whole hash blocks, and
the last of it is done by the engine or by software. Where the rest less one byte is a number of
whole blocks, `mvCesaFragSizeFind` does not shorten the copy, so that the next piece begins
behind the byte that is left. Where the rest fits a block and there is much data behind it, a
piece of no bytes is started again and again.
-/

namespace Mv88fxx81.Cesa

open TransitionSystem Tiling

/-- The ranges that are authenticated, those of the engine before that of the software. -/
def FragTrace.macRanges (trace : FragTrace) : List (ℤ × ℤ) :=
  trace.pieces.map FragPiece.macRange ++ trace.software.toList

/-- From `bufOffset` on, the data of the command is copied and authenticated. -/
def FragTrace.CutsMac (trace : FragTrace) (cmd : Command) (bufOffset start : ℤ) : Prop :=
  trace.Cuts cmd trace.macRanges 64 bufOffset start (cmd.macOffset.toNat + cmd.macLength.toNat)

/-- The bytes behind the message. -/
def macTail (cmd : Command) : ℕ := cmd.size - (cmd.macOffset.toNat + cmd.macLength.toNat)

/-- The bytes of the last hash block of a message of `n` bytes. -/
def lastBlock (n : ℕ) : ℕ := (n - 1) % 64 + 1

/-- The bytes that full buffers leave of a message of `n` bytes. -/
def lastBuffer (n : ℕ) : ℕ := (n - 1) % bothBufSize + 1

/-- What is left of the message can be cut: the software takes all of it, or what full buffers
leave, or its last block, fits with the bytes behind it. -/
def RestCuts (sa : SA) (cmd : Command) (is5182 : Bool) (n : ℕ) : Prop :=
  SoftwareRest sa is5182 ∨ lastBuffer n + macTail cmd ≤ bothBufSize ∨
    (n % 64 ≠ 1 ∧ lastBlock n + macTail cmd ≤ bothBufSize)

/-- The software copies all bytes that are left, or none has to be copied. -/
def SoftwareCopies (sa : SA) (cmd : Command) (is5182 : Bool) : Prop :=
  SoftwareLast sa cmd is5182 → cmd.src.ptr = cmd.dst.ptr ∨ macTail cmd = 0

section Mac

variable {q : Queue} {p : ℕ} {cmd : Command} {sa : SA} {is5182 : Bool}
  {bufOffset cryptoSize macSize : ℤ} {trace rest : FragTrace} {piece : FragPiece}

/-- What the checks say about the message of a session with authentication only. -/
theorem mvCesaFragParamCheck_mac (hop : operationOf sa.config = macOnly)
    (hfrag : mvCesaFragParamCheck is5182 sa cmd = .ok) :
    cmd.macOffset.toNat ≤ bothBufSize - 64 ∧
      cmd.macOffset.toNat + cmd.macLength.toNat ≤ cmd.size ∧ macTail cmd < bothBufSize := by
  have hauth : fragParamCheckAuth cmd = .ok := by
    by_contra hne
    unfold mvCesaFragParamCheck at hfrag
    dsimp only at hfrag
    rw [if_pos (show operationOf sa.config ≠ cryptoOnly by rw [hop]; decide), if_pos hne] at hfrag
    exact hne hfrag
  unfold fragParamCheckAuth at hauth
  dsimp only at hauth
  split_ifs at hauth with hoffset hend
  unfold macTail
  omega

/-- The sizes of a fragment before the last one: whole blocks of the rest less one byte, or of
what the buffers hold. The copy is shortened to them only if they are not all of that. -/
theorem nextSizes_mac (cryptoSize macSize cryptoOffset macOffset : ℤ)
    (hop : operationOf sa.config = macOnly) :
    ∃ size copySize,
      size = min (bothBufSize - macOffset) (cmd.macLength.toNat - (macSize + 1)) ∧
      copySize = (if size % 64 = 0 then (bothBufSize : ℤ) else macOffset + (size - size % 64)) ∧
      nextSizes sa cmd cryptoSize macSize cryptoOffset macOffset =
        ⟨copySize, copySize - cryptoOffset, size - size % 64⟩ := by
  unfold nextSizes mvCesaFragSizeFind
  dsimp only
  rw [if_pos (show operationOf sa.config ≠ cryptoOnly by rw [hop]; decide),
    if_neg (not_not_intro hop)]
  dsimp only
  generalize hsize : min ((bothBufSize : ℤ) - macOffset)
    (cmd.macLength.toNat - (macSize + 1)) = size
  refine ⟨size, _, rfl, rfl, ?_⟩
  by_cases hzero : size % 64 = 0
  · have halign : ¬ isNotAlign size 64 := not_not_intro hzero
    rw [if_neg halign, if_pos hzero, hzero, Int.sub_zero]
  · have halign : isNotAlign size 64 := hzero
    rw [if_pos halign, if_neg hzero]
    rfl

/-- The first range that is authenticated after some progress begins at `bufOffset`. -/
theorem fragEnds_mac_start (hop : operationOf sa.config = macOnly)
    (hq : q.Between p cmd sa is5182 bufOffset cryptoSize macSize) (hends : FragEnds p q trace) :
    ∃ range ranges, trace.macRanges = range :: ranges ∧ range.1 = bufOffset := by
  have hauth : operationOf sa.config ≠ cryptoOnly := by
    rw [hop]
    decide
  have hpiece : ∀ {piece : FragPiece} {sizes}, piece.Cut sa.config bufOffset sizes 0 0 →
      piece.macRange.1 = bufOffset := fun hcut => by
    rw [hcut.mac hauth]
    exact Int.add_zero bufOffset
  by_cases hfits : FitsLast cmd bufOffset
  · by_cases hsoftware : SoftwareLast sa cmd is5182
    · obtain rfl := (fragEnds_software hq (Or.inl ⟨hfits, hsoftware⟩) trace).mp hends
      exact ⟨_, _, rfl, rfl⟩
    · obtain ⟨piece, hlast, hcut⟩ := fragEnds_last hq hfits hsoftware
      obtain rfl := (hlast trace).mp hends
      exact ⟨_, _, rfl, hpiece hcut⟩
  · by_cases hsoftware : SoftwareRest sa is5182
    · obtain rfl := (fragEnds_software hq (Or.inr ⟨hfits, hsoftware⟩) trace).mp hends
      exact ⟨_, _, rfl, rfl⟩
    · obtain ⟨q', piece, hmiddle, -, hcut⟩ := fragEnds_middle hq hfits hsoftware
      obtain ⟨rest, -, rfl⟩ := (hmiddle trace).mp hends
      exact ⟨_, _, rfl, hpiece hcut⟩

/-- The rest of the message by software alone. -/
theorem cutsMac_software_iff (hinside : cmd.macOffset.toNat + cmd.macLength.toNat ≤ cmd.size)
    (hrest : 0 < cmd.macLength.toNat - macSize) :
    FragTrace.CutsMac
        ⟨[], some (cmd.macOffset.toNat + macSize, cmd.macLength.toNat - macSize)⟩ cmd
        (cmd.macOffset.toNat + macSize) (cmd.macOffset.toNat + macSize) ↔
      cmd.src.ptr = cmd.dst.ptr ∨ macTail cmd = 0 := by
  have hranges : Tiles [((cmd.macOffset.toNat : ℤ) + macSize, cmd.macLength.toNat - macSize)]
      (cmd.macOffset.toNat + macSize) (cmd.macOffset.toNat + cmd.macLength.toNat) :=
    ⟨rfl, by omega, by simp only [Tiles]; omega⟩
  constructor
  · rintro ⟨hcopies, -, -, -⟩
    by_cases hsame : cmd.src.ptr = cmd.dst.ptr
    · exact Or.inl hsame
    · simp only [FragTrace.copies, if_pos (show cmd.src.ptr ≠ cmd.dst.ptr from hsame),
        List.map_nil, List.nil_append, tiles_singleton] at hcopies
      unfold macTail
      omega
  · intro hcopies
    refine ⟨?_, fun piece hmem => absurd hmem List.not_mem_nil, hranges, fun range hmem => ?_⟩
    · by_cases hsame : cmd.src.ptr = cmd.dst.ptr
      · simp only [FragTrace.copies, if_neg (not_not_intro hsame), List.map_nil,
          List.nil_append, tiles_singleton]
        exact ⟨trivial, by omega, by omega⟩
      · have htail := hcopies.resolve_left hsame
        unfold macTail at htail
        simp only [FragTrace.copies, if_pos (show cmd.src.ptr ≠ cmd.dst.ptr from hsame),
          List.map_nil, List.nil_append, tiles_singleton]
        exact ⟨trivial, by omega, by omega⟩
    · exact absurd hmem List.not_mem_nil

/-- The rest of the message by the engine in one piece. -/
theorem cutsMac_last (hop : operationOf sa.config = macOnly)
    (hinside : cmd.macOffset.toNat + cmd.macLength.toNat ≤ cmd.size)
    (hfits : FitsLast cmd (cmd.macOffset.toNat + macSize)) (hnonneg : 0 ≤ macSize)
    (hrest : 0 < cmd.macLength.toNat - macSize) {cryptoDataSize : ℤ}
    (hcut : piece.Cut sa.config (cmd.macOffset.toNat + macSize)
      ⟨cmd.size - (cmd.macOffset.toNat + macSize), cryptoDataSize,
        cmd.macLength.toNat - macSize⟩ 0 0) :
    FragTrace.CutsMac ⟨[piece], none⟩ cmd (cmd.macOffset.toNat + macSize)
      (cmd.macOffset.toNat + macSize) := by
  obtain ⟨hcopyOffset, hcopySize⟩ := Prod.mk.inj hcut.copy
  obtain ⟨hrangeOffset, hrangeSize⟩ := Prod.mk.inj (hcut.mac (by rw [hop]; decide))
  dsimp only at hcopySize hrangeSize
  have hlength := cmd.macLength.toNat_lt
  rw [inWord_of_lt (by omega) (by omega)] at hrangeOffset hrangeSize
  obtain ⟨hstart, hroom⟩ := hfits
  refine (FragTrace.cuts_last_iff hcopyOffset (by omega) (by omega) (by omega)).mpr ?_
  simp only [FragPiece.macRange]
  omega

/-- One more piece in front, with its message at its end. -/
theorem cutsMac_cons_iff {sizes : FragSizes} {cryptoOffset macOffset start : ℤ}
    (hop : operationOf sa.config = macOnly)
    (hcut : piece.Cut sa.config bufOffset sizes cryptoOffset macOffset)
    (hstart : bufOffset + macOffset = start)
    (hcopy : sizes.copySize = macOffset + sizes.macDataSize)
    (hoffset : 0 ≤ macOffset) (hsize : 0 ≤ sizes.macDataSize) (hpos : 0 < sizes.copySize)
    (hroom : sizes.copySize ≤ bothBufSize) (hwhole : 64 ∣ sizes.macDataSize) :
    (rest.cons piece).CutsMac cmd bufOffset start ↔
      rest.CutsMac cmd (bufOffset + sizes.copySize) (bufOffset + sizes.copySize) := by
  simp only [bothBufSize] at hroom
  obtain ⟨hcopyOffset, hcopySize⟩ := Prod.mk.inj hcut.copy
  obtain ⟨hrangeOffset, hrangeSize⟩ := Prod.mk.inj (hcut.mac (by rw [hop]; decide))
  rw [inWord_of_lt hoffset (by omega), hstart] at hrangeOffset
  rw [inWord_of_lt hsize (by omega)] at hrangeSize
  have hsecond : piece.macRange.2 = sizes.macDataSize := hrangeSize
  have hcons := @FragTrace.cuts_cons_iff rest piece cmd rest.macRanges piece.macRange 64 bufOffset
    start (cmd.macOffset.toNat + cmd.macLength.toNat) hcopyOffset (by omega)
    (by simp only [bothBufSize]; omega) hrangeOffset (hsecond ▸ hsize) (hsecond ▸ hwhole)
  have hnext : start + piece.macRange.2 = bufOffset + sizes.copySize := by
    rw [hsecond]
    omega
  rw [hnext, hcopySize] at hcons
  exact hcons

/-- No trace has its message cut if the piece in front copies more than the message it is given
and what its message begins behind. -/
theorem not_cutsMac_misplaced {sizes : FragSizes} {cryptoOffset macOffset start : ℤ}
    {range : ℤ × ℤ} {ranges : List (ℤ × ℤ)} (hop : operationOf sa.config = macOnly)
    (hcut : piece.Cut sa.config bufOffset sizes cryptoOffset macOffset)
    (hplace : bufOffset + macOffset = start) (hsize : 0 ≤ sizes.macDataSize)
    (hsizeLt : sizes.macDataSize < 2 ^ 16) (hne : sizes.copySize ≠ macOffset + sizes.macDataSize)
    (hranges : rest.macRanges = range :: ranges) (hstart : range.1 = bufOffset + sizes.copySize) :
    ¬ (rest.cons piece).CutsMac cmd bufOffset start := by
  intro hcuts
  obtain ⟨hrangeOffset, hrangeSize⟩ := Prod.mk.inj (hcut.mac (by rw [hop]; decide))
  rw [inWord_of_lt hsize hsizeLt] at hrangeSize
  have htiles : Tiles (piece.macRange :: rest.macRanges) start _ := hcuts.consecutive
  rw [hranges] at htiles
  have hnext : range.1 = start + piece.macSize := htiles.2.2.1
  omega

/-- No trace has its message cut if the piece in front copies nothing. -/
theorem not_cutsMac_stuck {sizes : FragSizes} {cryptoOffset macOffset start : ℤ}
    (hcut : piece.Cut sa.config bufOffset sizes cryptoOffset macOffset)
    (hzero : sizes.copySize = 0) : ¬ (rest.cons piece).CutsMac cmd bufOffset start := by
  intro hcuts
  have hcopySize : piece.copySize = sizes.copySize := (Prod.mk.inj hcut.copy).2
  have hpos := (hcuts.copySize piece List.mem_cons_self).1
  omega

section RestCuts

variable {n : ℕ}

/-- A rest that fits with the bytes behind it. -/
theorem restCuts_of_fits (hpos : 0 < n) (hfits : n + macTail cmd ≤ bothBufSize) :
    RestCuts sa cmd is5182 n := by
  refine Or.inr (Or.inl ?_)
  unfold lastBuffer
  simp only [bothBufSize] at hfits ⊢
  omega

/-- A rest of more than one buffer, after a full one. -/
theorem restCuts_full (hlarge : bothBufSize < n) :
    RestCuts sa cmd is5182 n ↔ RestCuts sa cmd is5182 (n - bothBufSize) := by
  unfold RestCuts lastBuffer lastBlock
  simp only [bothBufSize] at hlarge ⊢
  rw [show (n - 3200) % 64 = n % 64 by omega, show (n - 3200 - 1) % 64 = (n - 1) % 64 by omega,
    show (n - 3200 - 1) % 3200 = (n - 1) % 3200 by omega]

/-- A rest of at most one buffer that does not fit with the bytes behind it. -/
theorem restCuts_small (hsoftware : ¬ SoftwareRest sa is5182) (hpos : 0 < n)
    (hsmall : n ≤ bothBufSize) (hmore : bothBufSize < n + macTail cmd) :
    RestCuts sa cmd is5182 n ↔ n % 64 ≠ 1 ∧ lastBlock n + macTail cmd ≤ bothBufSize := by
  have hbuffer : ¬ lastBuffer n + macTail cmd ≤ bothBufSize := by
    unfold lastBuffer
    simp only [bothBufSize] at hsmall hmore ⊢
    omega
  constructor
  · rintro (hrest | hrest | hrest)
    · exact absurd hrest hsoftware
    · exact absurd hrest hbuffer
    · exact hrest
  · exact fun hrest => Or.inr (Or.inr hrest)

/-- The last block of a rest. -/
theorem restCuts_lastBlock (hsoftware : ¬ SoftwareRest sa is5182) :
    RestCuts sa cmd is5182 (lastBlock n) ↔ lastBlock n + macTail cmd ≤ bothBufSize := by
  constructor
  · unfold RestCuts lastBuffer lastBlock
    simp only [bothBufSize]
    rintro (hrest | hrest | hrest)
    · exact absurd hrest hsoftware
    · omega
    · omega
  · exact restCuts_of_fits (by unfold lastBlock; omega)

end RestCuts

/-- The calls after the first fragment, for a rest of `n` bytes of the message: they cut it
exactly if it can be cut, and the software copies what it should. -/
theorem fragEnds_mac_iff (hop : operationOf sa.config = macOnly)
    (hinside : cmd.macOffset.toNat + cmd.macLength.toNat ≤ cmd.size)
    (htail : macTail cmd < bothBufSize) {n : ℕ} (hn : (n : ℤ) = cmd.macLength.toNat - macSize)
    (hpos : 0 < n) (hnonneg : 0 ≤ macSize)
    (hq : q.Between p cmd sa is5182 (cmd.macOffset.toNat + macSize) cryptoSize macSize) :
    (∃ trace, FragEnds p q trace ∧ trace.CutsMac cmd (cmd.macOffset.toNat + macSize)
        (cmd.macOffset.toNat + macSize)) ↔
      RestCuts sa cmd is5182 n ∧ SoftwareCopies sa cmd is5182 := by
  have hauth : operationOf sa.config ≠ cryptoOnly := by
    rw [hop]
    decide
  have hsoftwareLast : SoftwareRest sa is5182 → SoftwareLast sa cmd is5182 :=
    fun hsoftware => ⟨hauth, Or.inl hsoftware.1⟩
  have hlength := cmd.macLength.toNat_lt
  -- each piece authenticates some of the rest
  induction n using Nat.strong_induction_on generalizing q cryptoSize macSize with
  | _ n ih =>
    have hfinish : (FitsLast cmd (cmd.macOffset.toNat + macSize) ∧ SoftwareLast sa cmd is5182) ∨
        (¬ FitsLast cmd (cmd.macOffset.toNat + macSize) ∧ SoftwareRest sa is5182) →
        RestCuts sa cmd is5182 n → SoftwareLast sa cmd is5182 →
        ((∃ trace, FragEnds p q trace ∧ trace.CutsMac cmd (cmd.macOffset.toNat + macSize)
            (cmd.macOffset.toNat + macSize)) ↔
          RestCuts sa cmd is5182 n ∧ SoftwareCopies sa cmd is5182) := by
      intro hwhen hcuts hlast
      have hends := fragEnds_software hq hwhen
      have hiff := @cutsMac_software_iff cmd macSize hinside (by omega)
      constructor
      · rintro ⟨trace, htrace, htraceCuts⟩
        rw [(hends trace).mp htrace] at htraceCuts
        exact ⟨hcuts, fun _ => hiff.mp htraceCuts⟩
      · rintro ⟨-, hcopies⟩
        exact ⟨_, (hends _).mpr rfl, hiff.mpr (hcopies hlast)⟩
    by_cases hfits : FitsLast cmd (cmd.macOffset.toNat + macSize)
    · have hcuts : RestCuts sa cmd is5182 n := by
        refine restCuts_of_fits hpos ?_
        have hroom := hfits.2
        unfold macTail
        omega
      by_cases hsoftware : SoftwareLast sa cmd is5182
      · exact hfinish (Or.inl ⟨hfits, hsoftware⟩) hcuts hsoftware
      · obtain ⟨piece, hends, hcut⟩ := fragEnds_last hq hfits hsoftware
        constructor
        · exact fun _ => ⟨hcuts, fun hlast => absurd hlast hsoftware⟩
        · exact fun _ => ⟨_, (hends _).mpr rfl, cutsMac_last hop hinside hfits hnonneg
            (by omega) hcut⟩
    by_cases hsoftware : SoftwareRest sa is5182
    · exact hfinish (Or.inr ⟨hfits, hsoftware⟩) (Or.inl hsoftware) (hsoftwareLast hsoftware)
    have hmore : bothBufSize < n + macTail cmd := by
      simp only [FitsLast] at hfits
      unfold macTail
      omega
    obtain ⟨q', piece, hends, hq', hcut⟩ := fragEnds_middle hq hfits hsoftware
    obtain ⟨size, copySize, hsize, hcopySize, hsizes⟩ :=
      nextSizes_mac cryptoSize macSize 0 0 hop
    rw [hsizes] at hq' hcut
    dsimp only at hq'
    have hplace : (cmd.macOffset.toNat : ℤ) + macSize + 0 = cmd.macOffset.toNat + macSize :=
      Int.add_zero _
    by_cases hlarge : bothBufSize < n
    · -- a full buffer
      have hfull : size = bothBufSize := by omega
      have hwhole : size % 64 = 0 := by rw [hfull]; rfl
      rw [if_pos hwhole] at hcopySize
      rw [hwhole, Int.sub_zero, hcopySize, hfull] at hcut hq'
      rw [Int.add_assoc] at hq'
      have hnext := ih (n - bothBufSize) (by omega) (by omega) (by omega) (by omega) hq'
      rw [restCuts_full hlarge]
      refine (fragEnds_cons_iff hends fun rest _ => ?_).trans hnext
      rw [← Int.add_assoc]
      exact cutsMac_cons_iff hop hcut hplace (Int.zero_add _).symm (by omega) (by decide)
        (by decide) (Int.le_refl _) (by decide)
    rw [restCuts_small hsoftware hpos (by omega) hmore]
    have hrest : size = n - 1 := by omega
    by_cases hone : n % 64 = 1
    · -- the copy is not shortened
      have hwhole : size % 64 = 0 := by omega
      rw [if_pos hwhole] at hcopySize
      rw [hwhole, Int.sub_zero, hcopySize] at hcut hq'
      refine iff_of_false (fragEnds_cons_not hends fun rest hrest => ?_) fun h => h.1.1 hone
      obtain ⟨range, ranges, hranges, hstart⟩ := fragEnds_mac_start hop hq' hrest
      exact not_cutsMac_misplaced hop hcut hplace (by dsimp only; omega) (by dsimp only; omega)
        (by dsimp only; omega) hranges hstart
    have hnotWhole : size % 64 ≠ 0 := by omega
    rw [if_neg hnotWhole, Int.zero_add] at hcopySize
    by_cases hblock : n ≤ 64
    · -- the piece is empty
      refine iff_of_false (fragEnds_cons_not hends fun rest _ => ?_) fun h => ?_
      · exact not_cutsMac_stuck hcut (by dsimp only; omega)
      · have hfit := h.1.2
        unfold lastBlock at hfit
        omega
    -- the last block is left
    have hsizeNat : size - size % 64 = ((n - lastBlock n : ℕ) : ℤ) := by
      unfold lastBlock
      omega
    rw [hcopySize, hsizeNat, Int.add_assoc] at hq'
    rw [hcopySize, hsizeNat] at hcut
    have hnext := ih (lastBlock n) (by unfold lastBlock; omega) (by unfold lastBlock; omega)
      (by unfold lastBlock; omega) (by omega) hq'
    have hblocks : RestCuts sa cmd is5182 (lastBlock n) ↔
        n % 64 ≠ 1 ∧ lastBlock n + macTail cmd ≤ bothBufSize :=
      (restCuts_lastBlock hsoftware).trans (and_iff_right hone).symm
    rw [← hblocks]
    refine (fragEnds_cons_iff hends fun rest _ => ?_).trans hnext
    rw [← Int.add_assoc]
    exact cutsMac_cons_iff hop hcut hplace (Int.zero_add _).symm (by omega) (by dsimp only; omega)
      (by dsimp only; unfold lastBlock; omega) (by dsimp only; omega)
      (by dsimp only; unfold lastBlock; omega)

end Mac

/-- The fragments of a message cut it: it is not within the first hash block of the data; if
it ends in the first buffer, the first fragment leaves more than one byte of it, and its last
block can be cut; otherwise the message can be cut that begins at the next multiple of 64. -/
def MacCuts (sa : SA) (cmd : Command) (is5182 : Bool) : Prop :=
  (0 < cmd.macOffset.toNat ∨ 64 < cmd.macLength.toNat) ∧
    (if cmd.macOffset.toNat + cmd.macLength.toNat ≤ bothBufSize then
      cmd.macLength.toNat % 64 ≠ 1 ∧ RestCuts sa cmd is5182 (lastBlock cmd.macLength.toNat)
    else
      RestCuts sa cmd is5182 ((cmd.macOffset.toNat + 63) / 64 * 64 + cmd.macLength.toNat)) ∧
    SoftwareCopies sa cmd is5182

/-- A session that authenticates with MD5. -/
def md5Session : OpenSession :=
  { desSession 0 with
    operation := macOnly
    macMode := macMd5
    digestSize := 16 }

/-- A command that authenticates the first `length` bytes of `size`. -/
def macCommand (pReqPrv : ℕ) (size length : UInt16) : Command :=
  { zeroCommand with
    pReqPrv
    src := ⟨0, size⟩
    dst := ⟨0, size⟩
    macLength := length }

/-- A message of 65 bytes in a request of 3201 bytes that waits behind a short one: 64 bytes are
authenticated, and then the last byte of the request instead of the last one of the message. -/
theorem fragRun_mac_misplaced :
    ∃ trace q, Run (queueStep plainEnv) (fun _ _ => True) (mvCesaInit false 4 2) trace q ∧
      (q.reqs 1).cmd = macCommand 2 3201 65 ∧ (q.reqs 1).fragMode = .first ∧
      mvCesaParamCheck (q.reqs 1).accepted (q.reqs 1).cmd = .ok ∧
      mvCesaFragParamCheck q.is5182 (q.reqs 1).accepted (q.reqs 1).cmd = .ok ∧
      ∀ n frags, fragRun 1 n q = some frags →
        frags.macRanges = [(0, 64), (3200, 1)] ∧ ¬ frags.CutsMac (q.reqs 1).cmd 0 0 := by
  have hrun : Run (queueStep plainEnv) (fun _ _ => True) (mvCesaInit false 4 2) _ _ :=
    Run.of_exec [.sessionOpen md5Session, .action (macCommand 1 64 64) none,
      .action (macCommand 2 3201 65) none] rfl
  refine ⟨_, _, hrun, rfl, rfl, by decide, by decide, fun n frags hfrags => ?_⟩
  obtain rfl : frags = _ := fragEnds_unique ⟨n, hfrags⟩ ⟨2, rfl⟩
  exact ⟨rfl, fun hcuts => absurd hcuts.consecutive (by decide)⟩

/-- In every run, the calls for a large request of a session with authentication only that has
passed the checks come to an end and cut the data and the message of the request exactly if the
command satisfies the condition. -/
theorem fragRun_mac_cuts_iff {env : OpenEnv} {is5182 : Bool} {numOfSession queueDepth : ℕ}
    {trace : List (QueueEvent × QueueAnswer)} {q : Queue}
    (hrun : Run (queueStep env) (fun _ _ => True) (mvCesaInit is5182 numOfSession queueDepth)
      trace q) {p : ℕ} {cmd : Command} {sa : SA} (hop : operationOf sa.config = macOnly)
    (hcmd : (q.reqs p).cmd = cmd) (hfirst : (q.reqs p).fragMode = .first)
    (hentry : (q.keys.sad cmd.sid).association = sa.association)
    (hlength : 0 < cmd.macLength.toNat) (hfrag : mvCesaFragParamCheck q.is5182 sa cmd = .ok) :
    (∃ n frags, fragRun p n q = some frags ∧ frags.CutsMac cmd 0 cmd.macOffset.toNat) ↔
      MacCuts sa cmd q.is5182 := by
  obtain ⟨hoffset, hinside, htail⟩ := mvCesaFragParamCheck_mac hop hfrag
  have hfix : (q.reqs p).fixOffset = 0 := queueRun_unshifted hrun p
  obtain ⟨q', piece, hends, hq', hcut⟩ := fragEnds_first hcmd hfix hfirst hentry
  obtain ⟨size, copySize, hsize, hcopySize, hsizes⟩ :=
    nextSizes_mac 0 0 cmd.cryptoOffset.toNat cmd.macOffset.toNat hop
  rw [hsizes] at hq' hcut
  dsimp only at hq'
  have hplace : (0 : ℤ) + cmd.macOffset.toNat = cmd.macOffset.toNat := Int.zero_add _
  have hword := cmd.macLength.toNat_lt
  have hruns : (∃ n frags, fragRun p n q = some frags ∧ frags.CutsMac cmd 0 cmd.macOffset.toNat) ↔
      ∃ frags, FragEnds p q frags ∧ frags.CutsMac cmd 0 cmd.macOffset.toNat := by
    constructor
    · rintro ⟨n, frags, hends, hcuts⟩
      exact ⟨frags, ⟨n, hends⟩, hcuts⟩
    · rintro ⟨frags, ⟨n, hends⟩, hcuts⟩
      exact ⟨n, frags, hends, hcuts⟩
  rw [hruns]
  simp only [bothBufSize] at hoffset hsize
  -- a first fragment with its message at the end of what it copies
  have hnext : ∀ m : ℕ, size - size % 64 = m → copySize = cmd.macOffset.toNat + m →
      m < cmd.macLength.toNat → 0 < cmd.macOffset.toNat + m →
      ((∃ frags, FragEnds p q frags ∧ frags.CutsMac cmd 0 cmd.macOffset.toNat) ↔
        RestCuts sa cmd q.is5182 (cmd.macLength.toNat - m) ∧ SoftwareCopies sa cmd q.is5182) := by
    intro m hm hcopy hlt hpos
    rw [hm, hcopy] at hq' hcut
    have hnonneg : (0 : ℤ) ≤ m := by omega
    have hleft : ((cmd.macLength.toNat - m : ℕ) : ℤ) = cmd.macLength.toNat - m := by omega
    refine (fragEnds_cons_iff hends fun rest _ => ?_).trans
      (fragEnds_mac_iff hop hinside htail hleft (by omega) hnonneg hq')
    rw [← Int.zero_add ((cmd.macOffset.toNat : ℤ) + m)]
    exact cutsMac_cons_iff hop hcut hplace rfl (by omega) hnonneg (by dsimp only; omega)
      (by dsimp only [bothBufSize]; omega) (by dsimp only; omega)
  unfold MacCuts
  by_cases hshort : cmd.macOffset.toNat + cmd.macLength.toNat ≤ bothBufSize
  · rw [if_pos hshort]
    simp only [bothBufSize] at hshort
    have hrest : size = cmd.macLength.toNat - 1 := by omega
    by_cases hone : cmd.macLength.toNat % 64 = 1
    · -- the copy is not shortened
      have hwhole : size % 64 = 0 := by omega
      rw [if_pos hwhole] at hcopySize
      rw [hwhole, Int.sub_zero, hcopySize] at hcut hq'
      refine iff_of_false (fragEnds_cons_not hends fun rest hrest' => ?_) fun h => h.2.1.1 hone
      obtain ⟨range, ranges, hranges, hstart⟩ := fragEnds_mac_start hop hq' hrest'
      rw [← Int.zero_add ((bothBufSize : ℕ) : ℤ)] at hstart
      exact not_cutsMac_misplaced hop hcut hplace (by dsimp only; omega) (by dsimp only; omega)
        (by dsimp only [bothBufSize]; omega) hranges hstart
    have hnotWhole : size % 64 ≠ 0 := by omega
    rw [if_neg hnotWhole] at hcopySize
    by_cases hbegin : 0 < cmd.macOffset.toNat ∨ 64 < cmd.macLength.toNat
    · have hiff := hnext (cmd.macLength.toNat - lastBlock cmd.macLength.toNat)
        (by unfold lastBlock; omega) (by unfold lastBlock; omega) (by unfold lastBlock; omega)
        (by unfold lastBlock; omega)
      have hleft : cmd.macLength.toNat - (cmd.macLength.toNat - lastBlock cmd.macLength.toNat) =
          lastBlock cmd.macLength.toNat := by
        unfold lastBlock
        omega
      rw [hiff, hleft]
      exact ⟨fun h => ⟨hbegin, ⟨hone, h.1⟩, h.2⟩, fun h => ⟨h.2.1.2, h.2.2⟩⟩
    · -- the piece is empty
      refine iff_of_false (fragEnds_cons_not hends fun rest _ => ?_) fun h => hbegin h.1
      exact not_cutsMac_stuck hcut (by dsimp only; omega)
  · rw [if_neg hshort]
    simp only [bothBufSize] at hshort
    have hroom : size = 3200 - cmd.macOffset.toNat := by omega
    have hends' : copySize = cmd.macOffset.toNat +
        ((3200 - cmd.macOffset.toNat) / 64 * 64 : ℕ) := by
      simp only [bothBufSize] at hcopySize
      by_cases hwhole : size % 64 = 0
      · rw [if_pos hwhole] at hcopySize
        omega
      · rw [if_neg hwhole] at hcopySize
        omega
    have hiff := hnext ((3200 - cmd.macOffset.toNat) / 64 * 64) (by omega) hends' (by omega)
      (by omega)
    have hleft : cmd.macLength.toNat - (3200 - cmd.macOffset.toNat) / 64 * 64 =
        (cmd.macOffset.toNat + 63) / 64 * 64 + cmd.macLength.toNat - bothBufSize := by
      simp only [bothBufSize]
      omega
    rw [restCuts_full (by simp only [bothBufSize]; omega), ← hleft, hiff]
    exact ⟨fun h => ⟨by omega, h.1, h.2⟩, fun h => ⟨h.2.1, h.2.2⟩⟩

/-- A message of 4000 bytes that is all of its request. -/
theorem fragRun_mac_cuts_iff_whole :
    ∃ trace q, Run (queueStep plainEnv) (fun _ _ => True) (mvCesaInit false 4 2) trace q ∧
      (q.reqs 1).cmd = macCommand 2 4000 4000 ∧
      ∃ n frags, fragRun 1 n q = some frags ∧ frags.CutsMac (q.reqs 1).cmd 0 0 := by
  have hrun : Run (queueStep plainEnv) (fun _ _ => True) (mvCesaInit false 4 2) _ _ :=
    Run.of_exec [.sessionOpen md5Session, .action (macCommand 1 64 64) none,
      .action (macCommand 2 4000 4000) none] rfl
  refine ⟨_, _, hrun, rfl, ?_⟩
  refine (fragRun_mac_cuts_iff (p := 1) hrun rfl rfl rfl rfl (by decide) (by decide)).mpr ?_
  refine ⟨Or.inr (by decide), ?_, fun _ => Or.inl rfl⟩
  rw [if_neg (by decide)]
  exact Or.inr (Or.inl (by decide))

end Mv88fxx81.Cesa
