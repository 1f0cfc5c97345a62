import Mv88fxx81.Cesa.FixOffset
import Mv88fxx81.Lib.Tiling

/-!
# The fragments of a request

A request that is larger than the buffers is processed by repeated calls of
`mvCesaFragReqProcess`, each of which starts the engine for a piece of the data, until the
last piece is started or the rest is done by `mvCesaFragAuthComplete`. The pieces are read off
the copies and the descriptor that channel 0 is started with.
-/

namespace Mv88fxx81.Cesa

open TransitionSystem Tiling

/-- What one start of the engine does, as ranges of the data of the request: the bytes that
are copied, and those that are encrypted and authenticated. -/
structure FragPiece where
  copyOffset : ℤ
  copySize : ℤ
  cryptoOffset : ℤ
  cryptoSize : ℤ
  macOffset : ℤ
  macSize : ℤ
  deriving DecidableEq, Repr

/-- The range that is copied. -/
def FragPiece.copyRange (piece : FragPiece) : ℤ × ℤ := (piece.copyOffset, piece.copySize)

/-- The range that is encrypted. -/
def FragPiece.cryptoRange (piece : FragPiece) : ℤ × ℤ := (piece.cryptoOffset, piece.cryptoSize)

/-- The range that is authenticated. -/
def FragPiece.macRange (piece : FragPiece) : ℤ × ℤ := (piece.macOffset, piece.macSize)

/-- The piece that channel 0 was started with by `mvCesaFragReqProcess`, which has advanced
`bufOffset` over it. The place of the copy in the SRAM is that of its first byte. -/
def Queue.piece (q : Queue) : FragPiece :=
  let ch := q.chan 0
  let copyOffset := q.frags.bufOffset - ch.copyIn.size
  { copyOffset
    copySize := ch.copyIn.size
    cryptoOffset := copyOffset + ch.desc.cryptoSrcOffset.toNat - ch.copyIn.offset
    cryptoSize := ch.desc.cryptoDataLen.toNat
    macOffset := copyOffset + ch.desc.macSrcOffset.toNat - ch.copyIn.offset
    macSize := ch.desc.macDataLen.toNat }

/-- The pieces of a request in their order, and the range that `mvCesaFragAuthComplete`
authenticates if it finishes the request. -/
structure FragTrace where
  pieces : List FragPiece
  software : Option (ℤ × ℤ)
  deriving DecidableEq, Repr

/-- A trace with one more piece in front. -/
def FragTrace.cons (piece : FragPiece) (trace : FragTrace) : FragTrace :=
  { trace with pieces := piece :: trace.pieces }

/-- The calls of `mvCesaFragReqProcess` for the request `p` until its last fragment, at most
`n` of them. -/
def fragRun (p : ℕ) : ℕ → Queue → Option FragTrace
  | 0, _ => none
  | n + 1, q =>
    let (status, q') := mvCesaFragReqProcess p q
    if status = .terminate then
      some ⟨[], some (q.frags.bufOffset, (q.reqs p).cmd.macLength.toNat - q.frags.macSize)⟩
    else if (q'.reqs p).fragMode = .last then some ⟨[q'.piece], none⟩
    else (fragRun p n q').map (FragTrace.cons q'.piece)

/-- The calls of `mvCesaFragReqProcess` for the request `p` end and have the trace. -/
def FragEnds (p : ℕ) (q : Queue) (trace : FragTrace) : Prop := ∃ n, fragRun p n q = some trace

/-- The request `p` with the command `cmd` of the session `sa` is between two fragments: the
bytes before `bufOffset` were copied, and `cryptoSize` and `macSize` bytes were encrypted and
authenticated. -/
structure Queue.Between (q : Queue) (p : ℕ) (cmd : Command) (sa : SA) (is5182 : Bool)
    (bufOffset cryptoSize macSize : ℤ) : Prop where
  command : (q.reqs p).cmd = cmd
  fragMode : (q.reqs p).fragMode = .middle
  entry : (q.keys.sad cmd.sid).association = sa.association
  model : q.is5182 = is5182
  bufOffset : q.frags.bufOffset = bufOffset
  cryptoSize : q.frags.cryptoSize = cryptoSize
  macSize : q.frags.macSize = macSize

/-- A number in a field of 16 bits. -/
def inWord (x : ℤ) : ℤ := (UInt16.ofInt x).toNat

/-- The piece begins at `bufOffset` and has the given sizes; the data of the operation begins
at the offsets `cryptoOffset` and `macOffset` in it. -/
structure FragPiece.Cut (piece : FragPiece) (config : UInt32) (bufOffset : ℤ) (sizes : FragSizes)
    (cryptoOffset macOffset : ℤ) : Prop where
  copy : piece.copyRange = (bufOffset, sizes.copySize)
  crypto : operationOf config ≠ macOnly → piece.cryptoRange =
    (bufOffset + inWord cryptoOffset, inWord sizes.cryptoDataSize)
  mac : operationOf config ≠ cryptoOnly → piece.macRange =
    (bufOffset + inWord macOffset, inWord sizes.macDataSize)

section Step

variable {q : Queue} {p : ℕ} {cmd : Command} {sa sa' : SA} {is5182 : Bool}
  {bufOffset cryptoSize macSize : ℤ}

theorem inWord_of_lt {x : ℤ} (hx : 0 ≤ x) (hlt : x < 2 ^ 16) : inWord x = x := toNat_ofInt hx hlt

/-- Bits outside of a mask. -/
theorem or_and_of_masked {word bits mask : UInt32} (hbits : bits &&& mask = 0) :
    (word ||| bits) &&& mask = word &&& mask := by
  have hzero : bits.toBitVec &&& mask.toBitVec = 0#32 := congrArg UInt32.toBitVec hbits
  apply UInt32.toBitVec_inj.mp
  show (word.toBitVec ||| bits.toBitVec) &&& mask.toBitVec = word.toBitVec &&& mask.toBitVec
  rw [BitVec.and_or_distrib_right, hzero, BitVec.or_zero]

/-- The fragment mode does not change the operation. -/
theorem operationOf_bits (config : UInt32) (mode : FragMode) :
    operationOf (config ||| mode.bits) = operationOf config := by
  have hbits : mode.bits &&& 0x3 = 0 := by
    cases mode <;> decide
  exact or_and_of_masked hbits

/-- The piece that a fragment without a shift is started with. -/
theorem startFragment_piece (q : Queue) (p : ℕ) (sa : SA) (mode : FragMode) (sizes : FragSizes)
    (r : DescRanges) (hcrypto : r.cryptoLength = sizes.cryptoDataSize)
    (hmac : r.macLength = sizes.macDataSize) :
    (q.startFragment p sa mode sizes r 0).piece.Cut sa.config q.frags.bufOffset sizes
      r.cryptoOffset r.macOffset := by
  obtain ⟨hconfig, hcryptoRange, hmacRange⟩ := mvCesaSramDescrBuild_ranges (q.chan 0).desc 0
    sa.cacheIdx (sa.config ||| mode.bits) r
  have hin : ((q.startFragment p sa mode sizes r 0).chan 0).copyIn = ⟨0, sizes.copySize⟩ := by
    simp [Queue.startFragment, Queue.setChanState, Queue.startEngine]
  have hdesc : ((q.startFragment p sa mode sizes r 0).chan 0).desc =
      mvCesaSramDescrBuild (q.chan 0).desc 0 sa.cacheIdx (sa.config ||| mode.bits) r := by
    simp [Queue.startFragment, Queue.setChanState, Queue.startEngine, Queue.note]
  have hoffset : (q.startFragment p sa mode sizes r 0).frags.bufOffset =
      q.frags.bufOffset + sizes.copySize := rfl
  have hbase : ∀ x, sramBufOffset 0 + x = x := fun x => by simp [sramBufOffset]
  rw [operationOf_bits] at hcryptoRange hmacRange
  constructor
  · simp only [FragPiece.copyRange, Queue.piece, hin, hoffset, Int.add_sub_cancel]
  · intro hop
    obtain ⟨hsrc, -, hlen, -⟩ := hcryptoRange hop
    simp only [FragPiece.cryptoRange, Queue.piece, hin, hoffset, hdesc, Int.add_sub_cancel,
      Int.sub_zero, hsrc, hlen, hbase, hcrypto, inWord]
  · intro hop
    obtain ⟨hsrc, hlen, -⟩ := hmacRange hop
    simp only [FragPiece.macRange, Queue.piece, hin, hoffset, hdesc, Int.add_sub_cancel,
      Int.sub_zero, hsrc, hlen, hbase, hmac, inWord]

/-- The sizes that the operation does not use are of no account. -/
theorem FragPiece.Cut.congr {piece : FragPiece} {config : UInt32}
    {sizes sizes' : FragSizes} {cryptoOffset macOffset : ℤ}
    (hcut : piece.Cut config bufOffset sizes cryptoOffset macOffset)
    (hcopy : sizes.copySize = sizes'.copySize)
    (hcrypto : operationOf config ≠ macOnly → sizes.cryptoDataSize = sizes'.cryptoDataSize)
    (hmac : operationOf config ≠ cryptoOnly → sizes.macDataSize = sizes'.macDataSize) :
    piece.Cut config bufOffset sizes' cryptoOffset macOffset := by
  refine ⟨?_, fun hop => ?_, fun hop => ?_⟩
  · rw [hcut.copy, hcopy]
  · rw [hcut.crypto hop, hcrypto hop]
  · rw [hcut.mac hop, hmac hop]

/-- The sizes of a fragment depend on the association of the session and on the progress. -/
theorem mvCesaFragSizeFind_congr {frags frags' : Frags} (hentry : sa.association = sa'.association)
    (hcrypto : frags.cryptoSize = frags'.cryptoSize) (hmac : frags.macSize = frags'.macSize)
    (cryptoOffset macOffset copySize : ℤ) :
    mvCesaFragSizeFind frags sa cmd cryptoOffset macOffset copySize =
      mvCesaFragSizeFind frags' sa' cmd cryptoOffset macOffset copySize := by
  have hconfig : sa.config = sa'.config := association_config hentry
  have hblock : sa.cryptoBlockSize = sa'.cryptoBlockSize := by
    have := congrArg SA.cryptoBlockSize hentry
    exact this
  unfold mvCesaFragSizeFind
  rw [hconfig, hblock, hcrypto, hmac]

/-- The sizes of the next fragment after some progress. -/
def nextSizes (sa : SA) (cmd : Command) (cryptoSize macSize cryptoOffset macOffset : ℤ) :
    FragSizes :=
  mvCesaFragSizeFind ⟨0, 0, cryptoSize, macSize, 0⟩ sa cmd cryptoOffset macOffset bothBufSize

/-- The calls have at most one trace. -/
theorem fragEnds_unique {trace trace' : FragTrace} (hends : FragEnds p q trace)
    (hends' : FragEnds p q trace') : trace = trace' := by
  have hrun : ∀ n m q trace trace', fragRun p n q = some trace → fragRun p m q = some trace' →
      trace = trace' := by
    intro n
    induction n with
    | zero => intro m q trace trace' h; cases h
    | succ n ih =>
      intro m q trace trace' h h'
      cases m with
      | zero => cases h'
      | succ m =>
        rw [fragRun] at h h'
        dsimp only at h h'
        split_ifs at h h' with hterminate hlast
        · exact Option.some.inj (h.symm.trans h')
        · exact Option.some.inj (h.symm.trans h')
        · obtain ⟨rest, hrest, rfl⟩ := Option.map_eq_some_iff.mp h
          obtain ⟨rest', hrest', rfl⟩ := Option.map_eq_some_iff.mp h'
          rw [ih m _ rest rest' hrest hrest']
  obtain ⟨n, h⟩ := hends
  obtain ⟨m, h'⟩ := hends'
  exact hrun n m q trace trace' h h'

/-- The calls that begin with a fragment that is not the last one. -/
theorem fragEnds_cons {q' : Queue} {piece : FragPiece}
    (hstep : ∀ n, fragRun p (n + 1) q = (fragRun p n q').map (FragTrace.cons piece))
    (trace : FragTrace) :
    FragEnds p q trace ↔ ∃ rest, FragEnds p q' rest ∧ trace = rest.cons piece := by
  constructor
  · rintro ⟨n, hrun⟩
    cases n with
    | zero => cases hrun
    | succ n =>
      rw [hstep, Option.map_eq_some_iff] at hrun
      obtain ⟨rest, hrest, rfl⟩ := hrun
      exact ⟨rest, ⟨n, hrest⟩, rfl⟩
  · rintro ⟨rest, ⟨n, hrest⟩, rfl⟩
    exact ⟨n + 1, by rw [hstep, hrest, Option.map_some]⟩

/-- A property of the traces that begin with a fragment, from one of the rest. -/
theorem fragEnds_cons_iff {q' : Queue} {piece : FragPiece} {P Q : FragTrace → Prop}
    (hends : ∀ trace, FragEnds p q trace ↔ ∃ rest, FragEnds p q' rest ∧ trace = rest.cons piece)
    (hcons : ∀ rest, FragEnds p q' rest → (P (rest.cons piece) ↔ Q rest)) :
    (∃ trace, FragEnds p q trace ∧ P trace) ↔ ∃ rest, FragEnds p q' rest ∧ Q rest := by
  constructor
  · rintro ⟨trace, htrace, hproperty⟩
    obtain ⟨rest, hrest, rfl⟩ := (hends trace).mp htrace
    exact ⟨rest, hrest, (hcons rest hrest).mp hproperty⟩
  · rintro ⟨rest, hrest, hproperty⟩
    exact ⟨rest.cons piece, (hends _).mpr ⟨rest, hrest, rfl⟩, (hcons rest hrest).mpr hproperty⟩

/-- A property that no trace has that begins with a fragment. -/
theorem fragEnds_cons_not {q' : Queue} {piece : FragPiece} {P : FragTrace → Prop}
    (hends : ∀ trace, FragEnds p q trace ↔ ∃ rest, FragEnds p q' rest ∧ trace = rest.cons piece)
    (hnot : ∀ rest, FragEnds p q' rest → ¬ P (rest.cons piece)) :
    ¬ ∃ trace, FragEnds p q trace ∧ P trace := by
  rintro ⟨trace, htrace, hproperty⟩
  obtain ⟨rest, hrest, rfl⟩ := (hends trace).mp htrace
  exact hnot rest hrest hproperty

/-- One call alone. -/
theorem fragEnds_once {once : FragTrace} (hstep : ∀ n, fragRun p (n + 1) q = some once)
    (trace : FragTrace) : FragEnds p q trace ↔ trace = once := by
  constructor
  · rintro ⟨n, hrun⟩
    cases n with
    | zero => cases hrun
    | succ n =>
      rw [hstep] at hrun
      exact (Option.some.inj hrun).symm
  · rintro rfl
    exact ⟨1, hstep 0⟩

/-- Between the fragments after one was started. -/
theorem startFragment_between {mode : FragMode} {sizes : FragSizes} {r : DescRanges}
    {fixOffset : ℕ} (hcmd : (q.reqs p).cmd = cmd) (hmode : (q.reqs p).fragMode = .middle)
    (hentry : (q.keys.sad cmd.sid).association = sa.association) :
    (q.startFragment p sa' mode sizes r fixOffset).Between p cmd sa q.is5182
      (q.frags.bufOffset + sizes.copySize) (q.frags.cryptoSize + sizes.cryptoDataSize)
      (q.frags.macSize + sizes.macDataSize) :=
  ⟨hcmd, hmode, hentry, rfl, rfl, rfl, rfl⟩

/-- The first fragment of a request that is not shifted. -/
theorem fragEnds_first (hcmd : (q.reqs p).cmd = cmd) (hfix : (q.reqs p).fixOffset = 0)
    (hfirst : (q.reqs p).fragMode = .first)
    (hentry : (q.keys.sad cmd.sid).association = sa.association) :
    ∃ q' piece, (∀ trace, FragEnds p q trace ↔
        ∃ rest, FragEnds p q' rest ∧ trace = rest.cons piece) ∧
      q'.Between p cmd sa q.is5182 (nextSizes sa cmd 0 0 cmd.cryptoOffset.toNat
          cmd.macOffset.toNat).copySize
        (nextSizes sa cmd 0 0 cmd.cryptoOffset.toNat cmd.macOffset.toNat).cryptoDataSize
        (nextSizes sa cmd 0 0 cmd.cryptoOffset.toNat cmd.macOffset.toNat).macDataSize ∧
      piece.Cut sa.config 0 (nextSizes sa cmd 0 0 cmd.cryptoOffset.toNat cmd.macOffset.toNat)
        cmd.cryptoOffset.toNat cmd.macOffset.toNat := by
  have hreq : (fragFirst p q).reqs p =
      { q.reqs p with chanId := 0, state := .process, fragMode := .middle } := by
    rw [(fragFirst_started p q).1.reqs, Function.update_self]
  have hsizes : mvCesaFragSizeFind
        { q.frags with sid := cmd.sid, bufOffset := 0, cryptoSize := 0, macSize := 0 }
        (q.keys.sad cmd.sid) cmd cmd.cryptoOffset.toNat cmd.macOffset.toNat bothBufSize =
      nextSizes sa cmd 0 0 cmd.cryptoOffset.toNat cmd.macOffset.toNat :=
    mvCesaFragSizeFind_congr hentry rfl rfl _ _ _
  have hkeys : (((mvCesaCacheSramUpdate cmd.sid q.keys).2).sad cmd.sid).association =
      sa.association := by
    rw [mvCesaCacheSramUpdate_association, hentry]
  refine ⟨fragFirst p q, (fragFirst p q).piece, ?_, ?_, ?_⟩
  · refine fragEnds_cons fun n => ?_
    rw [fragRun, mvCesaFragReqProcess_first hfirst]
    dsimp only
    rw [if_neg (by decide), hreq, if_neg (by simp)]
  · unfold fragFirst
    dsimp only
    rw [hcmd, hfix, Int.ofNat_zero, Int.sub_zero, hsizes]
    rw [← Int.zero_add (nextSizes _ _ _ _ _ _).copySize,
      ← Int.zero_add (nextSizes _ _ _ _ _ _).cryptoDataSize,
      ← Int.zero_add (nextSizes _ _ _ _ _ _).macDataSize]
    exact startFragment_between (by simp [Queue.setReq]) (by simp [Queue.setReq]) hkeys
  · unfold fragFirst
    dsimp only
    rw [hcmd, hfix, Int.ofNat_zero, Int.sub_zero, hsizes, ← association_config hkeys]
    simp only [Int.add_zero]
    exact startFragment_piece _ p _ .first _ _ rfl rfl

/-- The rest of the data fits the buffers, so that the fragment is the last one. -/
def FitsLast (cmd : Command) (bufOffset : ℤ) : Prop :=
  0 ≤ cmd.size - bufOffset ∧ cmd.size - bufOffset ≤ bothBufSize

/-- The last fragment is authenticated by software. -/
def SoftwareLast (sa : SA) (cmd : Command) (is5182 : Bool) : Prop :=
  operationOf sa.config ≠ cryptoOnly ∧ (is5182 = true ∨ cmd.macLength.toNat ≥ 2 ^ 14)

/-- All that follows the first fragment is authenticated by software. -/
def SoftwareRest (sa : SA) (is5182 : Bool) : Prop :=
  is5182 = true ∧ (macModeOf sa.config = macMd5 ∨ macModeOf sa.config = macSha1)

instance : Decidable (FitsLast cmd bufOffset) := inferInstanceAs (Decidable (_ ∧ _))

instance : Decidable (SoftwareLast sa cmd is5182) := inferInstanceAs (Decidable (_ ∧ _))

instance : Decidable (SoftwareRest sa is5182) := inferInstanceAs (Decidable (_ ∧ _))

/-- Between two fragments the operation is that of the session. -/
theorem Queue.Between.config (hq : q.Between p cmd sa is5182 bufOffset cryptoSize macSize) :
    (q.keys.sad cmd.sid).config = sa.config :=
  association_config hq.entry

/-- What continues a request between two fragments. -/
theorem Queue.Between.process (hq : q.Between p cmd sa is5182 bufOffset cryptoSize macSize) :
    ∃ digestOffset, mvCesaFragReqProcess p q =
      if FitsLast cmd bufOffset then
        if SoftwareLast sa cmd is5182 then (.terminate, fragTerminate p digestOffset q)
        else (.ok, fragLast p digestOffset q)
      else if SoftwareRest sa is5182 then (.terminate, fragTerminate p sramTempDigest q)
      else (.ok, fragMiddle p q) := by
  unfold mvCesaFragReqProcess
  dsimp only
  rw [hq.command, hq.bufOffset, hq.config, hq.model, if_neg (by rw [hq.fragMode]; decide)]
  exact ⟨_, rfl⟩

/-- The last fragment by the engine. -/
theorem fragEnds_last (hq : q.Between p cmd sa is5182 bufOffset cryptoSize macSize)
    (hfits : FitsLast cmd bufOffset) (hsoftware : ¬ SoftwareLast sa cmd is5182) :
    ∃ piece, (∀ trace, FragEnds p q trace ↔ trace = ⟨[piece], none⟩) ∧
      piece.Cut sa.config bufOffset ⟨cmd.size - bufOffset, cmd.cryptoLength.toNat - cryptoSize,
        cmd.macLength.toNat - macSize⟩ 0 0 := by
  obtain ⟨digestOffset, hprocess⟩ := hq.process
  rw [if_pos hfits, if_neg hsoftware] at hprocess
  have hreq : ((fragLast p digestOffset q).reqs p).fragMode = .last := by
    rw [(fragLast_started p digestOffset q).1.reqs, Function.update_self]
  refine ⟨(fragLast p digestOffset q).piece, ?_, ?_⟩
  · refine fragEnds_once fun n => ?_
    rw [fragRun, hprocess]
    dsimp only
    rw [if_neg (by decide), if_pos hreq]
  · unfold fragLast
    dsimp only
    rw [hq.command, hq.bufOffset, hq.cryptoSize, hq.macSize, ← hq.config]
    -- without authentication the place of the digest is not stored
    split
    case isTrue hauth =>
      rw [← hq.bufOffset]
      exact (startFragment_piece _ p _ .last _ _ rfl rfl).congr rfl
        (fun hop => by rw [if_pos hop]) (fun _ => rfl)
    case isFalse hauth =>
      rw [← hq.bufOffset]
      exact (startFragment_piece _ p _ .last _ _ rfl rfl).congr rfl
        (fun hop => by rw [if_pos hop]) (fun hop => absurd hop hauth)

/-- The rest by software. -/
theorem fragEnds_software (hq : q.Between p cmd sa is5182 bufOffset cryptoSize macSize)
    (hsoftware : (FitsLast cmd bufOffset ∧ SoftwareLast sa cmd is5182) ∨
      (¬ FitsLast cmd bufOffset ∧ SoftwareRest sa is5182)) :
    ∀ trace, FragEnds p q trace ↔
      trace = ⟨[], some (bufOffset, cmd.macLength.toNat - macSize)⟩ := by
  obtain ⟨digestOffset, hprocess⟩ : ∃ digestOffset,
      mvCesaFragReqProcess p q = (.terminate, fragTerminate p digestOffset q) := by
    obtain ⟨digestOffset, hprocess⟩ := hq.process
    rcases hsoftware with ⟨hfits, hlast⟩ | ⟨hmore, hrest⟩
    · rw [if_pos hfits, if_pos hlast] at hprocess
      exact ⟨digestOffset, hprocess⟩
    · rw [if_neg hmore, if_pos hrest] at hprocess
      exact ⟨sramTempDigest, hprocess⟩
  refine fragEnds_once fun n => ?_
  rw [fragRun, hprocess]
  dsimp only
  rw [if_pos rfl, hq.command, hq.bufOffset, hq.macSize]

/-- A middle fragment. -/
theorem fragEnds_middle (hq : q.Between p cmd sa is5182 bufOffset cryptoSize macSize)
    (hmore : ¬ FitsLast cmd bufOffset) (hsoftware : ¬ SoftwareRest sa is5182) :
    ∃ q' piece, (∀ trace, FragEnds p q trace ↔
        ∃ rest, FragEnds p q' rest ∧ trace = rest.cons piece) ∧
      q'.Between p cmd sa is5182
        (bufOffset + (nextSizes sa cmd cryptoSize macSize 0 0).copySize)
        (cryptoSize + (nextSizes sa cmd cryptoSize macSize 0 0).cryptoDataSize)
        (macSize + (nextSizes sa cmd cryptoSize macSize 0 0).macDataSize) ∧
      piece.Cut sa.config bufOffset (nextSizes sa cmd cryptoSize macSize 0 0) 0 0 := by
  obtain ⟨digestOffset, hprocess⟩ := hq.process
  rw [if_neg hmore, if_neg hsoftware] at hprocess
  have hsizes : mvCesaFragSizeFind q.frags (q.keys.sad cmd.sid) cmd 0 0 bothBufSize =
      nextSizes sa cmd cryptoSize macSize 0 0 :=
    mvCesaFragSizeFind_congr hq.entry hq.cryptoSize hq.macSize _ _ _
  have hreq : (fragMiddle p q).reqs p = { q.reqs p with chanId := 0 } := by
    rw [(fragMiddle_started p q).1.reqs, Function.update_self]
  refine ⟨fragMiddle p q, (fragMiddle p q).piece, ?_, ?_, ?_⟩
  · refine fragEnds_cons fun n => ?_
    rw [fragRun, hprocess]
    dsimp only
    rw [if_neg (by decide), hreq, if_neg (by simp [hq.fragMode])]
  · unfold fragMiddle
    dsimp only
    rw [hq.command, hsizes, ← hq.bufOffset, ← hq.cryptoSize, ← hq.macSize, ← hq.model]
    exact startFragment_between (by simp [Queue.setReq])
      (by simp [Queue.setReq, hq.fragMode]) hq.entry
  · unfold fragMiddle
    dsimp only
    rw [hq.command, hsizes, ← hq.bufOffset, ← hq.config]
    exact startFragment_piece _ p _ .middle _ _ rfl rfl

end Step

/-- The ranges of the data that reach the destination: those that the engine copies, and the
rest that software finishes with. `mvCesaFragAuthComplete` copies only the bytes it
authenticates, and nothing if the data is in its destination already. -/
def FragTrace.copies (trace : FragTrace) (cmd : Command) : List (ℤ × ℤ) :=
  trace.pieces.map FragPiece.copyRange ++
    match trace.software with
    | none => []
    | some range =>
      if cmd.src.ptr ≠ cmd.dst.ptr then [range] else [(range.1, cmd.size - range.1)]

/-- From `bufOffset` on, the pieces copy all data of the command, at least one byte each and
no more than the buffers hold, and `ranges` are consecutive from `start` to `stop`, all but
the last a number of whole blocks. -/
structure FragTrace.Cuts (trace : FragTrace) (cmd : Command) (ranges : List (ℤ × ℤ))
    (blockSize : ℤ) (bufOffset start stop : ℤ) : Prop where
  copies : Tiles (trace.copies cmd) bufOffset cmd.size
  copySize : ∀ piece ∈ trace.pieces, 0 < piece.copySize ∧ piece.copySize ≤ bothBufSize
  consecutive : Tiles ranges start stop
  blocks : ∀ range ∈ ranges.dropLast, blockSize ∣ range.2

section Cuts

variable {trace : FragTrace} {piece : FragPiece} {cmd : Command} {ranges : List (ℤ × ℤ)}
  {range : ℤ × ℤ} {blockSize bufOffset start stop : ℤ}

/-- One more piece in front. -/
theorem FragTrace.cuts_cons_iff (hoffset : piece.copyOffset = bufOffset)
    (hpos : 0 < piece.copySize) (hle : piece.copySize ≤ bothBufSize) (hstart : range.1 = start)
    (hsize : 0 ≤ range.2) (hblock : blockSize ∣ range.2) :
    (trace.cons piece).Cuts cmd (range :: ranges) blockSize bufOffset start stop ↔
      trace.Cuts cmd ranges blockSize (bufOffset + piece.copySize) (start + range.2) stop := by
  have hdrop : (∀ r ∈ (range :: ranges).dropLast, blockSize ∣ r.2) ↔
      ∀ r ∈ ranges.dropLast, blockSize ∣ r.2 := by
    cases ranges with
    | nil => simp
    | cons next ranges => simp [hblock]
  constructor
  · rintro ⟨hcopies, hcopySize, hranges, hblocks⟩
    exact ⟨hcopies.2.2, fun other hmem => hcopySize other (List.mem_cons_of_mem _ hmem),
      hranges.2.2, hdrop.mp hblocks⟩
  · rintro ⟨hcopies, hcopySize, hranges, hblocks⟩
    refine ⟨⟨hoffset, Int.le_of_lt hpos, hcopies⟩, fun other hmem => ?_,
      ⟨hstart, hsize, hranges⟩, hdrop.mpr hblocks⟩
    rcases List.mem_cons.mp hmem with rfl | hmem
    · exact ⟨hpos, hle⟩
    · exact hcopySize other hmem

/-- The last piece, by the engine. -/
theorem FragTrace.cuts_last_iff (hoffset : piece.copyOffset = bufOffset)
    (hend : bufOffset + piece.copySize = cmd.size) (hpos : 0 < piece.copySize)
    (hle : piece.copySize ≤ bothBufSize) :
    FragTrace.Cuts ⟨[piece], none⟩ cmd [range] blockSize bufOffset start stop ↔
      range.1 = start ∧ 0 ≤ range.2 ∧ start + range.2 = stop := by
  constructor
  · rintro ⟨-, -, hranges, -⟩
    exact hranges
  · intro hranges
    refine ⟨⟨hoffset, Int.le_of_lt hpos, hend⟩, fun other hmem => ?_, hranges, by simp⟩
    obtain rfl := List.mem_singleton.mp hmem
    exact ⟨hpos, hle⟩

end Cuts

end Mv88fxx81.Cesa
