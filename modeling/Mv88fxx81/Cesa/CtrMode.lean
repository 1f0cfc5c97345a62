import Mv88fxx81.Cesa.MbufTransfer
import Mv88fxx81.Cesa.QueueRun
import Mv88fxx81.Cesa.Words

/-!
# Counter mode

In counter mode the engine encrypts counter blocks that `mvCesaCtrModePrepare` writes
to a buffer of its own, and `mvCesaCtrModeComplete` combines the key stream with the
data. The buffer holds whole blocks, and all of it is combined with the data.
-/

namespace Mv88fxx81.Cesa

open Fragments

/-- A block of the cipher. -/
abbrev Block := Fin 16 → UInt8

/-- The loop of `mvCesaCtrModePrepare`: further blocks are written after the one at
`p`, with the first bytes of the block at the start of the buffer. -/
def fillKeyStream : ℕ → ℕ → UInt32 → (ℕ → UInt8) → ℕ → UInt8
  | 0, _, _, buf => buf
  | blocks + 1, p, counter, buf =>
    let buf := memcpy buf (p + 16) buf 0 12
    let buf := storeBytes buf (p + 16 + 12) (storeWord (byteSwap (counter + 1)))
    fillKeyStream blocks (p + 16) (counter + 1) buf

/-- The size of the key stream before it is stored in a `MV_U16`. -/
def paddedLength (cmd : Command) : ℕ := (cmd.cryptoLength.toNat + 15) / 16 * 16

/-- The buffer that `mvCesaCtrModePrepare` fills. It is `none` if there is no memory for
it, and when the entry behind the last fragment is used. -/
def ctrPrepareBuf (keyStream : Bool) (cmd : Command) (src : ℕ → UInt8) (srcSizes : List ℕ) :
    Option (ℕ → UInt8) :=
  if keyStream = false then none
  else
    match mvCesaCopyFromMbuf src srcSizes cmd.ivOffset.toNat 16 with
    | none => none
    | some (_, iv) =>
      let buf := storeBytes (fun _ => 0) 0 iv
      let counter := byteSwap (loadWord (buf 12) (buf 13) (buf 14) (buf 15))
      some (fillKeyStream (paddedLength cmd / 16 - 1) 0 counter buf)

/-- What the engine does with the buffer in electronic codebook mode. -/
def ecbEncrypt (cipher : Block → Block) (buf : ℕ → UInt8) : ℕ → UInt8 :=
  fun j => cipher (fun i => buf (j / 16 * 16 + i)) ⟨j % 16, Nat.mod_lt _ (by decide)⟩

/-- A fragment number with an offset in it: the sizes from the fragment on, and the
position of its start. -/
structure XorCursor where
  frags : List ℕ
  start : ℕ
  offset : ℕ

/-- The result of `mvCesaMbufOffset` as `mvCesaCtrModeComplete` uses it. -/
def xorCursor (sizes : List ℕ) (offset : ℕ) : XorCursor :=
  match mbufOffsetLoop sizes 0 offset with
  | none => ⟨[], 0, 0⟩
  | some (frag, fragOffset) => ⟨sizes.drop frag, (sizes.take frag).sum, fragOffset⟩

/-- The position of the byte that is accessed, if it is in the fragment. -/
def XorCursor.pos (c : XorCursor) : Option ℕ :=
  match c.frags with
  | [] => none
  | size :: _ => if c.offset < size then some (c.start + c.offset) else none

/-- The next byte, in the same fragment or at the start of the next one. -/
def XorCursor.step (c : XorCursor) : XorCursor :=
  match c.frags with
  | [] => c
  | size :: rest =>
    if c.offset + 1 ≥ size then ⟨rest, c.start + size, 0⟩ else { c with offset := c.offset + 1 }

/-- The loop of `mvCesaCtrModeComplete`. The source is `none` if it is the destination. -/
def xorLoop (src : Option (ℕ → UInt8)) (key : ℕ → UInt8) :
    ℕ → ℕ → XorCursor → XorCursor → (ℕ → UInt8) → Option (ℕ → UInt8)
  | 0, _, _, _, dst => some dst
  | cryptoSize + 1, keyOffset, s, d, dst =>
    match s.pos, d.pos with
    | some p, some p' =>
      xorLoop src key cryptoSize (keyOffset + 1) s.step d.step
        (Function.update dst p' ((src.getD dst) p ^^^ key keyOffset))
    | _, _ => none

/-- The fragments of the multi-buffers of a command. Without those of a destination the
command works in place. -/
structure CtrShape where
  src : List ℕ
  dst : Option (List ℕ)

/-- `mvCesaCtrModeComplete`, for a key stream of `cryptoSize` bytes. -/
def mvCesaCtrModeComplete (cmd : Command) (cryptoSize : UInt16) (shape : CtrShape)
    (src dst key : ℕ → UInt8) : Option (ℕ → UInt8) :=
  let offset := cmd.cryptoOffset.toNat
  let srcOffset := offset + cmd.cryptoLength.toNat
  match shape.dst with
  | none =>
    xorLoop none key cryptoSize.toNat 0 (xorCursor shape.src offset)
      (xorCursor shape.src offset) src
  | some dstSizes => do
    let dst ←
      if offset > 0 then (mvCesaMbufCopy dst dstSizes 0 src shape.src 0 offset).map (·.2)
      else some dst
    let dst ← xorLoop (some src) key cryptoSize.toNat 0 (xorCursor shape.src offset)
      (xorCursor dstSizes offset) dst
    if cmd.dst.mbufSize.toNat > srcOffset then
      (mvCesaMbufCopy dst dstSizes srcOffset src shape.src srcOffset
        (cmd.dst.mbufSize.toNat - srcOffset)).map (·.2)
    else some dst

/-- A request in counter mode from its preparation to its completion: the bytes of the
destination at the end. -/
def ctrRequest (cipher : Block → Block) (keyStream : Bool) (cmd : Command) (shape : CtrShape)
    (src dst : ℕ → UInt8) : Option (ℕ → UInt8) :=
  match ctrPrepareBuf keyStream cmd src shape.src with
  -- without the buffer, the completion reads a length and a pointer that were never written
  | none => none
  | some buf => mvCesaCtrModeComplete cmd (ctrSize cmd) shape src dst (ecbEncrypt cipher buf)

/-- Every command of a counter mode session with memory for its key stream is accepted by
a queue with a free slot: its offsets and lengths are not checked. -/
theorem mvCesaAction_ctrMode {q : Queue} {cmd : Command} {memory : CtrMemory}
    (hstream : memory.keyStream = true) (hfree : q.resources ≠ 0) (hsid : cmd.sid < q.keys.maxSA)
    (hvalid : (q.keys.sad cmd.sid).valid = true) (hctr : (q.keys.sad cmd.sid).ctrMode = true)
    (hop : operationOf (q.keys.sad cmd.sid).config = cryptoOnly)
    (hblock : (q.keys.sad cmd.sid).cryptoBlockSize = 16) :
    (mvCesaAction cmd (some memory) q).1 = .ok ∨
      (mvCesaAction cmd (some memory) q).1 = .noMore := by
  set ctrCmd := (mvCesaCtrModePrepare memory.keyStream (mvCesaCtrModeInit memory.fresh) cmd).2
    with hctrCmd
  have hcheck : mvCesaFragParamCheck q.is5182 (q.keys.sad cmd.sid) ctrCmd = .ok := by
    rw [hctrCmd, hstream]
    simp [mvCesaFragParamCheck, fragParamCheckCrypto, hop, hblock, mvCesaCtrModePrepare,
      Command.size, bothBufSize]
  have hmode : ∃ fragMode, fragModeOf q.is5182 (q.keys.sad cmd.sid) ctrCmd = .ok fragMode := by
    unfold fragModeOf
    by_cases hsmall : ctrCmd.size ≤ bothBufSize
    · exact ⟨_, if_pos hsmall⟩
    · rw [if_neg hsmall]
      exact ⟨_, if_neg (not_not_intro hcheck)⟩
  obtain ⟨fragMode, hmode⟩ := hmode
  unfold mvCesaAction
  dsimp only
  rw [if_neg hfree, if_neg (by simp [hsid, hvalid]), if_pos hctr, if_neg (not_not_intro hop),
    ← hctrCmd]
  unfold actionQueue
  rw [show
    (q.setReq q.reqEmpty { q.reqs q.reqEmpty with orgCmd := some cmd, fixOffset := 0 }).is5182
    = q.is5182 from rfl, hmode]
  dsimp only
  split
  · exact Or.inr rfl
  · exact Or.inl rfl

/-- The block that is encrypted for block `k` of the data: the first bytes of the IV,
followed by its counter, increased by `k`, as a big-endian word. -/
def ctrBlock (iv : Block) (k : ℕ) : Block := fun i =>
  if i.val < 12 then iv i
  else (storeWord (loadWord (iv 15) (iv 14) (iv 13) (iv 12) + UInt32.ofNat k)).reverse.getD
    (i.val - 12) 0

/-- The IV of a command, in its source. -/
def ctrIV (cmd : Command) (src : ℕ → UInt8) : Block := fun i => src (cmd.ivOffset.toNat + i)

/-- What a request in counter mode is for: the source, with `length` bytes from `offset`
on combined with the key stream. -/
def ctrSpec (cipher : Block → Block) (iv : Block) (offset length : ℕ) (src : ℕ → UInt8) :
    ℕ → UInt8 := fun x =>
  if offset ≤ x ∧ x < offset + length then
    src x ^^^ cipher (ctrBlock iv ((x - offset) / 16)) ⟨(x - offset) % 16, Nat.mod_lt _ (by decide)⟩
  else src x

section Prepare

variable {src : ℕ → UInt8}

/-- The loop writes the following counter blocks and nothing else. -/
theorem fillKeyStream_spec (blocks p : ℕ) (counter : UInt32) {buf : ℕ → UInt8} {iv : Block}
    (hiv : ∀ i : Fin 16, i.val < 12 → buf i = iv i) :
    (∀ x, x < p + 16 ∨ p + 16 * (blocks + 1) ≤ x → fillKeyStream blocks p counter buf x = buf x) ∧
      ∀ k < blocks, ∀ i : Fin 16, fillKeyStream blocks p counter buf (p + 16 * (k + 1) + i) =
        if i.val < 12 then iv i
        else (storeWord (counter + UInt32.ofNat (k + 1))).reverse.getD (i.val - 12) 0 := by
  induction blocks generalizing p counter buf with
  | zero => exact ⟨fun x _ => rfl, fun k hk => by omega⟩
  | succ blocks ih =>
    set buf' := storeBytes (memcpy buf (p + 16) buf 0 12) (p + 16 + 12)
      (storeWord (byteSwap (counter + 1))) with hbuf'
    have houtside : ∀ x, x < p + 16 ∨ p + 32 ≤ x → buf' x = buf x := by
      intro x hx
      rw [hbuf', storeBytes, if_neg (by simp only [storeWord_length]; omega), memcpy,
        if_neg (by omega)]
    have hblock : ∀ i : Fin 16, buf' (p + 16 + i) = if i.val < 12 then iv i
        else (storeWord (counter + 1)).reverse.getD (i.val - 12) 0 := by
      intro i
      have hi := i.isLt
      rw [hbuf', storeBytes]
      by_cases hlow : i.val < 12
      · rw [if_neg (by omega), if_pos hlow, memcpy, if_pos (by omega), ← hiv i hlow]
        congr 1
        omega
      · rw [if_pos (by simp only [storeWord_length]; omega), if_neg hlow, storeWord_byteSwap]
        congr 1
        omega
    have hiv' : ∀ i : Fin 16, i.val < 12 → buf' i = iv i := by
      intro i hi
      rw [houtside _ (by omega)]
      exact hiv i hi
    obtain ⟨hframe, hblocks⟩ := ih (p + 16) (counter + 1) hiv'
    have hfill : fillKeyStream (blocks + 1) p counter buf =
        fillKeyStream blocks (p + 16) (counter + 1) buf' := rfl
    rw [hfill]
    constructor
    · intro x hx
      rw [hframe x (by omega), houtside x (by omega)]
    · intro k hk i
      have hi := i.isLt
      cases k with
      | zero =>
        rw [show p + 16 * (0 + 1) + (i : ℕ) = p + 16 + i by omega, hframe _ (by omega), hblock]
        rfl
      | succ k =>
        have hcounter :
            counter + 1 + UInt32.ofNat (k + 1) = counter + UInt32.ofNat (k + 1 + 1) := by
          rw [UInt32.add_assoc, UInt32.add_comm 1]
          congr 1
          rw [UInt32.ofNat_add (k + 1) 1]
          rfl
        rw [← hcounter, ← hblocks k (by omega) i]
        congr 1
        omega

/-- The first block is the IV itself. -/
theorem ctrBlock_zero (iv : Block) : ctrBlock iv 0 = iv := by
  have hword : (storeWord (loadWord (iv 15) (iv 14) (iv 13) (iv 12) + UInt32.ofNat 0)).reverse =
      [iv 12, iv 13, iv 14, iv 15] := by
    rw [show UInt32.ofNat 0 = 0 from rfl, UInt32.add_zero, storeWord_loadWord]
    rfl
  funext ⟨i, hi⟩
  unfold ctrBlock
  rw [hword]
  interval_cases i <;> rfl

/-- The IV of a command can be read: it is in the data if anything is to be encrypted, and
the entry behind the last fragment is not used for it. -/
def IvFits (cmd : Command) (sizes : List ℕ) : Prop :=
  (cmd.ivOffset.toNat = sizes.sum → EmptyAt sizes sizes.sum) ∧
    (cmd.cryptoLength.toNat ≠ 0 → cmd.ivOffset.toNat + 16 ≤ sizes.sum)

instance (cmd : Command) (sizes : List ℕ) : Decidable (IvFits cmd sizes) :=
  inferInstanceAs (Decidable (_ ∧ _))

/-- The buffer begins with the bytes of the IV, and zeros where the data ends before. -/
theorem ctrPrepareBuf_start (src : ℕ → UInt8) {cmd : Command} {sizes : List ℕ}
    (hread : cmd.ivOffset.toNat = sizes.sum → EmptyAt sizes sizes.sum) :
    ∃ first, (∀ i : Fin 16, first i =
        if cmd.ivOffset.toNat + i < sizes.sum then ctrIV cmd src i else 0) ∧
      ctrPrepareBuf true cmd src sizes = some (fillKeyStream (paddedLength cmd / 16 - 1) 0
        (byteSwap (loadWord (first 12) (first 13) (first 14) (first 15))) first) := by
  obtain ⟨status, hcopy⟩ := @mvCesaCopyFromMbuf_part src _ _ _ (show 0 < 16 by omega) hread
  refine ⟨_, fun i => ?_, by rw [ctrPrepareBuf, if_neg (by simp), hcopy]⟩
  have hi := i.isLt
  simp only [storeBytes, bytesAt, List.length_map, List.length_range]
  by_cases hin : cmd.ivOffset.toNat + i < sizes.sum
  · rw [if_pos hin, if_pos (by omega)]
    exact bytesAt_getD (by omega)
  · rw [if_neg hin, if_neg (by omega)]

/-- `mvCesaCtrModePrepare` writes the counter blocks for the data. -/
theorem ctrPrepareBuf_spec (src : ℕ → UInt8) {cmd : Command} {sizes : List ℕ}
    (hiv : IvFits cmd sizes) :
    ∃ buf, ctrPrepareBuf true cmd src sizes = some buf ∧
      ∀ k < paddedLength cmd / 16, ∀ i : Fin 16,
        buf (k * 16 + i) = ctrBlock (ctrIV cmd src) k i := by
  obtain ⟨first, hfirst, hbuf⟩ := ctrPrepareBuf_start src hiv.1
  refine ⟨_, hbuf, fun k hk i => ?_⟩
  have hinside : cmd.ivOffset.toNat + 16 ≤ sizes.sum := by
    refine hiv.2 fun hzero => ?_
    rw [paddedLength, hzero] at hk
    omega
  have hstart : ∀ i : Fin 16, first i = ctrIV cmd src i := by
    intro i
    have hi := i.isLt
    rw [hfirst, if_pos (by omega)]
  have hcounter : byteSwap (loadWord (first 12) (first 13) (first 14) (first 15)) =
      loadWord (ctrIV cmd src 15) (ctrIV cmd src 14) (ctrIV cmd src 13) (ctrIV cmd src 12) := by
    rw [byteSwap_loadWord]
    exact congrArg₂ (fun a b => a b) (congrArg₂ (fun a b => a b) (congrArg₂ (fun a b => a b)
      (congrArg loadWord (hstart 15)) (hstart 14)) (hstart 13)) (hstart 12)
  obtain ⟨hframe, hblocks⟩ := fillKeyStream_spec (paddedLength cmd / 16 - 1) 0
    (byteSwap (loadWord (first 12) (first 13) (first 14) (first 15)))
    fun i (_ : i.val < 12) => hstart i
  have hi := i.isLt
  cases k with
  | zero =>
    rw [show 0 * 16 + (i : ℕ) = i by omega, hframe _ (by omega), hstart, ctrBlock_zero]
  | succ k =>
    rw [show (k + 1) * 16 + (i : ℕ) = 0 + 16 * (k + 1) + i by omega, hblocks k (by omega) i,
      hcounter]
    rfl

/-- A byte of the IV that is not in the data is zero in the buffer. -/
theorem ctrPrepareBuf_missing {src buf : ℕ → UInt8} {cmd : Command} {sizes : List ℕ} {i : Fin 16}
    (hread : cmd.ivOffset.toNat = sizes.sum → EmptyAt sizes sizes.sum)
    (hbuf : ctrPrepareBuf true cmd src sizes = some buf)
    (hmissing : sizes.sum ≤ cmd.ivOffset.toNat + i) : buf i = 0 := by
  obtain ⟨first, hfirst, hsome⟩ := ctrPrepareBuf_start src hread
  have hi := i.isLt
  have hframe := (@fillKeyStream_spec (paddedLength cmd / 16 - 1) 0
    (byteSwap (loadWord (first 12) (first 13) (first 14) (first 15))) _
    (fun i => first i) fun _ _ => rfl).1 i (by omega)
  rw [hsome] at hbuf
  rw [← Option.some.inj hbuf, hframe, hfirst, if_neg (by omega)]

/-- Without a buffer for the key stream there is no result. -/
theorem ctrPrepareBuf_none {keyStream : Bool} {cmd : Command} {src : ℕ → UInt8} {sizes : List ℕ}
    (hnone : keyStream = false ∨ (cmd.ivOffset.toNat = sizes.sum ∧ ¬ EmptyAt sizes sizes.sum)) :
    ctrPrepareBuf keyStream cmd src sizes = none := by
  unfold ctrPrepareBuf
  split
  · rfl
  · rename_i hmemory
    obtain ⟨hend, hempty⟩ := hnone.resolve_left hmemory
    rw [hend, mvCesaCopyFromMbuf_end (by omega) hempty]

end Prepare

/-- A walk byte by byte from `offset` on through `n` bytes succeeds: they are in the
data, and none of them is where an empty fragment begins. -/
def Walkable (sizes : List ℕ) (offset n : ℕ) : Prop :=
  (n = 0 ∨ offset + n ≤ sizes.sum) ∧ ∀ q < n, ¬ EmptyAt sizes (offset + q)

instance (sizes : List ℕ) (offset n : ℕ) : Decidable (Walkable sizes offset n) :=
  inferInstanceAs (Decidable (_ ∧ _))

/-- The cursor that `mvCesaCtrModeComplete` begins with. -/
theorem xorCursor_spec (sizes : List ℕ) {offset : ℕ} (hrange : offset ≤ sizes.sum) (n : ℕ) :
    (xorCursor sizes offset).start + (xorCursor sizes offset).offset = offset ∧
      (Walks (xorCursor sizes offset).frags (xorCursor sizes offset).offset n ↔
        Walkable sizes offset n) := by
  obtain ⟨k, fragOffset, hloop, hlocated⟩ := mbufOffsetLoop_located 0 hrange
  have hstart := hlocated.start
  have hsum := hlocated.sum
  rw [Nat.zero_add] at hloop
  unfold xorCursor
  rw [hloop]
  refine ⟨hstart, ?_⟩
  dsimp only
  rw [walks_iff hlocated.inside]
  unfold Walkable
  have hend : fragOffset + n ≤ (sizes.drop k).sum ↔ offset + n ≤ sizes.sum := by omega
  rw [hend]
  simp only [hlocated.emptyAt]

section Xor

variable {src : Option (ℕ → UInt8)} {key : ℕ → UInt8} {n keyOffset p : ℕ} {s d : XorCursor}
  {dst : ℕ → UInt8}

/-- A byte is accessed only inside of a fragment. -/
theorem XorCursor.walks_succ {c : XorCursor} :
    Walks c.frags c.offset (n + 1) ↔
      (∃ p, c.pos = some p) ∧ Walks c.step.frags c.step.offset n := by
  unfold XorCursor.pos XorCursor.step
  cases hfrags : c.frags with
  | nil => simp [Walks]
  | cons size rest =>
    simp only [Walks]
    by_cases hinside : c.offset < size
    · by_cases hnext : c.offset + 1 < size
      · simp [hinside, hnext, show ¬ c.offset + 1 ≥ size by omega]
      · simp [hinside, hnext, show c.offset + 1 ≥ size by omega]
    · simp [hinside]

/-- The byte that is accessed and the next one. -/
theorem XorCursor.pos_eq {c : XorCursor} (hpos : c.pos = some p) :
    c.start + c.offset = p ∧ c.step.start + c.step.offset = p + 1 := by
  unfold XorCursor.pos at hpos
  unfold XorCursor.step
  cases hfrags : c.frags with
  | nil => simp [hfrags] at hpos
  | cons size rest =>
    simp only [hfrags] at hpos
    split_ifs at hpos with hinside
    have hsame := Option.some.inj hpos
    refine ⟨hsame, ?_⟩
    dsimp only
    split_ifs with hend
    · dsimp only
      omega
    · dsimp only
      omega

/-- The loop combines the bytes of both walks with the key stream. -/
theorem xorLoop_walks (hs : Walks s.frags s.offset n) (hd : Walks d.frags d.offset n)
    (hsp : s.start + s.offset = p) (hdp : d.start + d.offset = p) :
    xorLoop src key n keyOffset s d dst = some fun x =>
      if p ≤ x ∧ x < p + n then src.getD dst x ^^^ key (keyOffset + (x - p)) else dst x := by
  induction n generalizing keyOffset p s d dst with
  | zero =>
    rw [xorLoop]
    congr 1
    funext x
    rw [if_neg (by omega)]
  | succ n ih =>
    obtain ⟨⟨p₁, hsPos⟩, hs'⟩ := XorCursor.walks_succ.mp hs
    obtain ⟨⟨p₂, hdPos⟩, hd'⟩ := XorCursor.walks_succ.mp hd
    obtain ⟨hs₁, hs₂⟩ := XorCursor.pos_eq hsPos
    obtain ⟨hd₁, hd₂⟩ := XorCursor.pos_eq hdPos
    obtain rfl : p₁ = p := by omega
    obtain rfl : p₂ = p₁ := by omega
    rw [xorLoop, hsPos, hdPos]
    dsimp only
    rw [ih hs' hd' hs₂ hd₂]
    congr 1
    funext x
    by_cases hx : p₂ + 1 ≤ x ∧ x < p₂ + 1 + n
    · rw [if_pos hx, if_pos (by omega), show keyOffset + 1 + (x - (p₂ + 1)) =
        keyOffset + (x - p₂) by
        omega]
      -- In place, the bytes still to be read were not written yet.
      cases src with
      | none => simp [Function.update_of_ne (show x ≠ p₂ by omega)]
      | some src => rfl
    · rw [if_neg hx]
      by_cases hfirst : x = p₂
      · subst hfirst
        rw [Function.update_self, if_pos (by omega), Nat.sub_self, Nat.add_zero]
      · rw [Function.update_of_ne hfirst, if_neg (by omega)]

/-- The loop leaves the fragments if one of the walks does. -/
theorem xorLoop_fault (hfault : ¬ (Walks s.frags s.offset n ∧ Walks d.frags d.offset n)) :
    xorLoop src key n keyOffset s d dst = none := by
  induction n generalizing keyOffset s d dst with
  | zero => exact absurd ⟨by simp [Walks], by simp [Walks]⟩ hfault
  | succ n ih =>
    rw [xorLoop]
    cases hs : s.pos with
    | none => rfl
    | some p₁ =>
      cases hd : d.pos with
      | none => rfl
      | some p₂ =>
        dsimp only
        apply ih
        rintro ⟨hs', hd'⟩
        exact hfault ⟨XorCursor.walks_succ.mpr ⟨⟨p₁, hs⟩, hs'⟩,
          XorCursor.walks_succ.mpr ⟨⟨p₂, hd⟩, hd'⟩⟩

/-- The loop from an offset on: it leaves the fragments, or combines `n` bytes. -/
theorem xorLoop_cursors (sSizes dSizes : List ℕ) (offset : ℕ) :
    (¬ (Walkable sSizes offset n ∧ Walkable dSizes offset n) ∧
        xorLoop src key n 0 (xorCursor sSizes offset) (xorCursor dSizes offset) dst = none) ∨
      ((Walkable sSizes offset n ∧ Walkable dSizes offset n) ∧
        xorLoop src key n 0 (xorCursor sSizes offset) (xorCursor dSizes offset) dst =
          some fun x => if offset ≤ x ∧ x < offset + n then src.getD dst x ^^^ key (x - offset)
            else dst x) := by
  by_cases hzero : n = 0
  · subst hzero
    have hwalk : ∀ sizes, Walkable sizes offset 0 := fun sizes => ⟨Or.inl rfl, by simp⟩
    refine Or.inr ⟨⟨hwalk sSizes, hwalk dSizes⟩, ?_⟩
    rw [xorLoop]
    congr 1
    funext x
    rw [if_neg (by omega)]
  by_cases hinside : offset ≤ sSizes.sum ∧ offset ≤ dSizes.sum
  · obtain ⟨hsp, hsw⟩ := xorCursor_spec sSizes hinside.1 n
    obtain ⟨hdp, hdw⟩ := xorCursor_spec dSizes hinside.2 n
    by_cases hwalk : Walkable sSizes offset n ∧ Walkable dSizes offset n
    · refine Or.inr ⟨hwalk, ?_⟩
      rw [xorLoop_walks (hsw.mpr hwalk.1) (hdw.mpr hwalk.2) hsp hdp]
      simp only [Nat.zero_add]
    · refine Or.inl ⟨hwalk, xorLoop_fault ?_⟩
      rintro ⟨hs, hd⟩
      exact hwalk ⟨hsw.mp hs, hdw.mp hd⟩
  · -- A cursor behind the data is at no fragment.
    have houtside : ∀ sizes : List ℕ, sizes.sum < offset →
        ¬ Walkable sizes offset n ∧ (xorCursor sizes offset).pos = none := by
      intro sizes hlt
      refine ⟨fun hwalk => ?_, ?_⟩
      · have := hwalk.1
        omega
      · rw [xorCursor, mbufOffsetLoop_none 0 hlt]
        rfl
    obtain ⟨n, rfl⟩ := Nat.exists_eq_succ_of_ne_zero hzero
    rcases Nat.lt_or_ge sSizes.sum offset with hs | hs
    · refine Or.inl ⟨fun h => (houtside _ hs).1 h.1, ?_⟩
      rw [xorLoop, (houtside _ hs).2]
    · have hd := houtside dSizes (by omega)
      refine Or.inl ⟨fun h => hd.1 h.2, ?_⟩
      rw [xorLoop, hd.2]
      cases (xorCursor sSizes offset).pos <;> rfl

end Xor

/-- The destination of a request is as it should be: as long as the source, the bytes of the
range are those that are combined with the key stream, and the other ones are those of the
source. -/
def CtrCorrect (cipher : Block → Block) (keyStream : Bool) (cmd : Command) (shape : CtrShape)
    (src dst : ℕ → UInt8) : Prop :=
  (∀ dstSizes ∈ shape.dst, dstSizes.sum = shape.src.sum) ∧
  ∃ out, ctrRequest cipher keyStream cmd shape src dst = some out ∧
    ∀ x, x < shape.src.sum ∨ (cmd.cryptoOffset.toNat ≤ x ∧
        x < cmd.cryptoOffset.toNat + cmd.cryptoLength.toNat) →
      out x = ctrSpec cipher (ctrIV cmd src) cmd.cryptoOffset.toNat cmd.cryptoLength.toNat src x

/-- The size of the key stream in a `MV_U16`: too large ones are lost. -/
theorem ctrSize_toNat (cmd : Command) :
    (ctrSize cmd).toNat = if cmd.cryptoLength.toNat ≤ 65520 then paddedLength cmd else 0 := by
  have hlt := cmd.cryptoLength.toNat_lt
  unfold ctrSize paddedLength
  rw [UInt16.toNat_ofNat']
  split_ifs <;> omega

/-- The key stream of the engine is that of the specification. -/
theorem ecbEncrypt_spec {cmd : Command} {iv : Block} {buf : ℕ → UInt8} (cipher : Block → Block)
    (hbuf : ∀ k < paddedLength cmd / 16, ∀ i : Fin 16, buf (k * 16 + i) = ctrBlock iv k i) {j : ℕ}
    (hj : j < cmd.cryptoLength.toNat) :
    ecbEncrypt cipher buf j = cipher (ctrBlock iv (j / 16)) ⟨j % 16, Nat.mod_lt _ (by decide)⟩ := by
  have hk : j / 16 < paddedLength cmd / 16 := by
    unfold paddedLength
    omega
  unfold ecbEncrypt
  rw [funext fun i => hbuf (j / 16) hk i]

/-- Requests that are right for all keys and data need memory for the key stream and an IV
that can be read. -/
theorem CtrCorrect.memory {cipher : Block → Block} {keyStream : Bool} {cmd : Command}
    {shape : CtrShape} {src dst : ℕ → UInt8}
    (hcorrect : CtrCorrect cipher keyStream cmd shape src dst) :
    keyStream = true ∧
      (cmd.ivOffset.toNat = shape.src.sum → EmptyAt shape.src shape.src.sum) := by
  obtain ⟨-, out, hout, -⟩ := hcorrect
  have hsome : ctrPrepareBuf keyStream cmd src shape.src ≠ none := by
    intro hnone
    rw [ctrRequest, hnone] at hout
    cases hout
  constructor
  · by_contra hmemory
    exact hsome (ctrPrepareBuf_none (Or.inl (Bool.not_eq_true _ ▸ hmemory)))
  · intro hend
    by_contra hempty
    exact hsome (ctrPrepareBuf_none (Or.inr ⟨hend, hempty⟩))

/-- The last byte of an IV is in the data if the key stream depends on it. -/
theorem ivFits_of_firstByte {cmd : Command} {sizes : List ℕ} {src buf : ℕ → UInt8}
    (hread : cmd.ivOffset.toNat = sizes.sum → EmptyAt sizes sizes.sum)
    (hbuf : ctrPrepareBuf true cmd src sizes = some buf)
    (hsrc : src = marker (cmd.ivOffset.toNat + 15))
    (hbyte : cmd.cryptoLength.toNat ≠ 0 →
      src cmd.cryptoOffset.toNat ^^^ ecbEncrypt (fun b _ => b 15) buf 0 =
        src cmd.cryptoOffset.toNat ^^^ ctrIV cmd src 15) : IvFits cmd sizes := by
  refine ⟨hread, fun hne => ?_⟩
  by_contra hmissing
  have hzero : buf 15 = 0 := ctrPrepareBuf_missing (i := 15) hread hbuf (by
    show sizes.sum ≤ cmd.ivOffset.toNat + 15
    omega)
  have hone : ctrIV cmd src 15 = 1 := by
    rw [hsrc]
    exact if_pos rfl
  have hsame := UInt8.xor_right_inj _ |>.mp (hbyte hne)
  rw [hone] at hsame
  exact absurd (hsame.symm.trans hzero) (by decide)

section InPlace

variable {cmd : Command} {sizes : List ℕ}

/-- A request in place. -/
theorem ctrRequest_inPlace (cipher : Block → Block) (dst : ℕ → UInt8) {src buf : ℕ → UInt8}
    (hbuf : ctrPrepareBuf true cmd src sizes = some buf) :
    (¬ Walkable sizes cmd.cryptoOffset.toNat (ctrSize cmd).toNat ∧
        ctrRequest cipher true cmd ⟨sizes, none⟩ src dst = none) ∨
      (Walkable sizes cmd.cryptoOffset.toNat (ctrSize cmd).toNat ∧
        ctrRequest cipher true cmd ⟨sizes, none⟩ src dst = some fun x =>
          if cmd.cryptoOffset.toNat ≤ x ∧ x < cmd.cryptoOffset.toNat + (ctrSize cmd).toNat then
            src x ^^^ ecbEncrypt cipher buf (x - cmd.cryptoOffset.toNat) else src x) := by
  unfold ctrRequest
  rw [hbuf]
  rcases @xorLoop_cursors none (ecbEncrypt cipher buf) (ctrSize cmd).toNat src sizes sizes
    cmd.cryptoOffset.toNat with ⟨hfault, hnone⟩ | ⟨hwalk, hsome⟩
  · exact Or.inl ⟨fun h => hfault ⟨h, h⟩, hnone⟩
  · exact Or.inr ⟨hwalk.1, hsome⟩

/-- Requests in place are right just if there is memory for the key stream, the IV can be
read, the length is a number of whole blocks, and the walk through them succeeds. -/
theorem ctrCorrect_inPlace {keyStream : Bool} :
    (∀ cipher src dst, CtrCorrect cipher keyStream cmd ⟨sizes, none⟩ src dst) ↔
      keyStream = true ∧ IvFits cmd sizes ∧ 16 ∣ cmd.cryptoLength.toNat ∧
        Walkable sizes cmd.cryptoOffset.toNat cmd.cryptoLength.toNat := by
  have hsize := ctrSize_toNat cmd
  have hlt := cmd.cryptoLength.toNat_lt
  constructor
  · intro hall
    obtain ⟨rfl, hread⟩ := (hall (fun _ _ => 0) (fun _ => 0) fun _ => 0).memory
    -- Every request ends, and its bytes are right.
    have hparts : ∀ cipher src, ∃ buf, ctrPrepareBuf true cmd src sizes = some buf ∧
        Walkable sizes cmd.cryptoOffset.toNat (ctrSize cmd).toNat ∧
        ∀ x, x < sizes.sum ∨ (cmd.cryptoOffset.toNat ≤ x ∧
            x < cmd.cryptoOffset.toNat + cmd.cryptoLength.toNat) →
          (if cmd.cryptoOffset.toNat ≤ x ∧ x < cmd.cryptoOffset.toNat + (ctrSize cmd).toNat then
            src x ^^^ ecbEncrypt cipher buf (x - cmd.cryptoOffset.toNat) else src x) =
          ctrSpec cipher (ctrIV cmd src) cmd.cryptoOffset.toNat cmd.cryptoLength.toNat src x := by
      intro cipher src
      obtain ⟨first, -, hbuf⟩ := ctrPrepareBuf_start src hread
      obtain ⟨-, out, hout, hspec⟩ := hall cipher src fun _ => 0
      rcases ctrRequest_inPlace cipher (fun _ => 0) hbuf with ⟨-, hnone⟩ | ⟨hwalk, hsome⟩
      · rw [hnone] at hout
        cases hout
      · rw [hsome] at hout
        obtain rfl := Option.some.inj hout
        exact ⟨_, hbuf, hwalk, hspec⟩
    obtain ⟨buf, -, hwalk, hspec⟩ := hparts (fun _ _ => 1) fun _ => 0
    have hfits : cmd.cryptoLength.toNat ≤ 65520 := by
      by_contra hlarge
      -- The size of the key stream is lost, and nothing is encrypted.
      rw [if_neg hlarge] at hsize
      have hbyte := hspec cmd.cryptoOffset.toNat (by omega)
      rw [if_neg (by omega), ctrSpec, if_pos (by omega)] at hbyte
      exact absurd hbyte (by decide)
    rw [if_pos hfits] at hsize
    have hwhole : 16 ∣ cmd.cryptoLength.toNat := by
      by_contra hpart
      -- The byte behind the range is combined with the rest of the key stream.
      have hpadded : cmd.cryptoLength.toNat < paddedLength cmd := by
        unfold paddedLength
        omega
      have hin : cmd.cryptoOffset.toNat + cmd.cryptoLength.toNat < sizes.sum := by
        have := hwalk.1
        omega
      have hbyte := hspec _ (Or.inl hin)
      rw [if_pos (by omega), ctrSpec, if_neg (by omega)] at hbyte
      have hbyte : (0 : UInt8) ^^^ 1 = 0 := hbyte
      exact absurd hbyte (by decide)
    have hpadded : (ctrSize cmd).toNat = cmd.cryptoLength.toNat := by
      rw [hsize]
      unfold paddedLength
      omega
    rw [hpadded] at hwalk
    refine ⟨rfl, ?_, hwhole, hwalk⟩
    obtain ⟨buf, hbuf, -, hspec⟩ := hparts (fun b _ => b 15) (marker (cmd.ivOffset.toNat + 15))
    refine ivFits_of_firstByte hread hbuf rfl fun hne => ?_
    have hbyte := hspec cmd.cryptoOffset.toNat (by omega)
    rw [if_pos (by omega), ctrSpec, if_pos (by omega), Nat.sub_self] at hbyte
    rw [hbyte, Nat.zero_div, ctrBlock_zero]
  · rintro ⟨rfl, hiv, hwhole, hwalk⟩ cipher src dst
    have hpadded : (ctrSize cmd).toNat = cmd.cryptoLength.toNat := by
      rw [hsize, if_pos (by omega)]
      unfold paddedLength
      omega
    obtain ⟨buf, hbuf, hblocks⟩ := ctrPrepareBuf_spec src hiv
    rcases ctrRequest_inPlace cipher dst hbuf with ⟨hfault, -⟩ | ⟨-, hsome⟩
    · rw [hpadded] at hfault
      exact absurd hwalk hfault
    · refine ⟨nofun, _, hsome, fun x _ => ?_⟩
      rw [hpadded]
      unfold ctrSpec
      by_cases hx : cmd.cryptoOffset.toNat ≤ x ∧
          x < cmd.cryptoOffset.toNat + cmd.cryptoLength.toNat
      · rw [if_pos hx, if_pos hx, ecbEncrypt_spec cipher hblocks (by omega)]
      · rw [if_neg hx, if_neg hx]

end InPlace

section Apart

variable {cmd : Command} {srcSizes dstSizes : List ℕ}

/-- The completion of a request with two multi-buffers is a copy of what is before the
range, the combination with the key stream, and a copy of what is behind the range. -/
theorem mvCesaCtrModeComplete_apart {cryptoSize : UInt16} {src dst key : ℕ → UInt8}
    (hdst : dstSizes.sum = cmd.dst.mbufSize.toNat) :
    mvCesaCtrModeComplete cmd cryptoSize ⟨srcSizes, some dstSizes⟩ src dst key =
      ((mvCesaMbufCopy dst dstSizes 0 src srcSizes 0 cmd.cryptoOffset.toNat).map (·.2)).bind
        fun dst₁ => (xorLoop (some src) key cryptoSize.toNat 0
          (xorCursor srcSizes cmd.cryptoOffset.toNat)
          (xorCursor dstSizes cmd.cryptoOffset.toNat) dst₁).bind
        fun dst₂ => (mvCesaMbufCopy dst₂ dstSizes
          (cmd.cryptoOffset.toNat + cmd.cryptoLength.toNat) src srcSizes
          (cmd.cryptoOffset.toNat + cmd.cryptoLength.toNat)
          (dstSizes.sum - (cmd.cryptoOffset.toNat + cmd.cryptoLength.toNat))).map (·.2) := by
  have hempty : ∀ (dst : ℕ → UInt8) offset,
    mvCesaMbufCopy dst dstSizes offset src srcSizes offset 0 =
      some (.ok, dst) := fun _ _ => if_pos rfl
  unfold mvCesaCtrModeComplete
  dsimp only
  rw [← hdst]
  by_cases hstart : cmd.cryptoOffset.toNat > 0
  · rw [if_pos hstart]
    by_cases hend : dstSizes.sum > cmd.cryptoOffset.toNat + cmd.cryptoLength.toNat
    · simp only [if_pos hend]
      rfl
    · have hzero : dstSizes.sum - (cmd.cryptoOffset.toNat + cmd.cryptoLength.toNat) = 0 := by omega
      simp only [if_neg hend, hzero, hempty]
      rfl
  · have hfirst : cmd.cryptoOffset.toNat = 0 := by omega
    rw [if_neg hstart]
    by_cases hend : dstSizes.sum > cmd.cryptoOffset.toNat + cmd.cryptoLength.toNat
    · simp only [if_pos hend]
      simp only [hfirst, hempty]
      rfl
    · have hzero : dstSizes.sum - (cmd.cryptoOffset.toNat + cmd.cryptoLength.toNat) = 0 := by omega
      simp only [if_neg hend, hzero, hempty]
      simp only [hfirst, hempty]
      rfl

/-- The copy of what is behind a position does not touch the bytes before. -/
theorem mvCesaMbufCopy_behind (src dst : ℕ → UInt8) (hsame : dstSizes.sum = srcSizes.sum)
    (offset : ℕ) :
    ∃ status copied, mvCesaMbufCopy dst dstSizes offset src srcSizes offset
        (dstSizes.sum - offset) = some (status, copied) ∧ ∀ x < offset, copied x = dst x := by
  rcases Nat.le_total offset dstSizes.sum with hle | hge
  · obtain ⟨status, copied, hcopy, hkept⟩ := mvCesaMbufCopy_frame src dst
      (show offset + (dstSizes.sum - offset) ≤ srcSizes.sum by omega)
      (show offset + (dstSizes.sum - offset) ≤ dstSizes.sum by omega)
    exact ⟨status, copied, hcopy, fun x hx => hkept x (Or.inl hx)⟩
  · exact ⟨.ok, dst, if_pos (Nat.sub_eq_zero_of_le hge), fun _ _ => rfl⟩

/-- The parts of a request with two multi-buffers, for a walk that succeeds. The bytes
before the range are those of the first copy, those behind it are those of the second
one. -/
structure Apart (cmd : Command) (srcSizes dstSizes : List ℕ) (src dst key out : ℕ → UInt8) :
    Prop where
  before : ∃ status copied, mvCesaMbufCopy dst dstSizes 0 src srcSizes 0
    (min cmd.cryptoOffset.toNat srcSizes.sum) = some (status, copied) ∧
      ∀ x < min cmd.cryptoOffset.toNat srcSizes.sum, out x = copied x
  inside : ∀ x, cmd.cryptoOffset.toNat ≤ x →
    x < cmd.cryptoOffset.toNat + cmd.cryptoLength.toNat →
    out x = if x < cmd.cryptoOffset.toNat + (ctrSize cmd).toNat then
      src x ^^^ key (x - cmd.cryptoOffset.toNat) else dst x
  behind : ∃ dst₂ status, mvCesaMbufCopy dst₂ dstSizes
    (cmd.cryptoOffset.toNat + cmd.cryptoLength.toNat) src srcSizes
    (cmd.cryptoOffset.toNat + cmd.cryptoLength.toNat)
    (dstSizes.sum - (cmd.cryptoOffset.toNat + cmd.cryptoLength.toNat)) = some (status, out)

/-- A request with two multi-buffers. -/
theorem ctrRequest_apart (cipher : Block → Block) (dst : ℕ → UInt8) {src buf : ℕ → UInt8}
    (hdst : dstSizes.sum = cmd.dst.mbufSize.toNat) (hsame : dstSizes.sum = srcSizes.sum)
    (hfrags : srcSizes.sum < cmd.cryptoOffset.toNat → srcSizes ≠ [] ∧ dstSizes ≠ [])
    (hbuf : ctrPrepareBuf true cmd src srcSizes = some buf) :
    (¬ (Walkable srcSizes cmd.cryptoOffset.toNat (ctrSize cmd).toNat ∧
          Walkable dstSizes cmd.cryptoOffset.toNat (ctrSize cmd).toNat) ∧
        ctrRequest cipher true cmd ⟨srcSizes, some dstSizes⟩ src dst = none) ∨
      ((Walkable srcSizes cmd.cryptoOffset.toNat (ctrSize cmd).toNat ∧
          Walkable dstSizes cmd.cryptoOffset.toNat (ctrSize cmd).toNat) ∧
        ∃ out, ctrRequest cipher true cmd ⟨srcSizes, some dstSizes⟩ src dst = some out ∧
          Apart cmd srcSizes dstSizes src dst (ecbEncrypt cipher buf) out) := by
  obtain ⟨status, copied, hcopy, hkept⟩ := mvCesaMbufCopy_frame src dst
    (show 0 + min cmd.cryptoOffset.toNat srcSizes.sum ≤ srcSizes.sum by omega)
    (show 0 + min cmd.cryptoOffset.toNat srcSizes.sum ≤ dstSizes.sum by omega)
  unfold ctrRequest
  rw [hbuf]
  dsimp only
  rw [mvCesaCtrModeComplete_apart hdst, mvCesaMbufCopy_beyond src dst hsame hfrags, hcopy,
    Option.map_some, Option.bind_some]
  rcases @xorLoop_cursors (some src) (ecbEncrypt cipher buf) (ctrSize cmd).toNat copied srcSizes
    dstSizes cmd.cryptoOffset.toNat with ⟨hfault, hnone⟩ | ⟨hwalk, hsome⟩
  · refine Or.inl ⟨hfault, ?_⟩
    rw [hnone, Option.bind_none]
  refine Or.inr ⟨hwalk, ?_⟩
  rw [hsome, Option.bind_some]
  set dst₂ : ℕ → UInt8 := fun x => if cmd.cryptoOffset.toNat ≤ x ∧
    x < cmd.cryptoOffset.toNat + (ctrSize cmd).toNat then
      (some src).getD copied x ^^^ ecbEncrypt cipher buf (x - cmd.cryptoOffset.toNat)
    else copied x with hdst₂
  obtain ⟨status₂, out, hcopy₂, hkept₂⟩ := mvCesaMbufCopy_behind src dst₂ hsame
    (cmd.cryptoOffset.toNat + cmd.cryptoLength.toNat)
  rw [hcopy₂]
  refine ⟨out, rfl, ⟨status, copied, hcopy, ?_⟩, ?_, dst₂, status₂, hcopy₂⟩
  · intro x hx
    rw [hkept₂ x (by omega), hdst₂]
    exact if_neg (by omega)
  · intro x hx hx'
    rw [hkept₂ x (by omega), hdst₂]
    dsimp only
    by_cases hin : x < cmd.cryptoOffset.toNat + (ctrSize cmd).toNat
    · rw [if_pos ⟨hx, hin⟩, if_pos hin]
      rfl
    · rw [if_neg (by omega), if_neg hin]
      exact hkept x (by omega)

/-- Both multi-buffers of a request have a fragment if its range is behind the data. -/
theorem CtrCorrect.fragments {cipher : Block → Block} {src dst : ℕ → UInt8}
    (hdst : dstSizes.sum = cmd.dst.mbufSize.toNat)
    (hcorrect : CtrCorrect cipher true cmd ⟨srcSizes, some dstSizes⟩ src dst)
    (hbeyond : srcSizes.sum < cmd.cryptoOffset.toNat) : srcSizes ≠ [] ∧ dstSizes ≠ [] := by
  by_contra hfrags
  obtain ⟨-, out, hout, -⟩ := hcorrect
  unfold ctrRequest at hout
  split at hout
  · cases hout
  · rw [mvCesaCtrModeComplete_apart hdst, mvCesaMbufCopy_none src dst (by omega) hfrags] at hout
    cases hout

/-- The commands and shapes with two multi-buffers that counter mode gets right, apart from
the IV. Both have one size, whole blocks are inside of both, and their fragments end at the
same positions before and behind the range. -/
def ApartFits (cmd : Command) (srcSizes dstSizes : List ℕ) : Prop :=
  dstSizes.sum = srcSizes.sum ∧
    Walkable srcSizes cmd.cryptoOffset.toNat (paddedLength cmd) ∧
    Walkable dstSizes cmd.cryptoOffset.toNat (paddedLength cmd) ∧
    SameEnds srcSizes dstSizes 0 (min cmd.cryptoOffset.toNat srcSizes.sum) ∧
    SameEnds srcSizes dstSizes (cmd.cryptoOffset.toNat + cmd.cryptoLength.toNat)
      (dstSizes.sum - (cmd.cryptoOffset.toNat + cmd.cryptoLength.toNat)) ∧
    (srcSizes.sum < cmd.cryptoOffset.toNat → srcSizes ≠ [] ∧ dstSizes ≠ [])

/-- A right request with two multi-buffers ends, and its parts are right. -/
theorem CtrCorrect.apart {cipher : Block → Block} {src dst : ℕ → UInt8}
    (hdst : dstSizes.sum = cmd.dst.mbufSize.toNat)
    (hcorrect : CtrCorrect cipher true cmd ⟨srcSizes, some dstSizes⟩ src dst) :
    ∃ buf out, ctrPrepareBuf true cmd src srcSizes = some buf ∧
      (Walkable srcSizes cmd.cryptoOffset.toNat (ctrSize cmd).toNat ∧
        Walkable dstSizes cmd.cryptoOffset.toNat (ctrSize cmd).toNat) ∧
      Apart cmd srcSizes dstSizes src dst (ecbEncrypt cipher buf) out ∧
      ∀ x, x < srcSizes.sum ∨ (cmd.cryptoOffset.toNat ≤ x ∧
          x < cmd.cryptoOffset.toNat + cmd.cryptoLength.toNat) →
        out x = ctrSpec cipher (ctrIV cmd src) cmd.cryptoOffset.toNat
          cmd.cryptoLength.toNat src x := by
  obtain ⟨first, -, hbuf⟩ := ctrPrepareBuf_start src hcorrect.memory.2
  have hfrags := hcorrect.fragments hdst
  obtain ⟨hsame, out, hout, hspec⟩ := hcorrect
  rcases ctrRequest_apart cipher dst hdst (hsame _ rfl) hfrags hbuf with
    ⟨-, hnone⟩ | ⟨hwalk, out', hout', hparts⟩
  · rw [hnone] at hout
    cases hout
  · rw [hout'] at hout
    obtain rfl := Option.some.inj hout
    exact ⟨_, out', hbuf, hwalk, hparts, hspec⟩

/-- Requests with two multi-buffers are right for all keys and data only if the IV can be read
and the command and the shape fit. -/
theorem ApartFits.of_correct (hdst : dstSizes.sum = cmd.dst.mbufSize.toNat)
    (hall : ∀ cipher src dst, CtrCorrect cipher true cmd ⟨srcSizes, some dstSizes⟩ src dst) :
    IvFits cmd srcSizes ∧ ApartFits cmd srcSizes dstSizes := by
  have hsize := ctrSize_toNat cmd
  have hpad : cmd.cryptoLength.toNat ≤ paddedLength cmd := by
    unfold paddedLength
    omega
  have hfirst := hall (fun _ _ => 0) (fun _ => 0) fun _ => 0
  have hsame : dstSizes.sum = srcSizes.sum := hfirst.1 _ rfl
  have hparts := fun cipher src dst => (hall cipher src dst).apart hdst
  have hfits : cmd.cryptoLength.toNat ≤ 65520 := by
    by_contra hlarge
    rw [if_neg hlarge] at hsize
    obtain ⟨buf, out, -, -, hparts, hspec⟩ := hparts (fun _ _ => 1) (fun _ => 0) fun _ => 0
    have hbyte := hspec cmd.cryptoOffset.toNat (by omega)
    rw [hparts.inside _ (by omega) (by omega), if_neg (by omega), ctrSpec, if_pos (by omega)]
      at hbyte
    exact absurd hbyte (by decide)
  rw [if_pos hfits] at hsize
  obtain ⟨-, -, -, hwalk, -⟩ := hparts (fun _ _ => 0) (fun _ => 0) fun _ => 0
  rw [hsize] at hwalk
  refine ⟨?_, hsame, hwalk.1, hwalk.2, ?_, ?_, hfirst.fragments hdst⟩
  · obtain ⟨buf, out, hbuf, -, hparts, hspec⟩ :=
      hparts (fun b _ => b 15) (marker (cmd.ivOffset.toNat + 15)) fun _ => 0
    refine ivFits_of_firstByte hfirst.memory.2 hbuf rfl fun hne => ?_
    have hbyte := hspec cmd.cryptoOffset.toNat (by omega)
    rw [hparts.inside _ (by omega) (by omega), if_pos (by omega), ctrSpec, if_pos (by omega),
      Nat.sub_self] at hbyte
    rw [hbyte, Nat.zero_div, ctrBlock_zero]
  · by_contra hends
    obtain ⟨w, -, hw, hcopy⟩ := mvCesaMbufCopy_misaligned (by omega) (by omega) hends
    obtain ⟨buf, out, -, -, ⟨⟨status, copied, hcopied, hbefore⟩, -, -⟩, hspec⟩ :=
      hparts (fun _ _ => 0) (marker w) fun _ => 0
    obtain ⟨status', copied', hcopied', hzero⟩ := hcopy fun _ => 0
    rw [hcopied] at hcopied'
    obtain ⟨-, rfl⟩ := Prod.mk.inj (Option.some.inj hcopied')
    have hbyte := hspec w (by omega)
    rw [hbefore w (by omega), hzero, ctrSpec, if_neg (by omega), marker, if_pos rfl] at hbyte
    exact absurd hbyte (by decide)
  · by_contra hends
    have hbehind : cmd.cryptoOffset.toNat + cmd.cryptoLength.toNat < dstSizes.sum := by
      by_contra hend
      exact hends fun p hp hp' => by omega
    obtain ⟨w, hw, hw', hcopy⟩ := mvCesaMbufCopy_misaligned (by omega) (by omega) hends
    obtain ⟨buf, out, -, -, ⟨-, -, ⟨dst₂, status, hcopied⟩⟩, hspec⟩ :=
      hparts (fun _ _ => 0) (marker w) fun _ => 0
    obtain ⟨status', copied', hcopied', hzero⟩ := hcopy dst₂
    rw [hcopied] at hcopied'
    obtain ⟨-, rfl⟩ := Prod.mk.inj (Option.some.inj hcopied')
    have hbyte := hspec w (by omega)
    rw [hzero, ctrSpec, if_neg (by omega), marker, if_pos rfl] at hbyte
    exact absurd hbyte (by decide)

/-- Requests with two multi-buffers are right if the IV can be read and the command and the
shape fit. -/
theorem ApartFits.correct (hdst : dstSizes.sum = cmd.dst.mbufSize.toNat)
    (hiv : IvFits cmd srcSizes) (happart : ApartFits cmd srcSizes dstSizes)
    (cipher : Block → Block) (src dst : ℕ → UInt8) :
    CtrCorrect cipher true cmd ⟨srcSizes, some dstSizes⟩ src dst := by
  obtain ⟨hsame, hsrcWalk, hdstWalk, hbefore, hbehind, hfrags⟩ := happart
  have hsize := ctrSize_toNat cmd
  have hfits : cmd.cryptoLength.toNat ≤ 65520 ∧ cmd.cryptoLength.toNat ≤ paddedLength cmd := by
    have hsum := cmd.dst.mbufSize.toNat_lt
    have hend := hsrcWalk.1
    have hlength : cmd.cryptoLength.toNat ≤ paddedLength cmd ∧
        (65520 < cmd.cryptoLength.toNat → 65536 ≤ paddedLength cmd) := by
      unfold paddedLength
      omega
    omega
  have hrange : cmd.cryptoLength.toNat ≠ 0 →
      cmd.cryptoOffset.toNat + cmd.cryptoLength.toNat ≤ srcSizes.sum := by
    have hend := hsrcWalk.1
    omega
  rw [if_pos hfits.1] at hsize
  obtain ⟨buf, hbuf, hblocks⟩ := ctrPrepareBuf_spec src hiv
  rcases ctrRequest_apart cipher dst hdst hsame hfrags hbuf with
    ⟨hfault, -⟩ | ⟨-, out, hout, ⟨status, copied, hcopied, hfirst⟩, hinside,
      dst₂, status₂, hcopied₂⟩
  · rw [hsize] at hfault
    exact absurd ⟨hsrcWalk, hdstWalk⟩ hfault
  rw [mvCesaMbufCopy_aligned src dst (by omega) (by omega) hbefore] at hcopied
  obtain ⟨-, rfl⟩ := Prod.mk.inj (Option.some.inj hcopied)
  refine ⟨?_, _, hout, fun x hx => ?_⟩
  · rintro _ ⟨⟩
    exact hsame
  have hx : x < srcSizes.sum := by
    rcases hx with hx | hx
    · exact hx
    · have := hrange (by omega)
      omega
  unfold ctrSpec
  by_cases hin : cmd.cryptoOffset.toNat ≤ x ∧
      x < cmd.cryptoOffset.toNat + cmd.cryptoLength.toNat
  · rw [if_pos hin, hinside x hin.1 hin.2, if_pos (by omega),
      ecbEncrypt_spec cipher hblocks (by omega)]
  · rw [if_neg hin]
    by_cases hlow : x < cmd.cryptoOffset.toNat
    · rw [hfirst x (by omega), memcpy, if_pos (by omega)]
      congr 1
      omega
    · rw [mvCesaMbufCopy_aligned src dst₂ (by omega) (by omega) hbehind] at hcopied₂
      obtain ⟨-, rfl⟩ := Prod.mk.inj (Option.some.inj hcopied₂)
      rw [memcpy, if_pos (by omega)]
      congr 1
      omega

end Apart

/-- The commands and shapes that counter mode gets right. The IV can be read. In place, the
length is a number of whole blocks, and no empty fragment begins where bytes are combined. -/
def CtrFits (cmd : Command) (shape : CtrShape) : Prop :=
  IvFits cmd shape.src ∧
    match shape.dst with
    | none => 16 ∣ cmd.cryptoLength.toNat ∧
      Walkable shape.src cmd.cryptoOffset.toNat cmd.cryptoLength.toNat
    | some dstSizes => ApartFits cmd shape.src dstSizes

instance (cmd : Command) (shape : CtrShape) : Decidable (CtrFits cmd shape) :=
  match shape with
  | ⟨_, none⟩ => inferInstanceAs (Decidable (_ ∧ _ ∧ _))
  | ⟨_, some _⟩ => inferInstanceAs (Decidable (_ ∧ _ ∧ _))

/-- Counter mode from end to end. For every command and every shape of its multi-buffers,
the requests are right for all keys and all data just if there is memory for the key stream
and the command and the shape are ones that counter mode gets right. -/
theorem ctrRequest_correct {keyStream : Bool} {cmd : Command} {shape : CtrShape}
    (hdst : ∀ dstSizes ∈ shape.dst, dstSizes.sum = cmd.dst.mbufSize.toNat) :
    (∀ cipher src dst, CtrCorrect cipher keyStream cmd shape src dst) ↔
      keyStream = true ∧ CtrFits cmd shape := by
  obtain ⟨srcSizes, dst⟩ := shape
  cases dst with
  | none => exact ctrCorrect_inPlace
  | some dstSizes =>
    constructor
    · intro hall
      obtain ⟨rfl, -⟩ := (hall (fun _ _ => 0) (fun _ => 0) fun _ => 0).memory
      exact ⟨rfl, ApartFits.of_correct (hdst _ rfl) hall⟩
    · rintro ⟨rfl, hiv, happart⟩
      exact happart.correct (hdst _ rfl) hiv

/-- A command with the IV in front of `length` bytes to encrypt, in 64 bytes. -/
def ctrCommand (length : UInt16) : Command :=
  { zeroCommand with
    src := ⟨1, 64⟩
    dst := ⟨1, 64⟩
    cryptoOffset := 16
    cryptoLength := length }

/-- Whole blocks in place, and a part of a block between multi-buffers whose fragments
end together. -/
theorem ctrRequest_correct_blocks :
    (∀ cipher src dst, CtrCorrect cipher true (ctrCommand 32) ⟨[20, 44], none⟩ src dst) ∧
      ∀ cipher src dst, CtrCorrect cipher true (ctrCommand 5)
        ⟨[8, 56], some [8, 13, 43]⟩ src dst := by
  constructor
  · refine (ctrRequest_correct ?_).mpr ⟨rfl, by decide⟩
    rintro dstSizes ⟨⟩
  · refine (ctrRequest_correct ?_).mpr ⟨rfl, by decide⟩
    rintro dstSizes ⟨⟩
    decide

/-- A part of a block in place: the byte behind the range is changed. -/
theorem ctrRequest_changes_suffix :
    ¬ CtrCorrect (fun _ _ => 1) true (ctrCommand 5) ⟨[64], none⟩ (fun _ => 0) fun _ => 0 := by
  rintro ⟨-, out, hout, hspec⟩
  have hbyte : (ctrRequest (fun _ _ => 1) true (ctrCommand 5) ⟨[64], none⟩ (fun _ => 0)
      fun _ => 0).map (fun out => out 21) = some 1 := by
    decide
  rw [hout, Option.map_some, hspec 21 (by decide)] at hbyte
  exact absurd hbyte (by decide)

end Mv88fxx81.Cesa
