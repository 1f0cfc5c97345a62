import Mv88fxx81.Cesa.MbufMove

/-!
# Descriptor lists of the DMA engine

`mvCesaIdmaCopyPrepare` cuts a range of a multi-buffer at the ends of its fragments into
descriptors of the DMA engine, and `mvCesaCmdProcess` links the descriptors of a command
to one chain. After each descriptor the walk reads the next entry of the fragments,
whether there is one or not. Addresses are those the DMA engine sees.
-/

namespace Mv88fxx81.Cesa

open Fragments

/-- `MV_CESA_MAX_MBUF_FRAGS`. -/
def maxMbufFrags : ℕ := 20

/-- `MV_CESA_MAX_IDMA_DESC`. -/
def maxIdmaDesc : ℕ := maxMbufFrags * 2 + 5

/-- `MV_BUF_INFO`: a fragment of a multi-buffer. -/
structure BufInfo where
  bufVirtPtr : ℕ
  bufSize : ℕ
  deriving DecidableEq, Repr

/-- `MV_DMA_DESC`. The bit `BIT31` of `byteCnt` hands the descriptor to the engine, and is
set in all of them except for the one that stops the engine. -/
structure DmaDesc where
  byteCnt : ℕ
  phySrcAdd : ℕ
  phyDestAdd : ℕ
  phyNextDescPtr : ℕ
  deriving DecidableEq, Repr

/-- `sizeof(MV_DMA_DESC)`. -/
def dmaDescSize : ℕ := 16

/-- The sizes of the fragments. -/
def bufSizes (frags : List BufInfo) : List ℕ := frags.map BufInfo.bufSize

/-- The descriptor of one round of `mvCesaIdmaCopyPrepare`. -/
def copyDesc (isToMbuf : Bool) (pBuf pSram bufSize phyNextDescPtr : ℕ) : DmaDesc :=
  if isToMbuf then ⟨bufSize, pSram, pBuf, phyNextDescPtr⟩
  else ⟨bufSize, pBuf, pSram, phyNextDescPtr⟩

/-- The loop of `mvCesaIdmaCopyPrepare`, from a place in a fragment with `bufSize` bytes
left on. `frags` are the entries behind it, and `i` counts the descriptors. It is `none`
when the entry behind the last fragment is used. -/
def idmaCopyLoop (isToMbuf : Bool) (pSramBuf pIdmaDesc copySize : ℕ) :
    List BufInfo → ℕ → ℕ → ℕ → ℕ → Option (List DmaDesc)
  | frags, pBuf, bufSize, size, i =>
    if size < copySize then
      let bufSize := min bufSize (copySize - size)
      let desc := copyDesc isToMbuf pBuf (pSramBuf + size) bufSize
        (pIdmaDesc + dmaDescSize * (i + 1))
      match frags with
      | [] => if size + bufSize < copySize then none else some [desc]
      | next :: frags =>
        (idmaCopyLoop isToMbuf pSramBuf pIdmaDesc copySize frags next.bufVirtPtr next.bufSize
          (size + bufSize) (i + 1)).map (desc :: ·)
    else some []

/-- What `mvCesaIdmaCopyPrepare` leaves: the descriptors, and the number of the last entry
of the fragments that it has read. -/
structure CopyPrepared where
  descs : List DmaDesc
  lastRead : ℕ
  deriving DecidableEq, Repr

/-- `mvCesaIdmaCopyPrepare`. The entries of the fragments are read one after the other, the
first one before the loop and one more in each round. It is `none` when the entry behind
the last fragment is used. -/
def mvCesaIdmaCopyPrepare (frags : List BufInfo) (pSramBuf pIdmaDesc : ℕ) (isToMbuf : Bool)
    (offset copySize : ℕ) : Option CopyPrepared :=
  match mbufOffsetLoop (bufSizes frags) 0 offset with
  | none => none
  | some (frag, bufOffset) =>
    match frags.drop frag with
    | [] => if 0 < copySize then none else some ⟨[], frag⟩
    | cur :: rest =>
      (idmaCopyLoop isToMbuf pSramBuf pIdmaDesc copySize rest (cur.bufVirtPtr + bufOffset)
        (cur.bufSize - bufOffset) 0 0).map fun descs => ⟨descs, frag + descs.length⟩

/-- The descriptors of `mvCesaCmdProcess`: the load of a slot of the key cache, if there is
one, the copy of the source, the descriptor that is owned by the CPU, and the copy to the
destination. The last one gets no next descriptor. -/
def cmdProcessChain (cacheLoad : Option DmaDesc) (src : List BufInfo) (srcSize : ℕ)
    (dst : List BufInfo) (dstSize pSramBuf idmaPhysAddr : ℕ) : Option (List DmaDesc) := do
  let load := cacheLoad.toList
  let i := load.length
  let copyIn ← mvCesaIdmaCopyPrepare src pSramBuf (idmaPhysAddr + dmaDescSize * i) false 0 srcSize
  let i := i + copyIn.descs.length
  let owner : DmaDesc := ⟨0, 0, 0, idmaPhysAddr + dmaDescSize * (i + 1)⟩
  let copyOut ← mvCesaIdmaCopyPrepare dst pSramBuf (idmaPhysAddr + dmaDescSize * (i + 1)) true 0
    dstSize
  let descs := load ++ copyIn.descs ++ owner :: copyOut.descs
  some (descs.modify (descs.length - 1) fun desc => { desc with phyNextDescPtr := 0 })

/-- The addresses of the bytes of a multi-buffer, in their order. -/
def mbufBytes (frags : List BufInfo) : List ℕ :=
  frags.flatMap fun frag => List.range' frag.bufVirtPtr frag.bufSize

/-- The bytes of a descriptor in the multi-buffer. -/
def DmaDesc.mbufBytes (isToMbuf : Bool) (desc : DmaDesc) : List ℕ :=
  List.range' (if isToMbuf then desc.phyDestAdd else desc.phySrcAdd) desc.byteCnt

/-- The bytes of a descriptor in the SRAM. -/
def DmaDesc.sramBytes (isToMbuf : Bool) (desc : DmaDesc) : List ℕ :=
  List.range' (if isToMbuf then desc.phySrcAdd else desc.phyDestAdd) desc.byteCnt

section Loop

variable {isToMbuf : Bool} {pSramBuf pIdmaDesc copySize : ℕ}

@[simp] theorem copyDesc_byteCnt {pBuf pSram bufSize next : ℕ} :
    (copyDesc isToMbuf pBuf pSram bufSize next).byteCnt = bufSize := by
  cases isToMbuf <;> rfl

@[simp] theorem copyDesc_next {pBuf pSram bufSize next : ℕ} :
    (copyDesc isToMbuf pBuf pSram bufSize next).phyNextDescPtr = next := by
  cases isToMbuf <;> rfl

@[simp] theorem copyDesc_mbufBytes {pBuf pSram bufSize next : ℕ} :
    (copyDesc isToMbuf pBuf pSram bufSize next).mbufBytes isToMbuf = List.range' pBuf bufSize := by
  cases isToMbuf <;> rfl

@[simp] theorem copyDesc_sramBytes {pBuf pSram bufSize next : ℕ} :
    (copyDesc isToMbuf pBuf pSram bufSize next).sramBytes isToMbuf = List.range' pSram bufSize := by
  cases isToMbuf <;> rfl

/-- The descriptors of a copy from a place in a fragment on: the next `left` bytes are
copied to or from the SRAM, and the descriptors are linked in their order. One of them is
empty if an empty fragment is passed, and the last fragment is reached if the bytes go that
far. -/
structure CopiesFrom (isToMbuf : Bool) (rest : List BufInfo) (pBuf bufSize pSram left phyDesc : ℕ)
    (descs : List DmaDesc) : Prop where
  mbuf : descs.flatMap (DmaDesc.mbufBytes isToMbuf) =
    (List.range' pBuf bufSize ++ mbufBytes rest).take left
  sram : descs.flatMap (DmaDesc.sramBytes isToMbuf) = List.range' pSram left
  linked : descs.map DmaDesc.phyNextDescPtr =
    List.range' (phyDesc + dmaDescSize) descs.length dmaDescSize
  nonempty : (∀ desc ∈ descs, 0 < desc.byteCnt) ↔
    ∀ q < left, ¬ EmptyAt (bufSize :: bufSizes rest) q
  length : descs.length ≤ rest.length + 1
  before : descs.length ≤ rest.length ↔ left ≤ (bufSize :: bufSizes rest).dropLast.sum

/-- Nothing is left to be copied. -/
theorem copiesFrom_nil {rest : List BufInfo} {pBuf bufSize pSram phyDesc : ℕ} :
    CopiesFrom isToMbuf rest pBuf bufSize pSram 0 phyDesc [] where
  mbuf := by simp
  sram := rfl
  linked := rfl
  nonempty := by simp
  length := Nat.zero_le _
  before := by simp

/-- The rest of the bytes lies in the last fragment. -/
theorem copiesFrom_last {pBuf bufSize pSram left phyDesc : ℕ} (hpos : 0 < left)
    (hleft : left ≤ bufSize) :
    CopiesFrom isToMbuf [] pBuf bufSize pSram left phyDesc
      [copyDesc isToMbuf pBuf pSram left (phyDesc + dmaDescSize)] where
  mbuf := by simp [mbufBytes, List.take_range'_of_length_ge hleft]
  sram := by simp
  linked := by simp
  nonempty := by
    simp only [List.mem_singleton, forall_eq, copyDesc_byteCnt, EmptyAt, bufSizes, List.map_nil,
      and_false, or_false]
    exact iff_of_true hpos fun q _ => by omega
  length := Nat.le_refl _
  before := by
    simp only [List.length_singleton, List.length_nil, bufSizes, List.map_nil,
      List.dropLast_singleton, List.sum_nil]
    omega

/-- One descriptor for what is left of a fragment, and those of the following ones. -/
theorem CopiesFrom.cons {next : BufInfo} {rest : List BufInfo} {pBuf bufSize pSram left phyDesc : ℕ}
    {descs : List DmaDesc} (hpos : 0 < left)
    (hrest : CopiesFrom isToMbuf rest next.bufVirtPtr next.bufSize (pSram + min bufSize left)
      (left - min bufSize left) (phyDesc + dmaDescSize) descs) :
    CopiesFrom isToMbuf (next :: rest) pBuf bufSize pSram left phyDesc
      (copyDesc isToMbuf pBuf pSram (min bufSize left) (phyDesc + dmaDescSize) :: descs) where
  mbuf := by
    have hfirst : (List.range' pBuf bufSize).take left = List.range' pBuf (min bufSize left) := by
      by_cases hall : bufSize ≤ left
      · rw [List.take_range'_of_length_le hall, Nat.min_eq_left hall]
      · rw [List.take_range'_of_length_ge (by omega), Nat.min_eq_right (by omega)]
    have hbehind : mbufBytes (next :: rest) =
        List.range' next.bufVirtPtr next.bufSize ++ mbufBytes rest := by
      rw [mbufBytes, mbufBytes, List.flatMap_cons]
    rw [List.flatMap_cons, copyDesc_mbufBytes, hrest.mbuf, ← hbehind, List.take_append,
      List.length_range', hfirst, show left - min bufSize left = left - bufSize by omega]
  sram := by
    rw [List.flatMap_cons, copyDesc_sramBytes, hrest.sram, List.range'_append_1]
    congr 1
    omega
  linked := by
    rw [List.map_cons, copyDesc_next, hrest.linked, List.length_cons, List.range'_succ]
  nonempty := by
    have hempty : bufSizes (next :: rest) = next.bufSize :: bufSizes rest := rfl
    rw [List.forall_mem_cons, hrest.nonempty, copyDesc_byteCnt, hempty]
    constructor
    · rintro ⟨hfirst, hall⟩ q hq (⟨hzero, -⟩ | ⟨hle, hat⟩)
      · omega
      · exact hall (q - bufSize) (by omega) hat
    · intro hall
      have hfirst : bufSize ≠ 0 := fun hzero => hall 0 hpos (Or.inl ⟨hzero, rfl⟩)
      refine ⟨by omega, fun q hq hat => hall (bufSize + q) (by omega) (Or.inr ⟨by omega, ?_⟩)⟩
      rw [Nat.add_sub_cancel_left]
      exact hat
  length := by
    have := hrest.length
    simp only [List.length_cons]
    omega
  before := by
    have hbefore := hrest.before
    simp only [bufSizes, List.map_cons, List.length_cons, List.dropLast_cons_cons,
      List.sum_cons] at hbefore ⊢
    omega

/-- The loop copies the bytes asked for if there are that many. -/
theorem idmaCopyLoop_spec {frags : List BufInfo} {pBuf bufSize size i : ℕ}
    (hrange : copySize ≤ size + (bufSize :: bufSizes frags).sum) :
    ∃ descs, idmaCopyLoop isToMbuf pSramBuf pIdmaDesc copySize frags pBuf bufSize size i =
        some descs ∧
      CopiesFrom isToMbuf frags pBuf bufSize (pSramBuf + size) (copySize - size)
        (pIdmaDesc + dmaDescSize * i) descs := by
  induction frags generalizing pBuf bufSize size i with
  | nil =>
    rw [idmaCopyLoop]
    by_cases hmore : size < copySize
    · have hlast : copySize - size ≤ bufSize := by
        simp only [bufSizes, List.map_nil, List.sum_singleton] at hrange
        omega
      rw [if_pos hmore]
      dsimp only
      rw [Nat.min_eq_right hlast, if_neg (by omega)]
      exact ⟨_, rfl, copiesFrom_last (by omega) hlast⟩
    · rw [if_neg hmore, Nat.sub_eq_zero_of_le (by omega)]
      exact ⟨[], rfl, copiesFrom_nil⟩
  | cons next frags ih =>
    rw [idmaCopyLoop]
    by_cases hmore : size < copySize
    · have hsum : (bufSize :: bufSizes (next :: frags)).sum =
          bufSize + (next.bufSize :: bufSizes frags).sum := rfl
      obtain ⟨descs, hloop, hdescs⟩ := @ih next.bufVirtPtr next.bufSize
        (size + min bufSize (copySize - size)) (i + 1) (by omega)
      rw [if_pos hmore]
      dsimp only
      rw [hloop, Option.map_some]
      refine ⟨_, rfl, CopiesFrom.cons (by omega) ?_⟩
      rw [Nat.add_assoc, Nat.sub_sub]
      exact hdescs
    · rw [if_neg hmore, Nat.sub_eq_zero_of_le (by omega)]
      exact ⟨[], rfl, copiesFrom_nil⟩

end Loop

/-- What `mvCesaIdmaCopyPrepare` is for: the descriptors copy the bytes of the range, in
their order and each once, to or from the SRAM, they are linked, and none of them is empty.
No entry behind the fragments is read. -/
structure CopyPrepared.Exact (frags : List BufInfo) (pSramBuf pIdmaDesc : ℕ) (isToMbuf : Bool)
    (offset copySize : ℕ) (prepared : CopyPrepared) : Prop where
  mbuf : prepared.descs.flatMap (DmaDesc.mbufBytes isToMbuf) =
    ((mbufBytes frags).drop offset).take copySize
  sram : prepared.descs.flatMap (DmaDesc.sramBytes isToMbuf) = List.range' pSramBuf copySize
  linked : prepared.descs.map DmaDesc.phyNextDescPtr =
    List.range' (pIdmaDesc + dmaDescSize) prepared.descs.length dmaDescSize
  nonempty : ∀ desc ∈ prepared.descs, 0 < desc.byteCnt
  inside : prepared.lastRead < frags.length

/-- The range passes no empty fragment and ends before the last fragment begins. A range
without bytes only has to begin at a fragment or inside of one. -/
def EndsBeforeLast (sizes : List ℕ) (offset copySize : ℕ) : Prop :=
  if copySize = 0 then offset < sizes.sum ∨ EmptyAt sizes offset
  else offset + copySize ≤ sizes.dropLast.sum ∧ ∀ q < copySize, ¬ EmptyAt sizes (offset + q)

instance (sizes : List ℕ) (offset copySize : ℕ) :
    Decidable (EndsBeforeLast sizes offset copySize) := by
  unfold EndsBeforeLast
  infer_instance

section Prepare

variable {frags : List BufInfo} {pSramBuf pIdmaDesc offset copySize : ℕ} {isToMbuf : Bool}

/-- What is left of the first fragment is empty where the fragments are. -/
theorem emptyAt_drop {size bufOffset q : ℕ} {rest : List ℕ}
    (hinside : bufOffset = 0 ∨ bufOffset < size) :
    EmptyAt (size :: rest) (bufOffset + q) ↔ EmptyAt ((size - bufOffset) :: rest) q := by
  have hle : size ≤ bufOffset + q ↔ size - bufOffset ≤ q := by omega
  have hzero : size = 0 ∧ bufOffset + q = 0 ↔ size - bufOffset = 0 ∧ q = 0 := by omega
  simp only [EmptyAt]
  rw [hle, hzero, show bufOffset + q - size = q - (size - bufOffset) by omega]

/-- The bytes from a place in a fragment on. -/
theorem mbufBytes_drop {frag bufOffset : ℕ} {cur : BufInfo} {rest : List BufInfo}
    (hdrop : frags.drop frag = cur :: rest) (hinside : bufOffset ≤ cur.bufSize) :
    (mbufBytes frags).drop (((bufSizes frags).take frag).sum + bufOffset) =
      List.range' (cur.bufVirtPtr + bufOffset) (cur.bufSize - bufOffset) ++ mbufBytes rest := by
  have hsplit : mbufBytes frags = mbufBytes (frags.take frag) ++
      (List.range' cur.bufVirtPtr cur.bufSize ++ mbufBytes rest) := by
    nth_rewrite 1 [← List.take_append_drop frag frags]
    rw [hdrop, mbufBytes, List.flatMap_append, List.flatMap_cons]
    rfl
  have hlength : ((bufSizes frags).take frag).sum = (mbufBytes (frags.take frag)).length := by
    rw [mbufBytes, List.length_flatMap, bufSizes, ← List.map_take]
    congr 1
    exact List.map_congr_left fun f _ => (List.length_range' ..).symm
  rw [hsplit, hlength, List.drop_length_add_append, List.drop_append, List.length_range',
    Nat.sub_eq_zero_of_le hinside, List.drop_zero, List.drop_range', Nat.mul_one]

/-- The bytes before the last fragment, seen from a place in the data. -/
theorem le_dropLast_iff {before rest : List ℕ} {size bufOffset : ℕ}
    (hinside : bufOffset ≤ size) (hpos : 0 < copySize) :
    copySize ≤ ((size - bufOffset) :: rest).dropLast.sum ↔
      before.sum + bufOffset + copySize ≤ (before ++ size :: rest).dropLast.sum := by
  rw [List.dropLast_append_of_ne_nil (List.cons_ne_nil _ _), List.sum_append]
  cases rest with
  | nil =>
    simp only [List.dropLast_singleton, List.sum_nil]
    omega
  | cons next rest =>
    simp only [List.dropLast_cons_cons, List.sum_cons]
    omega

/-- The list that is prepared for a range of the data copies its bytes; whether a descriptor
is empty and whether an entry behind the fragments is read depends on the fragments only. -/
theorem mvCesaIdmaCopyPrepare_spec (hrange : offset + copySize ≤ (bufSizes frags).sum) :
    ∃ prepared, mvCesaIdmaCopyPrepare frags pSramBuf pIdmaDesc isToMbuf offset copySize =
        some prepared ∧
      prepared.descs.length ≤ frags.length ∧
      (prepared.descs.flatMap (DmaDesc.mbufBytes isToMbuf) =
          ((mbufBytes frags).drop offset).take copySize ∧
        prepared.descs.flatMap (DmaDesc.sramBytes isToMbuf) = List.range' pSramBuf copySize) ∧
      (prepared.Exact frags pSramBuf pIdmaDesc isToMbuf offset copySize ↔
        EndsBeforeLast (bufSizes frags) offset copySize) := by
  obtain ⟨frag, bufOffset, hloop, hlocated⟩ :=
    mbufOffsetLoop_located 0 (show offset ≤ (bufSizes frags).sum by omega)
  have hstart := hlocated.start
  have hinside := hlocated.inside
  have hsum := hlocated.sum
  have hempty := hlocated.emptyAt
  have hsizes : (bufSizes frags).drop frag = bufSizes (frags.drop frag) := by
    rw [bufSizes, bufSizes, List.map_drop]
  rw [Nat.zero_add] at hloop
  simp only [hsizes] at hinside hsum hempty
  unfold mvCesaIdmaCopyPrepare
  rw [hloop]
  dsimp only
  cases hdrop : frags.drop frag with
  | nil =>
    rw [hdrop] at hinside hsum hempty
    have hlength := List.drop_eq_nil_iff.mp hdrop
    simp only [bufSizes, List.map_nil, List.headD_nil, List.sum_nil] at hinside hsum hstart hrange
    obtain rfl : copySize = 0 := by omega
    refine ⟨⟨[], frag⟩, if_neg (Nat.lt_irrefl 0), Nat.zero_le _, ⟨by simp, rfl⟩, ?_⟩
    constructor
    · intro hexact
      exact absurd hexact.inside (Nat.not_lt.mpr hlength)
    · rintro (hlt | hat)
      · simp only [bufSizes] at hlt
        omega
      · exact ((hempty 0).mp hat).elim
  | cons cur rest =>
    have hlength : frags.length = frag + (rest.length + 1) := by
      have hcount := congrArg List.length hdrop
      rw [List.length_drop, List.length_cons] at hcount
      omega
    have hsplit : bufSizes frags = (bufSizes frags).take frag ++ cur.bufSize :: bufSizes rest := by
      nth_rewrite 1 [← List.take_append_drop frag (bufSizes frags)]
      rw [hsizes, hdrop]
      rfl
    rw [hdrop] at hinside hsum hempty
    simp only [bufSizes, List.map_cons, List.headD_cons, List.sum_cons] at hinside hsum
    have hcur : bufOffset ≤ cur.bufSize := by omega
    have hdata := mbufBytes_drop hdrop hcur
    rw [hstart] at hdata
    have hleft : copySize ≤ 0 + ((cur.bufSize - bufOffset) :: bufSizes rest).sum := by
      simp only [bufSizes, List.sum_cons] at hstart hrange ⊢
      omega
    obtain ⟨descs, hdescs, hcopies⟩ := @idmaCopyLoop_spec isToMbuf pSramBuf pIdmaDesc copySize rest
      (cur.bufVirtPtr + bufOffset) (cur.bufSize - bufOffset) 0 0 hleft
    dsimp only
    rw [hdescs, Option.map_some]
    rw [Nat.add_zero, Nat.sub_zero, Nat.mul_zero, Nat.add_zero] at hcopies
    have hfew := hcopies.length
    have hmbuf := hcopies.mbuf
    rw [← hdata] at hmbuf
    refine ⟨_, rfl, by dsimp only; omega, ⟨hmbuf, hcopies.sram⟩, ?_⟩
    have hat : ∀ q, EmptyAt ((cur.bufSize - bufOffset) :: bufSizes rest) q ↔
        EmptyAt (bufSizes frags) (offset + q) := by
      intro q
      rw [hempty q, ← emptyAt_drop hinside]
      rfl
    have hreads : frag + descs.length < frags.length ↔ descs.length ≤ rest.length := by omega
    have hexact : (∀ desc ∈ descs, 0 < desc.byteCnt) → descs.length ≤ rest.length →
        CopyPrepared.Exact frags pSramBuf pIdmaDesc isToMbuf offset copySize
          ⟨descs, frag + descs.length⟩ := fun hnonempty hbefore =>
      ⟨hmbuf, hcopies.sram, hcopies.linked, hnonempty, hreads.mpr hbefore⟩
    unfold EndsBeforeLast
    by_cases hzero : copySize = 0
    · subst hzero
      rw [if_pos rfl]
      refine iff_of_true (hexact (hcopies.nonempty.mpr fun q hq => by omega)
        (hcopies.before.mpr (Nat.zero_le _))) ?_
      by_cases hcurrent : cur.bufSize = 0
      · exact Or.inr ((hempty 0).mpr (Or.inl ⟨hcurrent, by omega⟩))
      · left
        simp only [bufSizes] at hstart ⊢
        omega
    · rw [if_neg hzero]
      have hbefore := @le_dropLast_iff copySize ((bufSizes frags).take frag) (bufSizes rest)
        cur.bufSize bufOffset hcur (by omega)
      rw [hstart, ← hsplit] at hbefore
      constructor
      · intro hexact
        refine ⟨hbefore.mp (hcopies.before.mp (hreads.mp hexact.inside)), fun q hq => ?_⟩
        rw [← hat]
        exact hcopies.nonempty.mp hexact.nonempty q hq
      · rintro ⟨hlast, hall⟩
        refine hexact (hcopies.nonempty.mpr fun q hq => ?_) (hcopies.before.mpr (hbefore.mpr hlast))
        rw [hat]
        exact hall q hq

end Prepare

section Chain

variable {src dst : List BufInfo} {srcSize dstSize : ℕ}

/-- The chain of a command takes one descriptor for each fragment, one for the key cache and
one for the owner. -/
theorem cmdProcessChain_length (cacheLoad : Option DmaDesc) (pSramBuf idmaPhysAddr : ℕ)
    (hsrc : srcSize ≤ (bufSizes src).sum) (hdst : dstSize ≤ (bufSizes dst).sum) :
    ∃ descs, cmdProcessChain cacheLoad src srcSize dst dstSize pSramBuf idmaPhysAddr = some descs ∧
      descs.length ≤ 1 + src.length + 1 + dst.length := by
  have hload : cacheLoad.toList.length ≤ 1 := by
    cases cacheLoad <;> simp
  obtain ⟨copyIn, hin, hinlength, -⟩ := @mvCesaIdmaCopyPrepare_spec src pSramBuf
    (idmaPhysAddr + dmaDescSize * cacheLoad.toList.length) 0 srcSize false (by omega)
  obtain ⟨copyOut, hout, houtlength, -⟩ := @mvCesaIdmaCopyPrepare_spec dst pSramBuf
    (idmaPhysAddr + dmaDescSize * (cacheLoad.toList.length + copyIn.descs.length + 1)) 0 dstSize
    true (by omega)
  unfold cmdProcessChain
  dsimp only
  rw [hin, Option.bind_eq_bind, Option.bind_some, hout, Option.bind_some]
  refine ⟨_, rfl, ?_⟩
  rw [List.length_modify]
  simp only [List.length_append, List.length_cons]
  omega

end Chain

/-- A copy of all bytes reads the entry behind the last fragment. -/
theorem mvCesaIdmaCopyPrepare_readsBehind :
    mvCesaIdmaCopyPrepare [⟨1000, 8⟩] 0 0 false 0 8 = some ⟨[⟨8, 1000, 0, 16⟩], 1⟩ := by
  decide

/-- The descriptors for a range of a multi-buffer are what they should be, and no entry
behind the fragments is read, exactly when the range passes no empty fragment and ends before
the last one. The chain of a command always fits in the descriptors of a channel. -/
theorem mvCesaIdmaCopyPrepare_exact_iff {frags : List BufInfo} {offset copySize : ℕ}
    (hrange : offset + copySize ≤ (bufSizes frags).sum) :
    ((∀ pSramBuf pIdmaDesc isToMbuf, ∃ prepared,
        mvCesaIdmaCopyPrepare frags pSramBuf pIdmaDesc isToMbuf offset copySize = some prepared ∧
          prepared.Exact frags pSramBuf pIdmaDesc isToMbuf offset copySize) ↔
      EndsBeforeLast (bufSizes frags) offset copySize) ∧
    ∀ (cacheLoad : Option DmaDesc) (dst : List BufInfo) (srcSize dstSize pSramBuf idmaPhysAddr : ℕ),
      frags.length ≤ maxMbufFrags → dst.length ≤ maxMbufFrags →
      srcSize ≤ (bufSizes frags).sum → dstSize ≤ (bufSizes dst).sum →
      ∃ descs, cmdProcessChain cacheLoad frags srcSize dst dstSize pSramBuf idmaPhysAddr =
          some descs ∧ descs.length ≤ maxIdmaDesc := by
  refine ⟨⟨fun hexact => ?_, fun hends pSramBuf pIdmaDesc isToMbuf => ?_⟩,
    fun cacheLoad dst srcSize dstSize pSramBuf idmaPhysAddr hsrcMax hdstMax hsrc hdst => ?_⟩
  · obtain ⟨prepared, hprepare, -, -, hiff⟩ := @mvCesaIdmaCopyPrepare_spec frags 0 0 offset copySize
      false hrange
    obtain ⟨prepared', hprepare', hprepared⟩ := hexact 0 0 false
    obtain rfl : prepared = prepared' := Option.some.inj (hprepare.symm.trans hprepare')
    exact hiff.mp hprepared
  · obtain ⟨prepared, hprepare, -, -, hiff⟩ := mvCesaIdmaCopyPrepare_spec hrange
    exact ⟨prepared, hprepare, hiff.mpr hends⟩
  · obtain ⟨descs, hchain, hlength⟩ :=
      cmdProcessChain_length cacheLoad pSramBuf idmaPhysAddr hsrc hdst
    refine ⟨descs, hchain, ?_⟩
    unfold maxIdmaDesc maxMbufFrags at *
    omega

/-- The copy of the first two of three fragments. -/
theorem mvCesaIdmaCopyPrepare_exact_iff_two :
    3 + 9 ≤ (bufSizes [⟨1000, 8⟩, ⟨2000, 4⟩, ⟨3000, 4⟩]).sum ∧
      ∃ prepared, mvCesaIdmaCopyPrepare [⟨1000, 8⟩, ⟨2000, 4⟩, ⟨3000, 4⟩] 64 0 false 3 9 =
          some prepared ∧
        prepared.Exact [⟨1000, 8⟩, ⟨2000, 4⟩, ⟨3000, 4⟩] 64 0 false 3 9 :=
  ⟨by decide, (mvCesaIdmaCopyPrepare_exact_iff (by decide)).1.mpr (by decide) 64 0 false⟩

end Mv88fxx81.Cesa
