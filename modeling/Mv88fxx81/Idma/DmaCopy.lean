import Mv88fxx81.Idma.Engine

/-!
# The DMA accelerated user copy

`dma_copy` of `LSP/dma.c`. The copy asks the hardware for a list of operations. Faults of
the accesses and time-outs of the channels are left out.
-/

namespace Mv88fxx81.Idma

/-- `IDMA_MIN_COPY_CHUNK`. -/
def IDMA_MIN_COPY_CHUNK : ℕ := 128

/-- The arguments of a call, and the answers that it gets for its list of user pages. -/
structure Call where
  /-- The destination. -/
  to_ : ℕ
  /-- The source. -/
  from_ : ℕ
  /-- The number of bytes. -/
  n : ℕ
  /-- The destination, and not the source, is the user side. -/
  toUser : Bool
  /-- `kmalloc` of the page list succeeds. -/
  kmalloc : Bool
  /-- The number of pages that `get_user_pages_no_flush` maps. -/
  res : ℕ

/-- What is left to be copied, and the operations so far. -/
structure Remaining where
  to_ : ℕ
  from_ : ℕ
  n : ℕ
  log : List Op

/-- The copy of the bytes before the first whole cache line of the destination. -/
def fixStart (c : Call) : Remaining :=
  let unalignedTo := c.to_ &&& 31
  if unalignedTo ≠ 0 then
    { to_ := add32 c.to_ (32 - unalignedTo)
      from_ := add32 c.from_ (32 - unalignedTo)
      n := sub32 c.n (32 - unalignedTo)
      log := [.cpu c.to_ c.from_ (32 - unalignedTo)] }
  else { to_ := c.to_, from_ := c.from_, n := c.n, log := [] }

/-- The copy of the bytes after the last whole cache line of the destination. -/
def fixEnd (r : Remaining) : Remaining :=
  let unalignedTo := add32 r.to_ r.n &&& 31
  if unalignedTo ≠ 0 then
    { r with
      n := sub32 r.n unalignedTo
      log := r.log ++ [.cpu (add32 r.to_ (sub32 r.n unalignedTo))
        (add32 r.from_ (sub32 r.n unalignedTo)) unalignedTo] }
  else r

/-- The number of pages of a user range. -/
def nrPages (uaddr n : ℕ) : ℕ :=
  add32 (add32 (uaddr &&& (PAGE_SIZE - 1)) n) (PAGE_SIZE - 1) >>> PAGE_SHIFT

/-- The page frames of the user pages, none of them for a kernel address, or the way to
the error labels. -/
def userPages (m : Mapping) (c : Call) (uaddr n : ℕ) : Option (List ℕ) :=
  if isKernelStatic m uaddr then some []
  else if isKernelSpace uaddr then some []
  else if add32 uaddr n < uaddr then none
  else if !c.kmalloc then none
  else if c.res < nrPages uaddr n then none
  else some ((List.range (nrPages uaddr n)).map
    fun i => m.pageFrame ((uaddr >>> PAGE_SHIFT) + i))

/-- The local variables of the loop, and the channel for the next transfer. -/
structure Loop where
  to_ : ℕ
  from_ : ℕ
  kaddr : ℕ
  uaddr : ℕ
  n : ℕ
  kChunk : ℕ
  uChunk : ℕ
  /-- The number of transfers that were started. -/
  index : ℕ
  /-- `current_dma_channel`. -/
  current : Channel
  log : List Op

/-- The physical destination and source of a piece. -/
def physAddresses (m : Mapping) (toUser : Bool) (pages : List ℕ) (baseUaddr : ℕ)
    (l : Loop) : ℕ × ℕ :=
  -- `uaddr_kernel_space`
  if isKernelStatic m baseUaddr || isKernelSpace baseUaddr then
    (physicalAddress m l.to_, physicalAddress m l.from_)
  else
    let i := sub32 l.uaddr (baseUaddr - (baseUaddr &&& (PAGE_SIZE - 1))) >>> PAGE_SHIFT
    let offset := l.uaddr &&& (PAGE_SIZE - 1)
    if toUser then (pageOffsetToPhys m (pages.getD i 0) offset, physicalAddress m l.from_)
    else (physicalAddress m l.to_, pageOffsetToPhys m (pages.getD i 0) offset)

/-- A piece is copied by the CPU or by a channel. -/
def copyChunk (m : Mapping) (toUser : Bool) (pages : List ℕ) (baseUaddr chunk : ℕ)
    (l : Loop) : Loop :=
  if chunk < IDMA_MIN_COPY_CHUNK then { l with log := l.log ++ [.cpu l.to_ l.from_ chunk] }
  else
    let phys := physAddresses m toUser pages baseUaddr l
    let waited := if l.index > 1 then [Op.wait l.current] else []
    { l with
      log := l.log ++ waited ++ [.dma l.current l.to_ l.from_ phys.1 phys.2 chunk]
      current := l.current.next
      index := l.index + 1 }

/-- Go to the next piece. -/
def nextChunk (chunk : ℕ) (l : Loop) : Loop :=
  { l with
    from_ := add32 l.from_ chunk
    to_ := add32 l.to_ chunk
    kaddr := add32 l.kaddr chunk
    uaddr := add32 l.uaddr chunk
    n := sub32 l.n chunk
    uChunk := sub32 l.uChunk chunk
    kChunk := sub32 l.kChunk chunk }

/-- The page cursors that are used up are set to the rest of their page. -/
def loadChunks (l : Loop) : Loop :=
  { l with
    kChunk := if l.kChunk = 0 then pageRemainder l.kaddr else l.kChunk
    uChunk := if l.uChunk = 0 then pageRemainder l.uaddr else l.uChunk }

/-- The size of the next piece. -/
def chunkSize (l : Loop) : ℕ :=
  let chunk := if l.uChunk < l.kChunk then l.uChunk else l.kChunk
  if l.n < chunk then l.n else chunk

/-- The loop over the pieces. Each turn copies at least one byte, so the number of bytes is
enough fuel. -/
def copyLoop (m : Mapping) (toUser : Bool) (pages : List ℕ) (baseUaddr : ℕ) :
    ℕ → Loop → Loop
  | 0, l => l
  | fuel + 1, l =>
    if l.n = 0 then l
    else
      let l := loadChunks l
      if chunkSize l = 0 then l
      else
        copyLoop m toUser pages baseUaddr fuel
          (nextChunk (chunkSize l) (copyChunk m toUser pages baseUaddr (chunkSize l) l))

/-- The waits after the loop. -/
def waitChannels (l : Loop) : Loop :=
  { l with
    log := l.log ++ (if l.index > 1 then [Op.wait l.current] else []) ++
      if l.index > 0 then [Op.wait l.current.next] else [] }

/-- The bytes that are left at the end are copied by the CPU. -/
def copyRest (to_ from_ n : ℕ) (log : List Op) : List Op :=
  if n ≠ 0 then log ++ [.cpu to_ from_ n] else log

/-- The loop begins after the fixes of the two ends. -/
def startLoop (m : Mapping) (c : Call) (current : Channel) (r : Remaining) : Loop :=
  let uaddr := if c.toUser then r.to_ else r.from_
  let kaddr := if c.toUser then r.from_ else r.to_
  { to_ := r.to_, from_ := r.from_, kaddr := kaddr, uaddr := uaddr, n := r.n
    kChunk := if isKernelStatic m kaddr then r.n else 0
    uChunk := if isKernelStatic m uaddr then r.n else 0
    index := 0, current := current, log := r.log }

/-- `dma_copy`: the next channel and the operations. -/
def dmaCopy (m : Mapping) (c : Call) (current : Channel) : Channel × List Op :=
  let r := fixEnd (fixStart c)
  let l := startLoop m c current r
  match userPages m c l.uaddr l.n with
  | none => (current, copyRest r.to_ r.from_ r.n r.log)
  | some pages =>
    let l := waitChannels (copyLoop m c.toUser pages l.uaddr l.n l)
    (l.current, copyRest l.to_ l.from_ l.n l.log)

/-- The operations of a series of calls after `mv_dma_init`, and the next channel. -/
def runCopies (m : Mapping) : List Call → Channel × List Op
  | [] => (.cpyChan1, [])
  | c :: calls =>
    -- the most recent call comes first
    let past := runCopies m calls
    let made := dmaCopy m c past.1
    (made.1, past.2 ++ made.2)

end Mv88fxx81.Idma
