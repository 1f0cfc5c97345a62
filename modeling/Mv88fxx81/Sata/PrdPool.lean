import Mathlib.Data.List.Nodup
import Mathlib.Data.List.Perm.Basic
import Mathlib.Data.List.Range
import Mv88fxx81.Lib.Run
import Mv88fxx81.Sata.PrdTable

/-!
# The pool of descriptor tables

Each SCSI host keeps its descriptor tables on a stack, `prdPoolAligned` with
the stack pointer `freePRDsNum`. `mv_ial_lib_generate_prd` pops a table for a
command whose data needs one, and the completion of the command pushes it back.
A call that cannot describe the data returns `-1` without pushing the table it
has popped, so the pool is conserved exactly by the calls that do not fail.
-/

namespace Mv88fxx81.Sata

open TransitionSystem

/-- `sataAdapterGeneration`. -/
inductive Generation
  | genI
  | genII
  | genIIE
  deriving DecidableEq, Repr

/-- The size of a host's pool: `MV_SATA_SW_QUEUE_SIZE`, or
`MV_SATA_GEN2E_SW_QUEUE_SIZE` on a Gen IIE adapter. -/
def Generation.poolSize : Generation → ℕ
  | .genIIE => 127
  | _ => 31

/-- The part of `IAL_HOST_T` that holds the pool. -/
structure IalHost where
  prdPoolAligned : ℕ → ℕ
  freePRDsNum : UInt32

/-- The address of the first table entry in an allocated block. -/
def alignTable (block : ℕ) : ℕ := (block + 15) / 16 * 16

/-- `mv_ial_lib_prd_init`, for the blocks `kmalloc` returns, zero standing for
`NULL`. The array slots past the pool keep whatever the host structure held
before. -/
def mvIalLibPrdInit (gen : Generation) (kmalloc : ℕ → ℕ) (garbage : ℕ → ℕ) : Option IalHost :=
  if ∀ i < gen.poolSize, kmalloc i ≠ 0 then
    some
      { prdPoolAligned := fun i =>
          if i < gen.poolSize then alignTable (kmalloc i) else garbage i
        freePRDsNum := UInt32.ofNat gen.poolSize }
  else none

/-- `mv_ial_lib_prd_allocate`: pop a table. The stack pointer is unsigned and
the source does not test it. -/
def mvIalLibPrdAllocate (host : IalHost) : ℕ × IalHost :=
  let top := host.freePRDsNum - 1
  (host.prdPoolAligned top.toNat, { host with freePRDsNum := top })

/-- `mv_ial_lib_prd_free`: push a table back. -/
def mvIalLibPrdFree (host : IalHost) (cpuPtr : ℕ) : IalHost :=
  { prdPoolAligned := Function.update host.prdPoolAligned host.freePRDsNum.toNat cpuPtr
    freePRDsNum := host.freePRDsNum + 1 }

/-- What `mv_ial_lib_generate_prd` reads of a SCSI command, with the bus
addresses that the mapping functions return for it: the mapped scatter list,
the mapped single buffer and the mapped table. -/
structure ScsiCmnd where
  useSg : Bool
  sg : List Segment
  requestBufflen : ℕ
  directionNone : Bool
  bufferBus : UInt32
  tableBus : UInt32

/-- What `mv_ial_lib_generate_prd` leaves in the completion info and its SCSI
command block. `cpuPrd` is `none` where the source stores `NULL`. -/
structure CompInfo where
  cpuPrd : Option ℕ
  dmaPrd : UInt32
  allocatedEntries : ℕ
  singleBuffBusaddr : UInt32
  singleDataRegion : Option Bool
  prdTablePhyAddress : UInt32
  byteCount : ℕ
  table : List PrdEntry
  deriving DecidableEq

/-- The completion info of a command whose data is one region given directly. -/
def singleRegionInfo (busaddr singleBuffBusaddr : UInt32) (byteCount : ℕ) : CompInfo :=
  { cpuPrd := none
    dmaPrd := 0
    allocatedEntries := 0
    singleBuffBusaddr
    singleDataRegion := some true
    prdTablePhyAddress := busaddr
    byteCount
    table := [] }

/-- The completion info of a command whose data is described by a table. -/
def tableInfo (cmd : ScsiCmnd) (cpuPtr : ℕ) (busaddr : UInt32) (table : List PrdEntry) : CompInfo :=
  { cpuPrd := some cpuPtr
    dmaPrd := cmd.tableBus
    allocatedEntries := prdTableSize
    singleBuffBusaddr := busaddr
    singleDataRegion := some false
    prdTablePhyAddress := cmd.tableBus
    byteCount := 0
    table }

/-- The completion info of a command without data. -/
def noDataInfo : CompInfo :=
  { cpuPrd := none
    dmaPrd := 0
    allocatedEntries := 0
    singleBuffBusaddr := 0
    singleDataRegion := none
    prdTablePhyAddress := 0
    byteCount := 0
    table := [] }

/-- The single mapped segment that a Gen IIE adapter takes without a table. -/
def singleSegment (gen : Generation) (sg : List Segment) : Option Segment :=
  match sg with
  | [seg] => if gen = .genIIE ∧ seg.dmaLength.toNat ≤ 0x10000 then some seg else none
  | _ => none

/-- `mv_ial_lib_generate_prd`; `none` stands for the return value `-1`. -/
def mvIalLibGeneratePrd (gen : Generation) (cmd : ScsiCmnd) (host : IalHost) :
    Option CompInfo × IalHost :=
  if cmd.useSg then
    match singleSegment gen cmd.sg with
    | some seg => (some (singleRegionInfo seg.dmaAddress 0 seg.dmaLength.toNat), host)
    | none =>
      let (pPRDTable, host') := mvIalLibPrdAllocate host
      if pPRDTable = 0 then (none, host')
      else
        match addSegments cmd.sg [] with
        -- the data is unmapped and `-1` returned; the popped table is not pushed back
        | none => (none, host')
        | some table => (some (tableInfo cmd pPRDTable 0 table), host')
  else if cmd.requestBufflen ≠ 0 ∧ !cmd.directionNone then
    if gen = .genIIE ∧ cmd.requestBufflen ≤ 0x10000 then
      (some (singleRegionInfo cmd.bufferBus cmd.bufferBus cmd.requestBufflen), host)
    else
      let (pPRDTable, host') := mvIalLibPrdAllocate host
      if pPRDTable = 0 then (none, host')
      else
        match mvIalLibAddBufferToPrdTable prdTableSize [] cmd.bufferBus cmd.requestBufflen true with
        | none => (none, host')
        | some table => (some (tableInfo cmd pPRDTable cmd.bufferBus table), host')
  else (some noDataInfo, host)

/-- `release_ata_mem`: the part of a command's completion that returns its table. -/
def releaseAtaMem (info : CompInfo) (host : IalHost) : IalHost :=
  match info.cpuPrd with
  | some cpuPtr => mvIalLibPrdFree host cpuPtr
  | none => host

/-- A host with the completion infos of its outstanding commands. -/
structure PoolState where
  host : IalHost
  outstanding : List CompInfo

/-- What can happen to a pool: a command asks for its descriptor table, or the
outstanding command at a position of the list completes. -/
inductive PoolEvent
  | generate (cmd : ScsiCmnd)
  | complete (position : ℕ)

/-- One event. The answer of a `generate` tells whether the call succeeded. -/
def poolStep (gen : Generation) (s : PoolState) : PoolEvent → Option (Bool × PoolState)
  | .generate cmd =>
    match mvIalLibGeneratePrd gen cmd s.host with
    | (some info, host) => some (true, ⟨host, s.outstanding ++ [info]⟩)
    | (none, host) => some (false, ⟨host, s.outstanding⟩)
  | .complete position =>
    match s.outstanding[position]? with
    | none => none
    | some info => some (true, ⟨releaseAtaMem info s.host, s.outstanding.eraseIdx position⟩)

/-- The tables that outstanding commands hold. -/
def PoolState.heldTables (s : PoolState) : List ℕ := s.outstanding.filterMap CompInfo.cpuPrd

/-- The tables on the free stack. -/
def IalHost.freeTables (host : IalHost) : List ℕ :=
  (List.range host.freePRDsNum.toNat).map host.prdPoolAligned

/-- A command whose data `mv_ial_lib_generate_prd` describes by a table. -/
def NeedsTable (gen : Generation) (cmd : ScsiCmnd) : Prop :=
  if cmd.useSg then singleSegment gen cmd.sg = none
  else (cmd.requestBufflen ≠ 0 ∧ cmd.directionNone = false) ∧
    ¬(gen = .genIIE ∧ cmd.requestBufflen ≤ 0x10000)

instance (gen : Generation) (cmd : ScsiCmnd) : Decidable (NeedsTable gen cmd) :=
  inferInstanceAs (Decidable (if cmd.useSg then _ else _))

/-- The data of a command can be described by one table. -/
def BufferFits (cmd : ScsiCmnd) : Prop :=
  if cmd.useSg then SegmentsFit cmd.sg
  else EvenBuffer cmd.bufferBus cmd.requestBufflen ∧ pieces cmd.requestBufflen ≤ prdTableSize

instance (cmd : ScsiCmnd) : Decidable (BufferFits cmd) :=
  inferInstanceAs (Decidable (if cmd.useSg then _ else _))

/-- The condition under which an event conserves the pool: a call that needs a
table finds one on the stack and can describe its data in it. -/
def TableAvailable (gen : Generation) (s : PoolState) : PoolEvent → Prop
  | .generate cmd => NeedsTable gen cmd → 0 < s.host.freePRDsNum.toNat ∧ BufferFits cmd
  | .complete _ => True

instance (gen : Generation) (s : PoolState) (e : PoolEvent) : Decidable (TableAvailable gen s e) :=
  match e with
  | .generate cmd =>
    inferInstanceAs (Decidable (NeedsTable gen cmd → 0 < s.host.freePRDsNum.toNat ∧ BufferFits cmd))
  | .complete _ => inferInstanceAs (Decidable True)

/-- Blocks of one table each that do not overlap, as `kmalloc` returns them. -/
def DisjointBlocks (gen : Generation) (kmalloc : ℕ → ℕ) : Prop :=
  ∀ i < gen.poolSize, ∀ j < gen.poolSize, i ≠ j →
    kmalloc i + (prdEntrySize * prdTableSize + 16) ≤ kmalloc j ∨
      kmalloc j + (prdEntrySize * prdTableSize + 16) ≤ kmalloc i

/-- The free stack and the held tables together are the tables of the pool. -/
structure PoolInvariant (gen : Generation) (tables : List ℕ) (s : PoolState) : Prop where
  bounded : s.host.freePRDsNum.toNat ≤ gen.poolSize
  length_eq : tables.length = gen.poolSize
  nonNull : 0 ∉ tables
  perm : (s.host.freeTables ++ s.heldTables).Perm tables

/-- The specification of `mv_ial_lib_generate_prd` for a command that needs no
table: it succeeds, takes none and leaves the pool alone. -/
theorem generatePrd_of_not_needsTable {gen : Generation} {cmd : ScsiCmnd} (host : IalHost)
    (hneeds : ¬NeedsTable gen cmd) :
    ∃ info, mvIalLibGeneratePrd gen cmd host = (some info, host) ∧ info.cpuPrd = none := by
  unfold NeedsTable at hneeds
  unfold mvIalLibGeneratePrd
  by_cases hsg : cmd.useSg = true
  · simp only [hsg, if_true] at hneeds ⊢
    obtain ⟨seg, hseg⟩ := Option.ne_none_iff_exists'.mp hneeds
    rw [hseg]
    exact ⟨_, rfl, rfl⟩
  · simp only [hsg, Bool.false_eq_true, if_false] at hneeds ⊢
    by_cases hdata : cmd.requestBufflen ≠ 0 ∧ cmd.directionNone = false
    · have hsingle : gen = .genIIE ∧ cmd.requestBufflen ≤ 0x10000 := by
        by_contra h
        exact hneeds ⟨hdata, h⟩
      rw [if_pos (by simpa using hdata), if_pos hsingle]
      exact ⟨_, rfl, rfl⟩
    · rw [if_neg (by simpa using hdata)]
      exact ⟨_, rfl, rfl⟩

/-- A command that needs a table pops one, whether or not the call succeeds. -/
theorem generatePrd_pops {gen : Generation} {cmd : ScsiCmnd} (host : IalHost)
    (hneeds : NeedsTable gen cmd) :
    (mvIalLibGeneratePrd gen cmd host).2 = (mvIalLibPrdAllocate host).2 := by
  unfold NeedsTable at hneeds
  unfold mvIalLibGeneratePrd
  by_cases hsg : cmd.useSg = true
  · simp only [hsg, if_true] at hneeds ⊢
    simp only [hneeds]
    split
    · rfl
    · split <;> rfl
  · simp only [hsg, Bool.false_eq_true, if_false] at hneeds ⊢
    rw [if_pos (by simpa using hneeds.1), if_neg hneeds.2]
    split
    · rfl
    · split <;> rfl

/-- The answer for a command that needs a table and finds one: the call succeeds
with it exactly when the data fits. -/
theorem generatePrd_of_needsTable {gen : Generation} {cmd : ScsiCmnd} {host : IalHost}
    (hneeds : NeedsTable gen cmd) (htable : (mvIalLibPrdAllocate host).1 ≠ 0) :
    (BufferFits cmd ∧ ∃ info, (mvIalLibGeneratePrd gen cmd host).1 = some info ∧
        info.cpuPrd = some (mvIalLibPrdAllocate host).1) ∨
      (¬BufferFits cmd ∧ (mvIalLibGeneratePrd gen cmd host).1 = none) := by
  unfold NeedsTable at hneeds
  unfold mvIalLibGeneratePrd BufferFits
  by_cases hsg : cmd.useSg = true
  · simp only [hsg, if_true] at hneeds ⊢
    simp only [hneeds, if_neg htable, ← addSegments_nil_isSome_iff]
    cases hsegs : addSegments cmd.sg [] with
    | none => exact Or.inr ⟨by simp, rfl⟩
    | some table => exact Or.inl ⟨rfl, _, rfl, rfl⟩
  · simp only [hsg, Bool.false_eq_true, if_false] at hneeds ⊢
    obtain ⟨hdata, hsingle⟩ := hneeds
    rw [if_pos (by simpa using hdata), if_neg hsingle]
    simp only [if_neg htable]
    by_cases hfit : EvenBuffer cmd.bufferBus cmd.requestBufflen ∧
        pieces cmd.requestBufflen ≤ prdTableSize
    · obtain ⟨table, hadd, _⟩ :=
        (@addBuffer_some_iff prdTableSize [] cmd.bufferBus _ true hdata.1).mpr hfit
      rw [hadd]
      exact Or.inl ⟨hfit, _, rfl, rfl⟩
    · have hadd := @addBuffer_eq_none prdTableSize [] cmd.bufferBus _ true hdata.1 hfit
      rw [hadd]
      exact Or.inr ⟨hfit, rfl⟩

/-- Popping a table moves the top of the free stack. -/
theorem freeTables_allocate {host : IalHost} (hfree : 0 < host.freePRDsNum.toNat) :
    host.freeTables = (mvIalLibPrdAllocate host).2.freeTables ++
      [(mvIalLibPrdAllocate host).1] := by
  have htop : (host.freePRDsNum - 1).toNat + 1 = host.freePRDsNum.toNat := by
    have hle : (1 : UInt32) ≤ host.freePRDsNum := UInt32.le_iff_toNat_le.mpr hfree
    rw [UInt32.toNat_sub_of_le _ _ hle]
    simp only [UInt32.reduceToNat]
    omega
  simp only [IalHost.freeTables, mvIalLibPrdAllocate]
  rw [← htop, List.range_succ]
  simp

/-- Pushing a table extends the free stack. -/
theorem freeTables_free {host : IalHost} (cpuPtr : ℕ) (hroom : host.freePRDsNum.toNat < 127) :
    (mvIalLibPrdFree host cpuPtr).freeTables = host.freeTables ++ [cpuPtr] := by
  have htop : (host.freePRDsNum + 1).toNat = host.freePRDsNum.toNat + 1 := by
    simp only [UInt32.toNat_add, UInt32.reduceToNat]
    omega
  simp only [IalHost.freeTables, mvIalLibPrdFree, htop, List.range_succ, List.map_append,
    List.map_cons, List.map_nil, Function.update_self]
  congr 1
  apply List.map_congr_left
  intro i hi
  have hlt : i < host.freePRDsNum.toNat := by simpa using hi
  exact Function.update_of_ne (by omega) _ _

/-- The pool size fits the array of a host. -/
theorem Generation.poolSize_le (gen : Generation) : gen.poolSize ≤ 127 := by
  cases gen <;> decide

/-- A successful initialization lays out the tables of the blocks and frees them all. -/
theorem mvIalLibPrdInit_freeTables {gen : Generation} {kmalloc garbage : ℕ → ℕ}
    {host : IalHost} (hinit : mvIalLibPrdInit gen kmalloc garbage = some host) :
    (∀ i < gen.poolSize, kmalloc i ≠ 0) ∧ host.freePRDsNum.toNat = gen.poolSize ∧
      host.freeTables = (List.range gen.poolSize).map fun i => alignTable (kmalloc i) := by
  have hnum : (UInt32.ofNat gen.poolSize).toNat = gen.poolSize := by
    have := gen.poolSize_le
    rw [UInt32.toNat_ofNat']
    omega
  unfold mvIalLibPrdInit at hinit
  split at hinit
  next hall =>
    obtain rfl := Option.some.inj hinit
    refine ⟨hall, hnum, ?_⟩
    simp only [IalHost.freeTables, hnum]
    apply List.map_congr_left
    intro i hi
    rw [if_pos (List.mem_range.mp hi)]
  next => cases hinit

/-- The pool invariant holds right after the initialization. -/
theorem mvIalLibPrdInit_invariant {gen : Generation} {kmalloc garbage : ℕ → ℕ}
    {host : IalHost} (hinit : mvIalLibPrdInit gen kmalloc garbage = some host) :
    PoolInvariant gen host.freeTables ⟨host, []⟩ := by
  obtain ⟨hall, hnum, hfree⟩ := mvIalLibPrdInit_freeTables hinit
  refine ⟨hnum.le, by simp [IalHost.freeTables, hnum], ?_, by simp [PoolState.heldTables]⟩
  intro hzero
  rw [hfree] at hzero
  obtain ⟨i, hi, hblock⟩ := List.mem_map.mp hzero
  have := hall i (List.mem_range.mp hi)
  simp only [alignTable] at hblock
  omega

/-- The tables carved out of disjoint blocks are distinct. -/
theorem mvIalLibPrdInit_nodup {gen : Generation} {kmalloc garbage : ℕ → ℕ}
    {host : IalHost} (hinit : mvIalLibPrdInit gen kmalloc garbage = some host)
    (hdisjoint : DisjointBlocks gen kmalloc) : host.freeTables.Nodup := by
  obtain ⟨-, -, hfree⟩ := mvIalLibPrdInit_freeTables hinit
  rw [hfree]
  refine (List.nodup_map_iff_inj_on List.nodup_range).mpr ?_
  intro i hi j hj heq
  by_contra hne
  have happart := hdisjoint i (List.mem_range.mp hi) j (List.mem_range.mp hj) hne
  simp only [prdEntrySize, prdTableSize] at happart
  simp only [alignTable] at heq
  omega

/-- In a state of the invariant with a free table, the table popped is one of the pool. -/
theorem PoolInvariant.allocate_ne_zero {gen : Generation} {tables : List ℕ} {s : PoolState}
    (hinv : PoolInvariant gen tables s) (hfree : 0 < s.host.freePRDsNum.toNat) :
    (mvIalLibPrdAllocate s.host).1 ≠ 0 := by
  intro hzero
  apply hinv.nonNull
  apply hinv.perm.subset
  rw [freeTables_allocate hfree, hzero]
  simp

/-- A `generate` that finds a table and can use it keeps the invariant. -/
theorem PoolInvariant.generate {gen : Generation} {tables : List ℕ} {s s' : PoolState}
    {cmd : ScsiCmnd} {o : Bool} (hinv : PoolInvariant gen tables s)
    (havailable : TableAvailable gen s (.generate cmd))
    (hstep : poolStep gen s (.generate cmd) = some (o, s')) :
    o = true ∧ PoolInvariant gen tables s' := by
  by_cases hneeds : NeedsTable gen cmd
  · obtain ⟨hfree, hfits⟩ := havailable hneeds
    have hpops := generatePrd_pops s.host hneeds
    rcases generatePrd_of_needsTable hneeds (hinv.allocate_ne_zero hfree) with
      ⟨_, info, hgen, hptr⟩ | ⟨hbad, _⟩
    · have hcall : mvIalLibGeneratePrd gen cmd s.host =
          (some info, (mvIalLibPrdAllocate s.host).2) := Prod.ext hgen hpops
      simp only [poolStep, hcall, Option.some.injEq, Prod.mk.injEq] at hstep
      obtain ⟨rfl, rfl⟩ := hstep
      have hsplit := freeTables_allocate hfree
      refine ⟨rfl, ?_, hinv.length_eq, hinv.nonNull, ?_⟩
      · have hlen := congrArg List.length hsplit
        simp only [IalHost.freeTables, List.length_append, List.length_map, List.length_range,
          List.length_singleton] at hlen
        have := hinv.bounded
        dsimp only
        omega
      · have hperm := hinv.perm
        rw [hsplit] at hperm
        simp only [PoolState.heldTables, List.filterMap_append, List.filterMap_cons, hptr,
          List.filterMap_nil]
        refine List.Perm.trans ?_ hperm
        rw [List.append_assoc]
        exact List.Perm.append_left _ List.perm_append_comm
    · exact absurd hfits hbad
  · obtain ⟨info, hgen, hptr⟩ := generatePrd_of_not_needsTable s.host hneeds
    simp only [poolStep, hgen, Option.some.injEq, Prod.mk.injEq] at hstep
    obtain ⟨rfl, rfl⟩ := hstep
    refine ⟨rfl, hinv.bounded, hinv.length_eq, hinv.nonNull, ?_⟩
    simpa [PoolState.heldTables, List.filterMap_append, hptr] using hinv.perm

/-- Removing one completed command removes its table from the held ones. -/
theorem heldTables_eraseIdx {s : PoolState} {position : ℕ} {info : CompInfo}
    (hinfo : s.outstanding[position]? = some info) :
    s.heldTables.Perm
      (info.cpuPrd.toList ++ (s.outstanding.eraseIdx position).filterMap CompInfo.cpuPrd) := by
  obtain ⟨hlt, hget⟩ := List.getElem?_eq_some_iff.mp hinfo
  have hperm := (List.getElem_cons_eraseIdx_perm hlt).symm.filterMap CompInfo.cpuPrd
  rw [hget] at hperm
  refine hperm.trans ?_
  cases hptr : info.cpuPrd <;> simp [hptr]

/-- A completion keeps the invariant. -/
theorem PoolInvariant.complete {gen : Generation} {tables : List ℕ} {s s' : PoolState}
    {position : ℕ} {o : Bool} (hinv : PoolInvariant gen tables s)
    (hstep : poolStep gen s (.complete position) = some (o, s')) :
    PoolInvariant gen tables s' := by
  cases hinfo : s.outstanding[position]? with
  | none => simp [poolStep, hinfo] at hstep
  | some info =>
    simp only [poolStep, hinfo, Option.some.injEq, Prod.mk.injEq] at hstep
    obtain ⟨-, rfl⟩ := hstep
    have hheld := heldTables_eraseIdx hinfo
    have htotal := hinv.perm.length_eq
    rw [hinv.length_eq, List.length_append, hheld.length_eq] at htotal
    cases hptr : info.cpuPrd with
    | none =>
      simp only [hptr, Option.toList_none, List.nil_append] at hheld
      refine ⟨by simpa [releaseAtaMem, hptr] using hinv.bounded, hinv.length_eq, hinv.nonNull, ?_⟩
      simp only [releaseAtaMem, hptr]
      exact (List.Perm.append_left _ hheld.symm).trans hinv.perm
    | some cpuPtr =>
      simp only [hptr, Option.toList_some, List.singleton_append] at hheld
      simp only [IalHost.freeTables, hptr, Option.toList_some, List.length_append,
        List.length_map, List.length_range, List.length_singleton] at htotal
      have hroom : s.host.freePRDsNum.toNat < gen.poolSize := by omega
      have hfree := freeTables_free cpuPtr (lt_of_lt_of_le hroom gen.poolSize_le)
      refine ⟨?_, hinv.length_eq, hinv.nonNull, ?_⟩
      · have hlen := congrArg List.length hfree
        simp only [IalHost.freeTables, List.length_append, List.length_map, List.length_range,
          List.length_singleton] at hlen
        simp only [releaseAtaMem, hptr]
        omega
      · simp only [releaseAtaMem, hptr, hfree]
        refine List.Perm.trans ?_ hinv.perm
        rw [List.append_assoc]
        exact List.Perm.append_left _ hheld.symm

/-- Along every run whose calls find a table and can use it, the free stack and
the held tables are the tables of the pool. -/
theorem poolRun_invariant {gen : Generation} {host : IalHost} {trace : List (PoolEvent × Bool)}
    {s : PoolState} (hinit : PoolInvariant gen host.freeTables ⟨host, []⟩)
    (hrun : Run (poolStep gen) (TableAvailable gen) ⟨host, []⟩ trace s) :
    PoolInvariant gen host.freeTables s := by
  refine Run.invariant (I := fun _ s => PoolInvariant gen host.freeTables s) hinit ?_ hrun
  intro _ s e o s' hinv havailable hstep
  cases e with
  | generate cmd => exact (hinv.generate havailable hstep).2
  | complete position => exact hinv.complete hstep

/-- In a state of the invariant the free tables are the pool without the held ones. -/
theorem PoolInvariant.count {gen : Generation} {tables : List ℕ} {s : PoolState}
    (hinv : PoolInvariant gen tables s) :
    s.host.freePRDsNum.toNat + s.heldTables.length = gen.poolSize := by
  have hlen := hinv.perm.length_eq
  rw [hinv.length_eq, List.length_append] at hlen
  simpa [IalHost.freeTables] using hlen

/-- A call that needs a table but finds none, or cannot use the one it pops,
leaves a wrong count behind or a changed pool after a failure. -/
theorem PoolInvariant.generate_unavailable {gen : Generation} {tables : List ℕ}
    {s s' : PoolState} {cmd : ScsiCmnd} {o : Bool} (hinv : PoolInvariant gen tables s)
    (hunavailable : ¬TableAvailable gen s (.generate cmd))
    (hstep : poolStep gen s (.generate cmd) = some (o, s')) :
    ¬(s'.host.freePRDsNum.toNat + s'.heldTables.length = gen.poolSize ∧
      (o = false → s'.host = s.host)) := by
  simp only [TableAvailable, Classical.not_imp] at hunavailable
  obtain ⟨hneeds, hbad⟩ := hunavailable
  have hpops := generatePrd_pops s.host hneeds
  have hhost : s'.host = (mvIalLibPrdAllocate s.host).2 := by
    rw [← hpops]
    simp only [poolStep] at hstep
    split at hstep
    next hcall =>
      obtain ⟨-, rfl⟩ := Prod.mk.inj (Option.some.inj hstep)
      rw [hcall]
    next hcall =>
      obtain ⟨-, rfl⟩ := Prod.mk.inj (Option.some.inj hstep)
      rw [hcall]
  have htop : s'.host.freePRDsNum = s.host.freePRDsNum - 1 := by rw [hhost]; rfl
  rintro ⟨hcount, hsame⟩
  by_cases hfree : 0 < s.host.freePRDsNum.toNat
  · have hfits : ¬BufferFits cmd := fun hfits => hbad ⟨hfree, hfits⟩
    rcases generatePrd_of_needsTable hneeds (hinv.allocate_ne_zero hfree) with
      ⟨h, _⟩ | ⟨_, hnone⟩
    · exact hfits h
    · have hcall : mvIalLibGeneratePrd gen cmd s.host =
          (none, (mvIalLibPrdAllocate s.host).2) := Prod.ext hnone hpops
      simp only [poolStep, hcall, Option.some.injEq, Prod.mk.injEq] at hstep
      have hequal := congrArg IalHost.freePRDsNum (hsame hstep.1.symm)
      rw [htop] at hequal
      have := congrArg UInt32.toNat hequal
      rw [UInt32.toNat_sub, show (1 : UInt32).toNat = 1 from rfl] at this
      have := s.host.freePRDsNum.toNat_lt
      omega
  · have hwrap : s'.host.freePRDsNum.toNat = 2 ^ 32 - 1 := by
      have hzero : s.host.freePRDsNum.toNat = 0 := by omega
      rw [htop, UInt32.toNat_sub, hzero]
      rfl
    have := gen.poolSize_le
    omega

/-- Conservation of the pool. Along every run in which each call that needs a
table finds one and can describe its data in it, no table is held twice and the
free tables are the pool without the held ones. In each state reached that way
this condition is also the exact one for the next call: the call keeps the count
and changes nothing when it fails if and only if it meets the condition. -/
theorem poolRun_conserves {gen : Generation} {kmalloc garbage : ℕ → ℕ} {host : IalHost}
    {trace : List (PoolEvent × Bool)} {s : PoolState}
    (hinit : mvIalLibPrdInit gen kmalloc garbage = some host)
    (hdisjoint : DisjointBlocks gen kmalloc)
    (hrun : Run (poolStep gen) (TableAvailable gen) ⟨host, []⟩ trace s) :
    s.heldTables.Nodup ∧
      s.host.freePRDsNum.toNat = gen.poolSize - s.heldTables.length ∧
      s.heldTables.length ≤ gen.poolSize ∧
      ∀ cmd o s', poolStep gen s (.generate cmd) = some (o, s') →
        ((s'.host.freePRDsNum.toNat + s'.heldTables.length = gen.poolSize ∧
            (o = false → s'.host = s.host)) ↔
          TableAvailable gen s (.generate cmd)) := by
  have hinv := poolRun_invariant (mvIalLibPrdInit_invariant hinit) hrun
  have hcount := hinv.count
  have hnodup := (hinv.perm.nodup_iff).mpr (mvIalLibPrdInit_nodup hinit hdisjoint)
  refine ⟨(List.nodup_append.mp hnodup).2.1, by omega, by omega, ?_⟩
  intro cmd o s' hstep
  constructor
  · intro hkept
    by_contra hunavailable
    exact hinv.generate_unavailable hunavailable hstep hkept
  · intro havailable
    obtain ⟨rfl, hinv'⟩ := hinv.generate havailable hstep
    exact ⟨hinv'.count, by simp⟩

/-- A host whose 31 tables lie one page apart. -/
def pagedHost : IalHost :=
  { prdPoolAligned := fun i => if i < 31 then alignTable (4096 * (i + 1)) else 0
    freePRDsNum := 31 }

/-- A read of `len` bytes into one buffer at bus address `busaddr`. -/
def bufferCmnd (busaddr : UInt32) (len : ℕ) : ScsiCmnd :=
  { useSg := false
    sg := []
    requestBufflen := len
    directionNone := false
    bufferBus := busaddr
    tableBus := 0 }

theorem mvIalLibPrdInit_pagedHost :
    mvIalLibPrdInit .genII (fun i => 4096 * (i + 1)) (fun _ => 0) = some pagedHost := by
  rw [mvIalLibPrdInit, if_pos (by intro i _; omega)]
  rfl

theorem disjointBlocks_paged : DisjointBlocks .genII fun i => 4096 * (i + 1) := by
  intro i _ j _ hne
  simp only [prdEntrySize, prdTableSize]
  omega

/-- Conservation on a run of two reads, the first of which completes. -/
theorem poolRun_conserves_two_reads :
    ∃ trace s, Run (poolStep .genII) (TableAvailable .genII) ⟨pagedHost, []⟩ trace s ∧
      trace.length = 3 ∧ s.heldTables.Nodup ∧
      s.host.freePRDsNum.toNat = Generation.poolSize .genII - s.heldTables.length := by
  have hrun : Run (poolStep .genII) (TableAvailable .genII) ⟨pagedHost, []⟩ _ _ :=
    Run.of_exec [.generate (bufferCmnd 0x1000 512), .generate (bufferCmnd 0x2000 512),
      .complete 0] rfl
  have hconserves := poolRun_conserves mvIalLibPrdInit_pagedHost disjointBlocks_paged hrun
  exact ⟨_, _, hrun, rfl, hconserves.1, hconserves.2.1⟩

/-- A read into a buffer at an odd bus address is refused after its table was
popped: no command is outstanding, and one of the 31 tables is gone. -/
theorem poolRun_leaks_table :
    ∃ trace s, Run (poolStep .genII) (fun _ _ => True) ⟨pagedHost, []⟩ trace s ∧
      trace.map Prod.snd = [false] ∧ s.heldTables = [] ∧
      s.host.freePRDsNum.toNat = 30 ∧
      s.host.freePRDsNum.toNat ≠ Generation.poolSize .genII - s.heldTables.length := by
  have hrun : Run (poolStep .genII) (fun _ _ => True) ⟨pagedHost, []⟩ _ _ :=
    Run.of_exec [.generate (bufferCmnd 0x1001 512)] rfl
  exact ⟨_, _, hrun, rfl, rfl, rfl, by decide⟩

end Mv88fxx81.Sata
