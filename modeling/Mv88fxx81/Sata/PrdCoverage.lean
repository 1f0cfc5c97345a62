import Mathlib.Data.List.Basic
import Mathlib.Data.List.Range
import Mathlib.Data.List.TakeWhile
import Mv88fxx81.Sata.PrdPool

/-!
# What a table covers

The EDMA reads or writes the bytes that the entries of a table name, one entry after the other, up
to the entry with the end-of-table flag. A table that `mv_ial_lib_generate_prd` has built names
exactly the bytes of the scatter list.
-/

namespace Mv88fxx81.Sata

variable {remaining len : ℕ} {addr : UInt32} {table table' written : List PrdEntry}
  {segs rest : List Segment} {seg : Segment}

/-- The bus addresses of `len` bytes from `addr` on. -/
def busBytes (addr : UInt32) (len : ℕ) : List UInt32 :=
  (List.range len).map fun i => addr + UInt32.ofNat i

/-- The length that an entry has for the EDMA. -/
def PrdEntry.length (entry : PrdEntry) : ℕ :=
  if entry.byteCount = 0 then 0x10000 else entry.byteCount.toNat

/-- The bytes that an entry names. -/
def PrdEntry.bytes (entry : PrdEntry) : List UInt32 := busBytes entry.lowBaseAddr entry.length

/-- The bytes of a segment. -/
def Segment.bytes (seg : Segment) : List UInt32 := busBytes seg.dmaAddress seg.dmaLength.toNat

/-- The end-of-table flag is on the last entry, and on no other one. -/
def EndsOnce (table : List PrdEntry) : Prop :=
  ∀ i (entry : PrdEntry), table[i]? = some entry →
    entry.flags = if i + 1 = table.length then prdEotFlag else 0

/-- The entries that the loop of `mv_ial_lib_add_buffer_to_prd_table` writes, whether or not it
fails after that. The entry of a piece of odd length is written before its length is tested. -/
def entriesWritten : ℕ → UInt32 → ℕ → ℕ
  | _, _, 0 => 0
  | 0, _, _ + 1 => 0
  | remaining + 1, addr, len + 1 =>
    let bcount := min (len + 1) 0x10000
    if addr.toNat % 2 ≠ 0 then 0
    else if bcount % 0x10000 % 2 ≠ 0 then 1
    else entriesWritten remaining (addr + UInt32.ofNat bcount) (len + 1 - bcount) + 1

/-- The entries that the scatter loop has written when it ends or fails, behind `count` ones. -/
def scatterWritten : List Segment → ℕ → ℕ
  | [], count => count
  | seg :: rest, count =>
    if seg.dmaLength = 0 then count
    else
      let written := entriesWritten (prdTableSize - count) seg.dmaAddress seg.dmaLength.toNat
      match addBufferLoop (prdTableSize - count) seg.dmaAddress seg.dmaLength.toNat with
      | none => count + written
      | some _ => scatterWritten rest (count + written)

/-! ### Bytes -/

theorem busBytes_append (addr : UInt32) (m n : ℕ) :
    busBytes addr (m + n) = busBytes addr m ++ busBytes (addr + UInt32.ofNat m) n := by
  unfold busBytes
  rw [List.range_add, List.map_append, List.map_map]
  congr 1
  apply List.map_congr_left
  intro i _
  rw [Function.comp_apply, UInt32.ofNat_add, UInt32.add_assoc]

/-- The length of a piece is that of its entry: 64 KByte are encoded as zero. -/
theorem prdEntryOf_length (addr : UInt32) {bcount : ℕ} (hpos : 0 < bcount)
    (hle : bcount ≤ 0x10000) : (prdEntryOf addr bcount).length = bcount := by
  have hcount : (prdEntryOf addr bcount).byteCount.toNat = bcount % 0x10000 :=
    UInt16.toNat_ofNat'
  unfold PrdEntry.length
  by_cases hzero : (prdEntryOf addr bcount).byteCount = 0
  · have hmod : bcount % 0x10000 = 0 := by
      rw [← hcount, hzero]
      rfl
    rw [if_pos hzero]
    omega
  · have hmod : bcount % 0x10000 ≠ 0 := by
      rw [← hcount]
      exact fun h => hzero (UInt16.toNat_inj.1 h)
    rw [if_neg hzero, hcount]
    omega

/-- The entry of a piece names the bytes of the piece. -/
theorem prdEntryOf_bytes (addr : UInt32) {bcount : ℕ} (hpos : 0 < bcount)
    (hle : bcount ≤ 0x10000) : (prdEntryOf addr bcount).bytes = busBytes addr bcount := by
  unfold PrdEntry.bytes
  rw [prdEntryOf_length addr hpos hle]
  rfl

/-- Every entry has a length that its byte count encodes. -/
theorem entry_length (entry : PrdEntry) :
    ∃ n, 1 ≤ n ∧ n ≤ 0x10000 ∧ entry.length = n ∧ entry.byteCount = UInt16.ofNat n := by
  have hlt := entry.byteCount.toNat_lt
  refine ⟨entry.length, ?_, ?_, rfl, ?_⟩
  all_goals unfold PrdEntry.length
  all_goals by_cases hzero : entry.byteCount = 0
  · rw [if_pos hzero]
    decide
  · have hne : entry.byteCount.toNat ≠ 0 := fun h => hzero (UInt16.toNat_inj.1 h)
    rw [if_neg hzero]
    omega
  · rw [if_pos hzero]
  · rw [if_neg hzero]
    omega
  · rw [if_pos hzero, hzero]
    rfl
  · rw [if_neg hzero, UInt16.ofNat_toNat]

/-- The entries that the loop writes name the bytes of the buffer. -/
theorem addBufferLoop_bytes (hok : addBufferLoop remaining addr len = some written) :
    written.flatMap PrdEntry.bytes = busBytes addr len := by
  induction remaining generalizing addr len written with
  | zero =>
    cases len with
    | zero =>
      obtain rfl : [] = written := by simpa [addBufferLoop] using hok
      rfl
    | succ len => simp [addBufferLoop] at hok
  | succ remaining ih =>
    cases len with
    | zero =>
      obtain rfl : [] = written := by simpa [addBufferLoop] using hok
      rfl
    | succ len =>
      simp only [addBufferLoop] at hok
      split at hok
      · cases hok
      · split at hok
        · cases hok
        · obtain ⟨later, hlater, rfl⟩ := Option.map_eq_some_iff.1 hok
          have hsum : min (len + 1) 0x10000 + (len + 1 - min (len + 1) 0x10000) = len + 1 := by
            omega
          rw [List.flatMap_cons, ih hlater, prdEntryOf_bytes _ (by omega) (by omega),
            ← busBytes_append, hsum]

/-- The entries that the loop writes have no flags and a zero high address. -/
theorem addBufferLoop_flags (hok : addBufferLoop remaining addr len = some written) :
    ∀ entry ∈ written, entry.flags = 0 ∧ entry.highBaseAddr = 0 := by
  induction remaining generalizing addr len written with
  | zero =>
    cases len with
    | zero =>
      obtain rfl : [] = written := by simpa [addBufferLoop] using hok
      simp
    | succ len => simp [addBufferLoop] at hok
  | succ remaining ih =>
    cases len with
    | zero =>
      obtain rfl : [] = written := by simpa [addBufferLoop] using hok
      simp
    | succ len =>
      simp only [addBufferLoop] at hok
      split at hok
      · cases hok
      · split at hok
        · cases hok
        · obtain ⟨later, hlater, rfl⟩ := Option.map_eq_some_iff.1 hok
          intro entry hmem
          rcases List.mem_cons.1 hmem with rfl | hmem
          · exact ⟨rfl, rfl⟩
          · exact ih hlater entry hmem

theorem entriesWritten_le (remaining : ℕ) (addr : UInt32) (len : ℕ) :
    entriesWritten remaining addr len ≤ remaining := by
  induction remaining generalizing addr len with
  | zero =>
    cases len with
    | zero => exact Nat.le_refl _
    | succ len => exact Nat.le_refl _
  | succ remaining ih =>
    cases len with
    | zero => exact Nat.zero_le _
    | succ len =>
      unfold entriesWritten
      dsimp only
      split
      · exact Nat.zero_le _
      · split
        · omega
        · exact Nat.succ_le_succ (ih _ _)

/-- The scatter loop never writes behind the table. -/
theorem scatterWritten_le (segs : List Segment) {count : ℕ} (hcount : count ≤ prdTableSize) :
    scatterWritten segs count ≤ prdTableSize := by
  induction segs generalizing count with
  | nil => exact hcount
  | cons seg rest ih =>
    have hwritten := entriesWritten_le (prdTableSize - count) seg.dmaAddress seg.dmaLength.toNat
    unfold scatterWritten
    split
    · exact hcount
    · dsimp only
      split
      · omega
      · exact ih (by omega)

/-! ### The end of the table -/

theorem markEot_bytes (table : List PrdEntry) :
    (markEot table).flatMap PrdEntry.bytes = table.flatMap PrdEntry.bytes := by
  unfold markEot
  generalize table.length - 1 = i
  induction table generalizing i with
  | nil => rw [List.modify_nil]
  | cons entry table ih =>
    cases i with
    | zero => rfl
    | succ i =>
      rw [List.modify_succ_cons, List.flatMap_cons, List.flatMap_cons, ih]

/-- Marking the last entry of a table without flags. -/
theorem markEot_endsOnce (hnone : ∀ entry ∈ table, entry.flags = 0) : EndsOnce (markEot table) := by
  intro i entry hentry
  rw [markEot_length]
  unfold markEot at hentry
  rw [List.getElem?_modify] at hentry
  obtain ⟨old, hold, rfl⟩ := Option.map_eq_some_iff.1 hentry
  obtain ⟨hlt, rfl⟩ := List.getElem?_eq_some_iff.1 hold
  by_cases hlast : table.length - 1 = i
  · rw [if_pos hlast, if_pos (by omega)]
  · rw [if_neg hlast, if_neg (by omega)]
    exact hnone _ (List.getElem_mem hlt)

theorem markEot_high (hhigh : ∀ entry ∈ table, entry.highBaseAddr = 0) :
    ∀ entry ∈ markEot table, entry.highBaseAddr = 0 := by
  intro entry hmem
  obtain ⟨i, hi⟩ := List.getElem?_of_mem hmem
  unfold markEot at hi
  rw [List.getElem?_modify] at hi
  obtain ⟨old, hold, rfl⟩ := Option.map_eq_some_iff.1 hi
  have hzero := hhigh old (List.mem_of_getElem? hold)
  split
  · exact hzero
  · exact hzero

/-- One buffer more. -/
theorem addBuffer_covers {isEOT : Bool}
    (hadd : mvIalLibAddBufferToPrdTable prdTableSize table addr len isEOT = some table')
    (hnone : ∀ entry ∈ table, entry.flags = 0 ∧ entry.highBaseAddr = 0) :
    ∃ longer : List PrdEntry, (∀ entry ∈ longer, entry.flags = 0 ∧ entry.highBaseAddr = 0) ∧
      longer.flatMap PrdEntry.bytes = table.flatMap PrdEntry.bytes ++ busBytes addr len ∧
      table' = if isEOT then markEot longer else longer := by
  unfold mvIalLibAddBufferToPrdTable at hadd
  cases hwritten : addBufferLoop (prdTableSize - table.length) addr len with
  | none =>
    rw [hwritten] at hadd
    cases hadd
  | some written =>
    rw [hwritten] at hadd
    dsimp only at hadd
    split at hadd
    · cases hadd
    · refine ⟨table ++ written, fun entry hmem => ?_, ?_, (Option.some.inj hadd).symm⟩
      · rcases List.mem_append.1 hmem with hmem | hmem
        · exact hnone entry hmem
        · exact addBufferLoop_flags hwritten entry hmem
      · rw [List.flatMap_append, addBufferLoop_bytes hwritten]

/-- The entries of a scatter list in which no segment is empty, behind a table without flags. -/
theorem addSegments_covers (hnonempty : ∀ seg ∈ segs, seg.dmaLength ≠ 0)
    (hnone : ∀ entry ∈ table, entry.flags = 0 ∧ entry.highBaseAddr = 0)
    (hok : addSegments segs table = some table') :
    table'.flatMap PrdEntry.bytes = table.flatMap PrdEntry.bytes ++ segs.flatMap Segment.bytes ∧
      (∀ entry ∈ table', entry.highBaseAddr = 0) ∧ (segs ≠ [] → EndsOnce table') := by
  induction segs generalizing table with
  | nil =>
    obtain rfl := Option.some.inj hok
    exact ⟨by simp, fun entry hmem => (hnone entry hmem).2, fun hne => absurd rfl hne⟩
  | cons seg rest ih =>
    obtain ⟨hlength, hrest⟩ := List.forall_mem_cons.1 hnonempty
    unfold addSegments at hok
    rw [if_neg hlength] at hok
    cases hadd : mvIalLibAddBufferToPrdTable prdTableSize table seg.dmaAddress
        seg.dmaLength.toNat (endsTable rest) with
    | none =>
      rw [hadd] at hok
      cases hok
    | some added =>
      rw [hadd] at hok
      obtain ⟨longer, hlonger, hbytes, rfl⟩ := addBuffer_covers hadd hnone
      cases rest with
      | nil =>
        obtain rfl := Option.some.inj hok
        refine ⟨?_, markEot_high fun entry hmem => (hlonger entry hmem).2, fun _ =>
          markEot_endsOnce fun entry hmem => (hlonger entry hmem).1⟩
        show (markEot longer).flatMap PrdEntry.bytes = _
        rw [markEot_bytes, hbytes, List.flatMap_singleton]
        rfl
      | cons next later =>
        have hnext : endsTable (next :: later) = false :=
          beq_false_of_ne (hrest next List.mem_cons_self)
        rw [hnext] at hok
        obtain ⟨hcovers, hhigh, hends⟩ := ih hrest hlonger hok
        refine ⟨?_, hhigh, fun _ => hends (by simp)⟩
        rw [hcovers, hbytes, List.append_assoc, List.flatMap_cons (x := seg)]
        rfl

theorem addSegments_length (hok : addSegments segs table = some table')
    (htable : table.length ≤ prdTableSize) : table'.length ≤ prdTableSize := by
  induction segs generalizing table with
  | nil =>
    obtain rfl := Option.some.inj hok
    exact htable
  | cons seg rest ih =>
    unfold addSegments at hok
    split at hok
    · obtain rfl := Option.some.inj hok
      exact htable
    · rename_i hlength
      have hlen : seg.dmaLength.toNat ≠ 0 := fun h => hlength (UInt32.toNat_inj.1 h)
      by_cases hfit : EvenBuffer seg.dmaAddress seg.dmaLength.toNat ∧
          pieces seg.dmaLength.toNat ≤ prdTableSize - table.length
      · obtain ⟨added, hadd, hlonger⟩ :=
          (@addBuffer_some_iff _ _ _ _ (endsTable rest) hlen).2 hfit
        rw [hadd] at hok
        exact ih hok (by omega)
      · rw [addBuffer_eq_none hlen hfit] at hok
        cases hok

/-! ### The table of a command -/

/-- Where no segment is empty, the scatter loop visits all of them. -/
theorem visitedSegments_eq (hnonempty : ∀ seg ∈ segs, seg.dmaLength ≠ 0) :
    visitedSegments segs = segs := by
  unfold visitedSegments
  rw [List.takeWhile_eq_self_iff]
  intro seg hmem
  exact decide_eq_true (hnonempty seg hmem)

theorem singleSegment_some {gen : Generation} (hseg : singleSegment gen segs = some seg) :
    segs = [seg] ∧ seg.dmaLength.toNat ≤ 0x10000 := by
  unfold singleSegment at hseg
  split at hseg
  · split at hseg
    · rename_i hgen
      obtain rfl := Option.some.inj hseg
      exact ⟨rfl, hgen.2⟩
    · cases hseg
  · cases hseg

/-- The answers for a scatter list. -/
theorem generatePrd_sg {gen : Generation} {cmd : ScsiCmnd} (hsg : cmd.useSg = true)
    (host : IalHost) :
    (mvIalLibGeneratePrd gen cmd host).1 =
      match singleSegment gen cmd.sg with
      | some seg => some (singleRegionInfo seg.dmaAddress 0 seg.dmaLength.toNat)
      | none =>
        if (mvIalLibPrdAllocate host).1 = 0 then none
        else (addSegments cmd.sg []).map fun table =>
          tableInfo cmd (mvIalLibPrdAllocate host).1 0 table := by
  unfold mvIalLibGeneratePrd
  rw [if_pos hsg]
  cases singleSegment gen cmd.sg with
  | some seg => rfl
  | none =>
    dsimp only
    split
    · rfl
    · cases addSegments cmd.sg [] with
      | none => rfl
      | some table => rfl

/-- **Coverage of a scatter list.** For a scatter list without empty segments a table is built if
and only if all its segments are even and fit into one table, and the pool has one; otherwise the
call fails. The table names exactly the bytes of the segments, in their order, and is ended by its
last entry, and only by that one. Also where the call fails, nothing is written behind the table. A
Gen IIE adapter needs no table for one segment of up to 64 KByte. -/
theorem generatePrd_covers {gen : Generation} {cmd : ScsiCmnd} {host : IalHost}
    (hsg : cmd.useSg = true) (hnonempty : ∀ seg ∈ cmd.sg, seg.dmaLength ≠ 0) :
    ((mvIalLibGeneratePrd gen cmd host).1 = none ↔
      NeedsTable gen cmd ∧ ((mvIalLibPrdAllocate host).1 = 0 ∨
        ¬((∀ seg ∈ cmd.sg, EvenBuffer seg.dmaAddress seg.dmaLength.toNat) ∧
          (cmd.sg.map fun seg => pieces seg.dmaLength.toNat).sum ≤ prdTableSize))) ∧
    scatterWritten cmd.sg 0 ≤ prdTableSize ∧
    ∀ info, (mvIalLibGeneratePrd gen cmd host).1 = some info →
      if NeedsTable gen cmd then
        info.table.flatMap PrdEntry.bytes = cmd.sg.flatMap Segment.bytes ∧
        (∀ entry ∈ info.table, entry.highBaseAddr = 0 ∧
          ∃ n, 1 ≤ n ∧ n ≤ 0x10000 ∧ entry.length = n ∧ entry.byteCount = UInt16.ofNat n) ∧
        EndsOnce info.table ∧ info.table.length ≤ prdTableSize
      else
        ∃ seg, cmd.sg = [seg] ∧ info.table = [] ∧ info.prdTablePhyAddress = seg.dmaAddress ∧
          info.byteCount = seg.dmaLength.toNat ∧ info.byteCount ≤ 0x10000 := by
  have hfits := addSegments_nil_isSome_iff cmd.sg
  unfold SegmentsFit at hfits
  rw [visitedSegments_eq hnonempty] at hfits
  have hneeds : NeedsTable gen cmd ↔ singleSegment gen cmd.sg = none := by
    unfold NeedsTable
    rw [if_pos hsg]
  rw [← hfits, generatePrd_sg hsg host]
  refine ⟨?_, scatterWritten_le cmd.sg (Nat.zero_le _), fun info hinfo => ?_⟩
  · rw [hneeds]
    cases hsingle : singleSegment gen cmd.sg with
    | some seg => simp
    | none =>
      dsimp only
      by_cases hfree : (mvIalLibPrdAllocate host).1 = 0
      · simp [hfree]
      · simp [hfree]
  · by_cases htable : NeedsTable gen cmd
    · rw [if_pos htable]
      rw [hneeds.1 htable] at hinfo
      dsimp only at hinfo
      split at hinfo
      · cases hinfo
      · obtain ⟨table, hok, rfl⟩ := Option.map_eq_some_iff.1 hinfo
        obtain ⟨hbytes, hhigh, hends⟩ := addSegments_covers hnonempty (by simp) hok
        refine ⟨hbytes, fun entry hmem => ⟨hhigh entry hmem, ?_⟩, ?_,
          addSegments_length hok (Nat.zero_le _)⟩
        · exact entry_length entry
        · by_cases hempty : cmd.sg = []
          · rw [hempty] at hok
            obtain rfl := Option.some.inj hok
            intro i entry hentry
            cases hentry
          · exact hends hempty
    · rw [if_neg htable]
      rw [hneeds] at htable
      obtain ⟨seg, hseg⟩ := Option.ne_none_iff_exists'.1 htable
      rw [hseg] at hinfo
      obtain rfl := Option.some.inj hinfo
      obtain ⟨hsegs, hlength⟩ := singleSegment_some hseg
      exact ⟨seg, hsegs, rfl, rfl, rfl, hlength⟩

/-- A read into the segments of a scatter list. -/
def scatterCmnd (sg : List Segment) : ScsiCmnd :=
  { useSg := true
    sg
    requestBufflen := 0
    directionNone := false
    bufferBus := 0
    tableBus := 0 }

/-- A segment of 96 KByte takes two entries, and one of 512 bytes the third and last. -/
theorem generatePrd_covers_three :
    ∃ info, (mvIalLibGeneratePrd .genII
        (scatterCmnd [⟨0x10000, 0x18000⟩, ⟨0x40000, 0x200⟩]) pagedHost).1 = some info ∧
      info.table.flatMap PrdEntry.bytes =
        [⟨0x10000, 0x18000⟩, ⟨0x40000, 0x200⟩].flatMap Segment.bytes ∧
      info.table.map PrdEntry.flags = [0, 0, prdEotFlag] ∧ EndsOnce info.table := by
  have hsome : (mvIalLibGeneratePrd .genII
      (scatterCmnd [⟨0x10000, 0x18000⟩, ⟨0x40000, 0x200⟩]) pagedHost).1.isSome = true := by decide
  obtain ⟨info, hinfo⟩ := Option.isSome_iff_exists.1 hsome
  have hflags : (mvIalLibGeneratePrd .genII
      (scatterCmnd [⟨0x10000, 0x18000⟩, ⟨0x40000, 0x200⟩]) pagedHost).1.map
        (fun info => info.table.map PrdEntry.flags) = some [0, 0, prdEotFlag] := by decide
  rw [hinfo] at hflags
  obtain ⟨-, -, hcovers⟩ := @generatePrd_covers .genII
    (scatterCmnd [⟨0x10000, 0x18000⟩, ⟨0x40000, 0x200⟩]) pagedHost rfl (by decide)
  have htable := hcovers info hinfo
  rw [if_pos (by decide)] at htable
  exact ⟨info, hinfo, htable.1, Option.some.inj hflags, htable.2.2.1⟩

/-- A segment of 512 bytes at an odd address fits into a table, but no table is built. -/
theorem generatePrd_refuses_odd :
    ¬∀ gen cmd host, cmd.useSg = true → (∀ seg ∈ cmd.sg, seg.dmaLength ≠ 0) →
      (cmd.sg.map fun seg => pieces seg.dmaLength.toNat).sum ≤ prdTableSize →
      NeedsTable gen cmd → (mvIalLibPrdAllocate host).1 ≠ 0 →
      ∃ info, (mvIalLibGeneratePrd gen cmd host).1 = some info ∧
        info.table.flatMap PrdEntry.bytes = cmd.sg.flatMap Segment.bytes := by
  intro hclaim
  obtain ⟨info, hinfo, -⟩ := hclaim .genII (scatterCmnd [⟨0x10001, 0x200⟩]) pagedHost rfl
    (by decide) (by decide) (by decide) (by decide)
  have hnone : (mvIalLibGeneratePrd .genII (scatterCmnd [⟨0x10001, 0x200⟩]) pagedHost).1 =
    none := by
    decide
  rw [hnone] at hinfo
  cases hinfo

end Mv88fxx81.Sata
