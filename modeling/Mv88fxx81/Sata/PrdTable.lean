import Mathlib.Algebra.BigOperators.Group.List.Basic
import Mathlib.Algebra.GroupWithZero.Nat
import Mathlib.Data.List.Basic
import Mathlib.Data.Nat.Basic

/-!
# Physical region descriptor tables

`mv_ial_lib_generate_prd` describes the data of a read or write command to the
EDMA by a table of physical regions. One scatter-gather segment is cut into
pieces of at most 64 KByte, each piece taking one entry of the table. This file
embeds the table builder and says exactly which scatter lists it accepts.
-/

namespace Mv88fxx81.Sata

/-- `MV_PRD_TABLE_SIZE`: the entries of one table. -/
def prdTableSize : ℕ := 64

/-- `MV_EDMA_PRD_ENTRY_SIZE` in bytes. -/
def prdEntrySize : ℕ := 16

/-- `MV_EDMA_PRD_EOT_FLAG`: marks the last region of a table. -/
def prdEotFlag : UInt16 := 0x8000

/-- `MV_SATA_EDMA_PRD_ENTRY`. A byte count of zero stands for 64 KByte. -/
structure PrdEntry where
  lowBaseAddr : UInt32
  highBaseAddr : UInt32
  byteCount : UInt16
  flags : UInt16
  deriving DecidableEq, Repr

/-- One mapped scatter-gather segment: `sg_dma_address` and `sg_dma_len`. -/
structure Segment where
  dmaAddress : UInt32
  dmaLength : UInt32
  deriving DecidableEq, Repr

/-- The entry written for `bcount` bytes at `addr`. The bus addresses of this
platform have 32 bits, so the high half is zero. -/
def prdEntryOf (addr : UInt32) (bcount : ℕ) : PrdEntry :=
  { lowBaseAddr := addr
    highBaseAddr := 0
    byteCount := UInt16.ofNat bcount
    flags := 0 }

/-- The `while (buf_len)` loop of `mv_ial_lib_add_buffer_to_prd_table`, with
`remaining` unused entries in the table. It yields the entries it writes, or
`none` where the source returns `-1`. -/
def addBufferLoop : ℕ → UInt32 → ℕ → Option (List PrdEntry)
  | _, _, 0 => some []
  | 0, _, _ + 1 => none
  | remaining + 1, addr, len + 1 =>
    let bcount := min (len + 1) 0x10000
    if addr.toNat % 2 ≠ 0 then none
    -- the parity test reads `xcount = bcount & 0xffff`
    else if bcount % 0x10000 % 2 ≠ 0 then none
    else
      (addBufferLoop remaining (addr + UInt32.ofNat bcount) (len + 1 - bcount)).map
        (prdEntryOf addr bcount :: ·)

/-- Set the end-of-table flag in the last entry written so far. -/
def markEot (table : List PrdEntry) : List PrdEntry :=
  table.modify (table.length - 1) fun entry => { entry with flags := prdEotFlag }

/-- `mv_ial_lib_add_buffer_to_prd_table`: append one buffer to the table. The
entries of `table` are those written before, so `*count` is its length. -/
def mvIalLibAddBufferToPrdTable (tableSize : ℕ) (table : List PrdEntry) (bufAddr : UInt32)
    (bufLen : ℕ) (isEOT : Bool) : Option (List PrdEntry) :=
  match addBufferLoop (tableSize - table.length) bufAddr bufLen with
  | none => none
  | some written =>
    if table ++ written = [] then none
    else some (if isEOT then markEot (table ++ written) else table ++ written)

/-- The `isEOT` flag of the scatter loop: no further segment of nonzero length
follows directly. -/
def endsTable : List Segment → Bool
  | [] => true
  | seg :: _ => seg.dmaLength == 0

/-- The scatter loop of `mv_ial_lib_generate_prd`: it stops at the first segment
of length zero, and the segment before that one carries the end-of-table flag. -/
def addSegments : List Segment → List PrdEntry → Option (List PrdEntry)
  | [], table => some table
  | seg :: rest, table =>
    if seg.dmaLength = 0 then some table
    else
      match mvIalLibAddBufferToPrdTable prdTableSize table seg.dmaAddress
          seg.dmaLength.toNat (endsTable rest) with
      | none => none
      | some table' => addSegments rest table'

/-- The table entries a buffer of `len` bytes takes. -/
def pieces (len : ℕ) : ℕ := (len + 0xffff) / 0x10000

/-- The segments the scatter loop visits: those before the first empty one. -/
def visitedSegments (segs : List Segment) : List Segment :=
  segs.takeWhile fun seg => seg.dmaLength ≠ 0

/-- A buffer whose address and length are both even. -/
def EvenBuffer (addr : UInt32) (len : ℕ) : Prop := addr.toNat % 2 = 0 ∧ len % 2 = 0

instance (addr : UInt32) (len : ℕ) : Decidable (EvenBuffer addr len) :=
  inferInstanceAs (Decidable (_ ∧ _))

/-- A scatter list that one table can describe: every visited segment starts at
an even address and has an even length, and all of them together need no more
entries than the table has. -/
def SegmentsFit (segs : List Segment) : Prop :=
  (∀ seg ∈ visitedSegments segs, EvenBuffer seg.dmaAddress seg.dmaLength.toNat) ∧
    ((visitedSegments segs).map fun seg => pieces seg.dmaLength.toNat).sum ≤ prdTableSize

instance (segs : List Segment) : Decidable (SegmentsFit segs) :=
  inferInstanceAs (Decidable (_ ∧ _))

@[simp] theorem markEot_length (table : List PrdEntry) :
    (markEot table).length = table.length := by
  simp [markEot]

/-- One full piece of 64 KByte accounts for one entry of the piece count. -/
theorem pieces_succ (len : ℕ) :
    pieces (len + 1) = pieces (len + 1 - min (len + 1) 0x10000) + 1 := by
  unfold pieces
  omega

/-- Advancing an address by a piece keeps its parity when the piece is even. -/
theorem addr_add_mod_two (addr : UInt32) (n : ℕ) (hn : n % 2 = 0) :
    (addr + UInt32.ofNat n).toNat % 2 = addr.toNat % 2 := by
  simp only [UInt32.toNat_add, UInt32.toNat_ofNat']
  omega

/-- The loop succeeds exactly on an empty buffer or on an even one that fits in
the unused entries, and it then writes one entry for each piece. -/
theorem addBufferLoop_isSome_iff (remaining : ℕ) (addr : UInt32) (len : ℕ) :
    (addBufferLoop remaining addr len).isSome ↔
      len = 0 ∨ (EvenBuffer addr len ∧ pieces len ≤ remaining) := by
  induction remaining generalizing addr len with
  | zero =>
    cases len with
    | zero => simp [addBufferLoop]
    | succ len =>
      have hpos : 0 < pieces (len + 1) := by unfold pieces; omega
      simp only [addBufferLoop, Option.isSome_none, Bool.false_eq_true, false_iff]
      rintro (hlen | ⟨_, hfit⟩) <;> omega
  | succ remaining ih =>
    cases len with
    | zero => simp [addBufferLoop]
    | succ len =>
      have hpieces := pieces_succ len
      simp only [addBufferLoop]
      by_cases haddr : addr.toNat % 2 = 0
      · by_cases hcount : min (len + 1) 0x10000 % 0x10000 % 2 = 0
        · rw [if_neg (by simpa using haddr), if_neg (by simpa using hcount)]
          have heven : min (len + 1) 0x10000 % 2 = 0 := by omega
          have hdone : len + 1 - min (len + 1) 0x10000 = 0 →
              pieces (len + 1 - min (len + 1) 0x10000) = 0 := by
            intro h
            simp [h, pieces]
          simp only [Option.isSome_map, ih, EvenBuffer, addr_add_mod_two _ _ heven]
          constructor
          · rintro (hlast | ⟨⟨_, hrest⟩, hfit⟩)
            · have := hdone hlast
              exact Or.inr ⟨⟨haddr, by omega⟩, by omega⟩
            · exact Or.inr ⟨⟨haddr, by omega⟩, by omega⟩
          · rintro (hlen | ⟨⟨_, hlen⟩, hfit⟩)
            · omega
            · exact Or.inr ⟨⟨haddr, by omega⟩, by omega⟩
        · rw [if_neg (by simpa using haddr), if_pos (by simpa using hcount)]
          simp only [EvenBuffer, Option.isSome_none, Bool.false_eq_true, false_iff]
          rintro (hlen | ⟨⟨_, hlen⟩, _⟩) <;> omega
      · rw [if_pos (by simpa using haddr)]
        simp only [EvenBuffer, Option.isSome_none, Bool.false_eq_true, false_iff]
        rintro (hlen | ⟨⟨heven, _⟩, _⟩) <;> omega

/-- Every piece takes one entry. -/
theorem addBufferLoop_length {remaining : ℕ} {addr : UInt32} {len : ℕ} {written : List PrdEntry}
    (hok : addBufferLoop remaining addr len = some written) : written.length = pieces len := by
  induction remaining generalizing addr len written with
  | zero =>
    cases len with
    | zero =>
      obtain rfl : [] = written := by simpa [addBufferLoop] using hok
      simp [pieces]
    | succ len => simp [addBufferLoop] at hok
  | succ remaining ih =>
    cases len with
    | zero =>
      obtain rfl : [] = written := by simpa [addBufferLoop] using hok
      simp [pieces]
    | succ len =>
      simp only [addBufferLoop] at hok
      split at hok
      · cases hok
      · split at hok
        · cases hok
        · obtain ⟨rest, hrest, rfl⟩ := Option.map_eq_some_iff.mp hok
          rw [List.length_cons, ih hrest, ← pieces_succ]

/-- Adding a nonempty buffer succeeds exactly when it is even and fits, and the
table then grows by its pieces. -/
theorem addBuffer_some_iff {tableSize : ℕ} {table : List PrdEntry} {addr : UInt32} {len : ℕ}
    {isEOT : Bool} (hlen : len ≠ 0) :
    (∃ table', mvIalLibAddBufferToPrdTable tableSize table addr len isEOT = some table' ∧
      table'.length = table.length + pieces len) ↔
      EvenBuffer addr len ∧ pieces len ≤ tableSize - table.length := by
  have hloop := addBufferLoop_isSome_iff (tableSize - table.length) addr len
  constructor
  · rintro ⟨table', hadd, _⟩
    cases hwritten : addBufferLoop (tableSize - table.length) addr len with
    | none => simp [mvIalLibAddBufferToPrdTable, hwritten] at hadd
    | some written =>
      rcases hloop.mp (by simp [hwritten]) with hzero | hfit
      · exact absurd hzero hlen
      · exact hfit
  · intro hfit
    obtain ⟨written, hwritten⟩ := Option.isSome_iff_exists.mp (hloop.mpr (Or.inr hfit))
    have hlength := addBufferLoop_length hwritten
    have hpos : 0 < pieces len := by unfold pieces; omega
    have hne : table ++ written ≠ [] := by
      intro h
      have := congrArg List.length h
      simp only [List.length_append, List.length_nil] at this
      omega
    refine ⟨if isEOT then markEot (table ++ written) else table ++ written, ?_, ?_⟩
    · simp only [mvIalLibAddBufferToPrdTable, hwritten, if_neg hne]
    · split <;> simp [hlength]

/-- A nonempty buffer that is not even, or does not fit, makes the builder fail. -/
theorem addBuffer_eq_none {tableSize : ℕ} {table : List PrdEntry} {addr : UInt32} {len : ℕ}
    {isEOT : Bool} (hlen : len ≠ 0)
    (hbad : ¬(EvenBuffer addr len ∧ pieces len ≤ tableSize - table.length)) :
    mvIalLibAddBufferToPrdTable tableSize table addr len isEOT = none := by
  have hnone : addBufferLoop (tableSize - table.length) addr len = none := by
    rw [← Option.not_isSome_iff_eq_none, addBufferLoop_isSome_iff]
    simp [hlen, hbad]
  simp [mvIalLibAddBufferToPrdTable, hnone]

/-- The scatter loop succeeds from a table with room to spare exactly when the
visited segments are even and fit in what is left of it. -/
theorem addSegments_isSome_iff (segs : List Segment) (table : List PrdEntry)
    (htable : table.length ≤ prdTableSize) :
    (addSegments segs table).isSome ↔
      (∀ seg ∈ visitedSegments segs, EvenBuffer seg.dmaAddress seg.dmaLength.toNat) ∧
        table.length + ((visitedSegments segs).map fun seg => pieces seg.dmaLength.toNat).sum ≤
          prdTableSize := by
  induction segs generalizing table with
  | nil => simpa [addSegments, visitedSegments] using htable
  | cons seg rest ih =>
    by_cases hzero : seg.dmaLength = 0
    · simpa [addSegments, visitedSegments, hzero] using htable
    · have hlen : seg.dmaLength.toNat ≠ 0 := fun h => hzero (UInt32.toNat_inj.mp (by simpa using h))
      have hvisited : visitedSegments (seg :: rest) = seg :: visitedSegments rest := by
        simp [visitedSegments, hzero]
      simp only [addSegments, if_neg hzero, hvisited, List.forall_mem_cons, List.map_cons,
        List.sum_cons]
      by_cases hfit : EvenBuffer seg.dmaAddress seg.dmaLength.toNat ∧
          pieces seg.dmaLength.toNat ≤ prdTableSize - table.length
      · obtain ⟨table', hadd, hlength⟩ :=
          (@addBuffer_some_iff _ _ _ _ (endsTable rest) hlen).mpr hfit
        simp only [hadd]
        rw [ih table' (by omega), hlength]
        constructor
        · rintro ⟨heven, hsum⟩
          exact ⟨⟨hfit.1, heven⟩, by omega⟩
        · rintro ⟨⟨_, heven⟩, hsum⟩
          exact ⟨heven, by omega⟩
      · simp only [addBuffer_eq_none hlen hfit, Option.isSome_none, Bool.false_eq_true, false_iff]
        rintro ⟨⟨heven, _⟩, hsum⟩
        exact hfit ⟨heven, by omega⟩

/-- The scatter loop builds a table from the empty one exactly for the scatter
lists that fit. -/
theorem addSegments_nil_isSome_iff (segs : List Segment) :
    (addSegments segs []).isSome ↔ SegmentsFit segs := by
  rw [addSegments_isSome_iff segs [] (by simp)]
  simp [SegmentsFit]

end Mv88fxx81.Sata
