import Mv88fxx81.Idma.CopySpec
import Mv88fxx81.Lib.Cuts
import Mathlib.Data.Nat.Bitwise

/-!
# The pieces of a user copy

The two page cursors of the loop of `dma_copy` always hold the rest of the page, or of the
whole range for a linearly mapped side. So the loop walks the whole cache lines of the
destination, cut at the page begins of the sides that are not linearly mapped.
-/

namespace Mv88fxx81.Idma

variable {m : Mapping} {c : Call} {l : Loop} {pages : List ℕ} {d : ℕ}

/-! ### Words and addresses -/

/-- The offset in a cache line. -/
theorem and_31 (x : ℕ) : x &&& 31 = x % 32 :=
  Nat.and_two_pow_sub_one_eq_mod x 5

/-- The offset in a page. -/
theorem and_pageMask (x : ℕ) : x &&& (PAGE_SIZE - 1) = x % 4096 :=
  Nat.and_two_pow_sub_one_eq_mod x 12

/-- The page of an address. -/
theorem shiftRight_pageShift (x : ℕ) : x >>> PAGE_SHIFT = x / 4096 :=
  Nat.shiftRight_eq_div_pow x 12

/-- A page frame number and an offset are put together. -/
theorem frame_or_offset (pfn x : ℕ) :
    pfn <<< PAGE_SHIFT ||| x % 4096 = pfn * 4096 + x % 4096 := by
  have hlt : x % 4096 < 2 ^ 12 := Nat.mod_lt _ (by decide)
  rw [PAGE_SHIFT, ← Nat.shiftLeft_add_eq_or_of_lt hlt, Nat.shiftLeft_eq]

/-- The byte count field keeps 24 bits. -/
theorem byteCount_eq (len : ℕ) : byteCount len = len % 2 ^ 24 :=
  Nat.and_two_pow_sub_one_eq_mod len 24

/-- The bytes up to the end of a page. -/
theorem pageRemainder_eq (virt : ℕ) : pageRemainder virt = 4096 - virt % 4096 := by
  rw [pageRemainder, and_pageMask, PAGE_SIZE]

/-- `physical_address` looks up the mapping. -/
theorem physicalAddress_eq (m : Mapping) (virt : ℕ) :
    physicalAddress m virt = m.translate virt := by
  unfold physicalAddress Mapping.translate
  rw [and_pageMask, shiftRight_pageShift, frame_or_offset]

/-- The page frame of a mapped page and the offset make the physical address. -/
theorem pageOffsetToPhys_eq (m : Mapping) {virt : ℕ} (hstatic : isKernelStatic m virt = false) :
    pageOffsetToPhys m (m.pageFrame (virt / 4096)) (virt &&& (PAGE_SIZE - 1)) =
      m.translate virt := by
  unfold pageOffsetToPhys Mapping.translate
  rw [if_pos (m.pageFrame_valid _), and_pageMask, frame_or_offset, hstatic]
  rfl

/-- A sum of words that is in the address space. -/
theorem add32_eq {a b : ℕ} (hlt : a + b < 2 ^ 32) : add32 a b = a + b :=
  Nat.mod_eq_of_lt hlt

/-- A difference of words. -/
theorem sub32_eq {a b : ℕ} (hle : b ≤ a) (hlt : a < 2 ^ 32) : sub32 a b = a - b := by
  unfold sub32
  omega

/-- Pointers wrap around. -/
theorem add32_mod (a d chunk : ℕ) :
    add32 ((a + d) % 2 ^ 32) chunk = (a + (d + chunk)) % 2 ^ 32 := by
  unfold add32
  omega

/-! ### The ends of the copy -/

/-- The kernel side of a call. -/
def Call.kaddr (c : Call) : ℕ :=
  if c.toUser then c.from_ else c.to_

/-- The copies of the destination's partial cache lines. -/
def endOps (c : Call) : List Op :=
  (if c.to_ % 32 ≠ 0 then [.cpu c.to_ c.from_ c.midStart] else []) ++
    if (c.to_ + c.n) % 32 ≠ 0 then
      [.cpu (c.to_ + c.midEnd) (c.from_ + c.midEnd) ((c.to_ + c.n) % 32)]
    else []

/-- The length of a call is a word. -/
theorem Call.Valid.n_lt (hvalid : c.Valid m) : c.n < 2 ^ 32 := by
  have hn := hvalid.n_ge
  have hto := hvalid.to_range
  have hfrom := hvalid.from_range
  by_contra hlarge
  -- both ranges are the whole address space
  have hzero : c.to_ = 0 ∧ c.from_ = 0 := by omega
  refine hvalid.disjoint 0 (by omega) 0 (by omega) ?_
  rw [hzero.1, hzero.2]

/-- The ranges of a call of a copy. -/
theorem Call.Valid.inRange (hvalid : c.Valid m) : c.InRange m :=
  ⟨hvalid.n_ge, hvalid.n_lt, hvalid.to_range, hvalid.from_range, hvalid.to_kind, hvalid.from_kind⟩

/-- The whole cache lines are inside the range, and there is one. -/
theorem Call.InRange.mid_bounds (hcall : c.InRange m) :
    c.midStart < 32 ∧ c.midStart + 32 ≤ c.midEnd ∧ c.midEnd ≤ c.n ∧
      (c.to_ + c.midStart) % 32 = 0 ∧ (c.to_ + c.midEnd) % 32 = 0 := by
  have hn := hcall.n_ge
  unfold Call.midStart Call.midEnd
  omega

/-- The first fix goes to the first whole cache line. -/
theorem fixStart_eq (hcall : c.InRange m) :
    fixStart c = { to_ := c.to_ + c.midStart, from_ := c.from_ + c.midStart,
                   n := c.n - c.midStart,
                   log := if c.to_ % 32 ≠ 0 then [.cpu c.to_ c.from_ c.midStart] else [] } := by
  have hn := hcall.n_ge
  have hto := hcall.to_range
  have hfrom := hcall.from_range
  have hlt := hcall.n_lt
  unfold fixStart
  rw [and_31]
  dsimp only
  by_cases haligned : c.to_ % 32 = 0
  · have hstart : c.midStart = 0 := by
      unfold Call.midStart
      omega
    rw [if_neg (not_not.mpr haligned), if_neg (not_not.mpr haligned), hstart]
    rfl
  · have hstart : c.midStart = 32 - c.to_ % 32 := by
      unfold Call.midStart
      omega
    rw [if_pos haligned, if_pos haligned, ← hstart, add32_eq (by omega), add32_eq (by omega),
      sub32_eq (by omega) hlt]

/-- Both fixes leave the whole cache lines. -/
theorem fixEnd_fixStart (hcall : c.InRange m) :
    fixEnd (fixStart c) = { to_ := c.to_ + c.midStart, from_ := c.from_ + c.midStart,
                            n := c.midEnd - c.midStart, log := endOps c } := by
  have hn := hcall.n_ge
  have hto := hcall.to_range
  have hfrom := hcall.from_range
  have hlt := hcall.n_lt
  obtain ⟨hsmall, hline, hle, -, -⟩ := hcall.mid_bounds
  have hlast : add32 (c.to_ + c.midStart) (c.n - c.midStart) % 32 = (c.to_ + c.n) % 32 := by
    unfold add32
    omega
  have hend : c.midEnd = c.n - (c.to_ + c.n) % 32 := rfl
  rw [fixStart_eq hcall]
  unfold fixEnd endOps
  rw [and_31]
  dsimp only
  rw [hlast]
  by_cases haligned : (c.to_ + c.n) % 32 = 0
  · have hend' : c.midEnd = c.n := by omega
    rw [if_neg (not_not.mpr haligned), if_neg (not_not.mpr haligned), hend', List.append_nil]
  · have hsub : sub32 (c.n - c.midStart) ((c.to_ + c.n) % 32) = c.midEnd - c.midStart := by
      rw [sub32_eq (by omega) (by omega)]
      omega
    have haddTo : add32 (c.to_ + c.midStart) (c.midEnd - c.midStart) = c.to_ + c.midEnd := by
      rw [add32_eq (by omega)]
      omega
    have haddFrom : add32 (c.from_ + c.midStart) (c.midEnd - c.midStart) =
        c.from_ + c.midEnd := by
      rw [add32_eq (by omega)]
      omega
    rw [if_pos haligned, if_pos haligned, hsub, haddTo, haddFrom]

/-! ### One turn of the loop -/

/-- A page begins on one of the sides. -/
def SideCut (m : Mapping) (c : Call) (x : ℕ) : Prop :=
  PageCut m c.kaddr x ∨ PageCut m c.uaddr x

/-- The bytes that a side allows for the next piece. -/
def sideLimit (m : Mapping) (addr stop d : ℕ) : ℕ :=
  if isKernelStatic m addr then stop - d else 4096 - (addr + d) % 4096

/-- A cursor that is not used up holds what its side allows. -/
def CursorAt (m : Mapping) (addr stop d chunk : ℕ) : Prop :=
  chunk = sideLimit m addr stop d ∨ chunk = 0 ∧ isKernelStatic m addr = false

/-- The variables of the loop when `d` bytes of the call are behind it. -/
structure LoopAt (m : Mapping) (c : Call) (d : ℕ) (l : Loop) : Prop where
  to_ : l.to_ = (c.to_ + d) % 2 ^ 32
  from_ : l.from_ = (c.from_ + d) % 2 ^ 32
  kaddr : l.kaddr = (c.kaddr + d) % 2 ^ 32
  uaddr : l.uaddr = (c.uaddr + d) % 2 ^ 32
  n : l.n = c.midEnd - d
  kChunk : CursorAt m c.kaddr c.midEnd d l.kChunk
  uChunk : CursorAt m c.uaddr c.midEnd d l.uChunk

section Side

variable {addr stop chunk size x : ℕ}

/-- A side allows at least one byte. -/
theorem sideLimit_pos (hd : d < stop) : 0 < sideLimit m addr stop d := by
  unfold sideLimit
  by_cases hstatic : isKernelStatic m addr = true
  · rw [if_pos hstatic]
    omega
  · rw [if_neg hstatic]
    omega

/-- No page begins in the bytes that a side allows. -/
theorem not_pageCut_of_lt (hlt : d < x) (hlimit : x < d + sideLimit m addr stop d) :
    ¬ PageCut m addr x := by
  rintro ⟨hstatic, hcut⟩
  unfold sideLimit at hlimit
  rw [if_neg (by simp [hstatic])] at hlimit
  omega

/-- After the bytes that a side allows, it is at the end or at a page begin. -/
theorem sideLimit_cut (hd : d ≤ stop) :
    d + sideLimit m addr stop d = stop ∨ PageCut m addr (d + sideLimit m addr stop d) := by
  unfold sideLimit
  by_cases hstatic : isKernelStatic m addr = true
  · rw [if_pos hstatic]
    exact Or.inl (by omega)
  · rw [if_neg hstatic]
    exact Or.inr ⟨by simpa using hstatic, by omega⟩

/-- A cursor is loaded with what its side allows. -/
theorem CursorAt.load (hd : d < stop) (hcursor : CursorAt m addr stop d chunk) :
    (if chunk = 0 then pageRemainder ((addr + d) % 2 ^ 32) else chunk) =
      sideLimit m addr stop d := by
  have hpos : 0 < sideLimit m addr stop d := sideLimit_pos hd
  rcases hcursor with heq | ⟨hzero, hstatic⟩
  · rw [if_neg (by omega), heq]
  · rw [if_pos hzero, pageRemainder_eq]
    unfold sideLimit
    rw [if_neg (by simp [hstatic])]
    omega

/-- A cursor goes on by a piece of at most what its side allows. -/
theorem CursorAt.next (hsize : size ≤ sideLimit m addr stop d) (hstop : stop < 2 ^ 32) :
    CursorAt m addr stop (d + size) (sub32 (sideLimit m addr stop d) size) := by
  have hlt : sideLimit m addr stop d < 2 ^ 32 := by
    unfold sideLimit
    split_ifs
    · omega
    · omega
  rw [sub32_eq hsize hlt]
  unfold CursorAt sideLimit at *
  by_cases hstatic : isKernelStatic m addr = true
  · rw [if_pos hstatic, if_pos hstatic]
    exact Or.inl (by omega)
  · rw [if_neg hstatic] at hsize ⊢
    rw [if_neg hstatic]
    by_cases hfull : size = 4096 - (addr + d) % 4096
    · exact Or.inr ⟨by omega, by simpa using hstatic⟩
    · exact Or.inl (by omega)

end Side

/-- The size of the piece that starts at an offset. -/
def sizeAt (m : Mapping) (c : Call) (d : ℕ) : ℕ :=
  min (min (sideLimit m c.uaddr c.midEnd d) (sideLimit m c.kaddr c.midEnd d)) (c.midEnd - d)

/-- A piece ends at the next page begin or at the end. -/
theorem sizeAt_nextCut (hd : d < c.midEnd) :
    Cuts.NextCut (SideCut m c) c.midEnd d (d + sizeAt m c d) := by
  have hu : 0 < sideLimit m c.uaddr c.midEnd d := sideLimit_pos hd
  have hk : 0 < sideLimit m c.kaddr c.midEnd d := sideLimit_pos hd
  have hucut : d + sideLimit m c.uaddr c.midEnd d = c.midEnd ∨
      PageCut m c.uaddr (d + sideLimit m c.uaddr c.midEnd d) := sideLimit_cut hd.le
  have hkcut : d + sideLimit m c.kaddr c.midEnd d = c.midEnd ∨
      PageCut m c.kaddr (d + sideLimit m c.kaddr c.midEnd d) := sideLimit_cut hd.le
  unfold sizeAt
  refine ⟨by omega, by omega, ?_, fun x hlt hle => ?_⟩
  · by_cases hstop : c.midEnd - d ≤
        min (sideLimit m c.uaddr c.midEnd d) (sideLimit m c.kaddr c.midEnd d)
    · exact Or.inl (by omega)
    · rw [min_eq_left (by omega)]
      by_cases hside : sideLimit m c.uaddr c.midEnd d ≤ sideLimit m c.kaddr c.midEnd d
      · rw [min_eq_left hside]
        exact hucut.imp id Or.inr
      · rw [min_eq_right (by omega)]
        exact hkcut.imp id Or.inl
  · have hxk : x < d + sideLimit m c.kaddr c.midEnd d := by omega
    have hxu : x < d + sideLimit m c.uaddr c.midEnd d := by omega
    rintro (hcut | hcut)
    · exact not_pageCut_of_lt hlt hxk hcut
    · exact not_pageCut_of_lt hlt hxu hcut

/-- The cursors are loaded. -/
theorem LoopAt.load (hd : d < c.midEnd) (hloop : LoopAt m c d l) :
    loadChunks l = { l with kChunk := sideLimit m c.kaddr c.midEnd d
                            uChunk := sideLimit m c.uaddr c.midEnd d } := by
  unfold loadChunks
  rw [hloop.kaddr, hloop.uaddr, hloop.kChunk.load hd, hloop.uChunk.load hd]

/-- The size of the next piece. -/
theorem LoopAt.chunkSize (hd : d < c.midEnd) (hloop : LoopAt m c d l) :
    chunkSize (loadChunks l) = sizeAt m c d := by
  rw [hloop.load hd]
  unfold Idma.chunkSize sizeAt
  dsimp only
  rw [hloop.n]
  have hmin : (if sideLimit m c.uaddr c.midEnd d < sideLimit m c.kaddr c.midEnd d then
      sideLimit m c.uaddr c.midEnd d else sideLimit m c.kaddr c.midEnd d) =
      min (sideLimit m c.uaddr c.midEnd d) (sideLimit m c.kaddr c.midEnd d) := by
    split_ifs
    · omega
    · omega
  rw [hmin]
  split_ifs
  · omega
  · omega

/-- The loop goes on to the next piece. -/
theorem LoopAt.next (hd : d < c.midEnd) (hstop : c.midEnd < 2 ^ 32) (hloop : LoopAt m c d l)
    {l' : Loop} (hto : l'.to_ = l.to_) (hfrom : l'.from_ = l.from_) (hkaddr : l'.kaddr = l.kaddr)
    (huaddr : l'.uaddr = l.uaddr) (hn : l'.n = l.n)
    (hk : l'.kChunk = sideLimit m c.kaddr c.midEnd d)
    (hu : l'.uChunk = sideLimit m c.uaddr c.midEnd d) :
    LoopAt m c (d + sizeAt m c d) (nextChunk (sizeAt m c d) l') := by
  have hsize : sizeAt m c d ≤ c.midEnd - d := min_le_right _ _
  have hksize : sizeAt m c d ≤ sideLimit m c.kaddr c.midEnd d :=
    le_trans (min_le_left _ _) (min_le_right _ _)
  have husize : sizeAt m c d ≤ sideLimit m c.uaddr c.midEnd d :=
    le_trans (min_le_left _ _) (min_le_left _ _)
  unfold nextChunk
  constructor
  · rw [hto, hloop.to_]
    exact add32_mod ..
  · rw [hfrom, hloop.from_]
    exact add32_mod ..
  · rw [hkaddr, hloop.kaddr]
    exact add32_mod ..
  · rw [huaddr, hloop.uaddr]
    exact add32_mod ..
  · dsimp only
    rw [hn, hloop.n, sub32_eq hsize (by omega)]
    omega
  · dsimp only
    rw [hk]
    exact CursorAt.next hksize hstop
  · dsimp only
    rw [hu]
    exact CursorAt.next husize hstop

end Mv88fxx81.Idma
