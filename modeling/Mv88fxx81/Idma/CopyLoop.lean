import Mv88fxx81.Idma.CopyPieces

/-!
# The operations of a user copy

The loop of `dma_copy` copies the pieces of its walk one after the other, small ones by the
CPU and the others by the two channels in turn, with the physical addresses that the
mapping gives.
-/

namespace Mv88fxx81.Idma

variable {m : Mapping} {c : Call} {l : Loop} {pages : List ℕ} {d : ℕ}

/-! ### Physical addresses -/

/-- The user side is in the address space. -/
theorem Call.InRange.uaddr_range (hcall : c.InRange m) : c.uaddr + c.n ≤ 2 ^ 32 := by
  unfold Call.uaddr
  cases c.toUser
  · exact hcall.from_range
  · exact hcall.to_range

/-- The user side is of one kind. -/
theorem Call.InRange.uaddr_kind (hcall : c.InRange m) : OneKind m c.uaddr c.n := by
  unfold Call.uaddr
  cases c.toUser
  · exact hcall.from_kind
  · exact hcall.to_kind

/-- The page list gives the page frame of every user address of the whole lines. -/
def PagesOf (m : Mapping) (c : Call) (pages : List ℕ) : Prop :=
  isKernelStatic m c.uaddr = true ∨ isKernelSpace c.uaddr = true ∨
    ∀ d, c.midStart ≤ d → d < c.midEnd →
      pages.getD ((c.uaddr + d) / 4096 - (c.uaddr + c.midStart) / 4096) 0 =
        m.pageFrame ((c.uaddr + d) / 4096)

/-- The number of pages of a user range, if it is below the end of the user addresses. -/
theorem nrPages_eq {uaddr n : ℕ} (hrange : uaddr + n ≤ TASK_SIZE) :
    nrPages uaddr n = (uaddr % 4096 + n + 4095) / 4096 := by
  unfold TASK_SIZE at hrange
  unfold nrPages
  rw [and_pageMask, shiftRight_pageShift, PAGE_SIZE, add32_eq (a := uaddr % 4096) (by omega),
    add32_eq (by omega)]

/-- The page list is refused, or it has the pages of the whole lines. -/
theorem userPages_cases (hcall : c.InRange m) :
    (PagesRefused m c ∧
      userPages m c (c.uaddr + c.midStart) (c.midEnd - c.midStart) = none) ∨
    (¬ PagesRefused m c ∧ ∃ pages,
      userPages m c (c.uaddr + c.midStart) (c.midEnd - c.midStart) = some pages ∧
        PagesOf m c pages) := by
  obtain ⟨hsmall, hline, hle, -, -⟩ := hcall.mid_bounds
  obtain ⟨hstatic, hspace⟩ := hcall.uaddr_kind c.midStart (by omega)
  unfold userPages
  rw [hstatic, hspace]
  by_cases hs : isKernelStatic m c.uaddr = true
  · refine Or.inr ⟨?_, [], if_pos hs, Or.inl hs⟩
    rintro ⟨hno, -⟩
    rw [hs] at hno
    cases hno
  rw [if_neg hs]
  by_cases hk : isKernelSpace c.uaddr = true
  · refine Or.inr ⟨?_, [], if_pos hk, Or.inr (Or.inl hk)⟩
    rintro ⟨-, hno, -⟩
    rw [hk] at hno
    cases hno
  rw [if_neg hk]
  simp only [Bool.not_eq_true] at hs hk
  -- the last user byte is a user address too
  have huser : c.uaddr + c.n ≤ TASK_SIZE := by
    have hlast := (hcall.uaddr_kind (c.n - 1) (by omega)).2
    rw [hk] at hlast
    have hlt : ¬ TASK_SIZE ≤ c.uaddr + (c.n - 1) := of_decide_eq_false hlast
    omega
  have hno : ¬ add32 (c.uaddr + c.midStart) (c.midEnd - c.midStart) < c.uaddr + c.midStart := by
    unfold TASK_SIZE at huser
    rw [add32_eq (by omega)]
    omega
  rw [if_neg hno]
  cases hkm : c.kmalloc with
  | false =>
    left
    exact ⟨⟨hs, hk, Or.inl hkm⟩, rfl⟩
  | true =>
    rw [if_neg (by simp)]
    by_cases hres : c.res < nrPages (c.uaddr + c.midStart) (c.midEnd - c.midStart)
    · left
      exact ⟨⟨hs, hk, Or.inr hres⟩, if_pos hres⟩
    · right
      refine ⟨?_, _, if_neg hres, Or.inr (Or.inr fun d hd hlt => ?_)⟩
      · rintro ⟨-, -, hfalse | hfew⟩
        · rw [hkm] at hfalse
          cases hfalse
        · exact hres hfew
      · have hcount : (c.uaddr + d) / 4096 - (c.uaddr + c.midStart) / 4096 <
            nrPages (c.uaddr + c.midStart) (c.midEnd - c.midStart) := by
          rw [nrPages_eq (by omega)]
          omega
        have hpage : (c.uaddr + c.midStart) / 4096 +
            ((c.uaddr + d) / 4096 - (c.uaddr + c.midStart) / 4096) = (c.uaddr + d) / 4096 := by
          omega
        rw [List.getD_eq_getElem?_getD, List.getElem?_map, List.getElem?_range hcount,
          Option.map_some, Option.getD_some, shiftRight_pageShift, hpage]

/-- A piece is copied between the physical addresses of its virtual ones. -/
theorem LoopAt.physAddresses (hcall : c.InRange m) (hpages : PagesOf m c pages)
    (hstart : c.midStart ≤ d) (hd : d < c.midEnd) {l : Loop}
    (hto : l.to_ = c.to_ + d) (hfrom : l.from_ = c.from_ + d) (huaddr : l.uaddr = c.uaddr + d) :
    physAddresses m c.toUser pages (c.uaddr + c.midStart) l =
      (m.translate (c.to_ + d), m.translate (c.from_ + d)) := by
  obtain ⟨hsmall, hline, hle, -, -⟩ := hcall.mid_bounds
  have hrange := hcall.uaddr_range
  obtain ⟨hstatic, hspace⟩ := hcall.uaddr_kind c.midStart (by omega)
  unfold Idma.physAddresses
  rw [hstatic, hspace, physicalAddress_eq, physicalAddress_eq, hto, hfrom, huaddr]
  by_cases hkernel : (isKernelStatic m c.uaddr || isKernelSpace c.uaddr) = true
  · exact if_pos hkernel
  rw [if_neg hkernel]
  simp only [Bool.or_eq_true, not_or, Bool.not_eq_true] at hkernel
  obtain ⟨hs, hk⟩ := hkernel
  rcases hpages with h | h | hpages
  · rw [hs] at h
    cases h
  · rw [hk] at h
    cases h
  have hindex : sub32 (c.uaddr + d) (c.uaddr + c.midStart -
      (c.uaddr + c.midStart &&& (PAGE_SIZE - 1))) >>> PAGE_SHIFT =
      (c.uaddr + d) / 4096 - (c.uaddr + c.midStart) / 4096 := by
    rw [and_pageMask, sub32_eq (by omega) (by omega), shiftRight_pageShift]
    omega
  have hkind : isKernelStatic m (c.uaddr + d) = false := by
    rw [(hcall.uaddr_kind d (by omega)).1, hs]
  dsimp only
  rw [hindex, hpages d hstart hd, pageOffsetToPhys_eq m hkind]
  unfold Call.uaddr
  cases c.toUser
  · rfl
  · rfl

/-! ### The loop -/

/-- The operations for the pieces, with the number of transfers so far and the channel of
the next one. -/
def pieceOps (m : Mapping) (c : Call) : List (ℕ × ℕ) → ℕ → Channel → List Op
  | [], _, _ => []
  | (a, b) :: pieces, index, current =>
    if b - a < 128 then
      .cpu (c.to_ + a) (c.from_ + a) (b - a) :: pieceOps m c pieces index current
    else
      (if index > 1 then [Op.wait current] else []) ++
        .dma current (c.to_ + a) (c.from_ + a) (m.translate (c.to_ + a))
          (m.translate (c.from_ + a)) (b - a) :: pieceOps m c pieces (index + 1) current.next

section PieceOps

variable {a b index : ℕ} {current : Channel} {pieces : List (ℕ × ℕ)}

/-- A small piece is copied by the CPU. -/
theorem pieceOps_cons_small (hsmall : b - a < 128) :
    pieceOps m c ((a, b) :: pieces) index current =
      .cpu (c.to_ + a) (c.from_ + a) (b - a) :: pieceOps m c pieces index current :=
  if_pos hsmall

/-- Another piece is copied by a channel. -/
theorem pieceOps_cons_large (hlarge : ¬ b - a < 128) :
    pieceOps m c ((a, b) :: pieces) index current =
      (if index > 1 then [Op.wait current] else []) ++
        .dma current (c.to_ + a) (c.from_ + a) (m.translate (c.to_ + a))
          (m.translate (c.from_ + a)) (b - a) ::
          pieceOps m c pieces (index + 1) current.next :=
  if_neg hlarge

end PieceOps

/-- One turn of the loop copies one piece. -/
theorem LoopAt.copyChunk (hcall : c.InRange m) (hpages : PagesOf m c pages)
    (hstart : c.midStart ≤ d) (hd : d < c.midEnd) (hloop : LoopAt m c d l) :
    ∃ l', copyChunk m c.toUser pages (c.uaddr + c.midStart) (sizeAt m c d) (loadChunks l) = l' ∧
      LoopAt m c (d + sizeAt m c d) (nextChunk (sizeAt m c d) l') ∧
      ∀ rest, l'.log ++ pieceOps m c rest l'.index l'.current =
        l.log ++ pieceOps m c ((d, d + sizeAt m c d) :: rest) l.index l.current := by
  obtain ⟨hsmall, hline, hle, -, -⟩ := hcall.mid_bounds
  have hlt := hcall.n_lt
  have hto : (loadChunks l).to_ = c.to_ + d := by
    have hrange := hcall.to_range
    rw [hloop.load hd]
    exact hloop.to_.trans (Nat.mod_eq_of_lt (by omega))
  have hfrom : (loadChunks l).from_ = c.from_ + d := by
    have hrange := hcall.from_range
    rw [hloop.load hd]
    exact hloop.from_.trans (Nat.mod_eq_of_lt (by omega))
  have huaddr : (loadChunks l).uaddr = c.uaddr + d := by
    have hrange := hcall.uaddr_range
    rw [hloop.load hd]
    exact hloop.uaddr.trans (Nat.mod_eq_of_lt (by omega))
  have hphys := LoopAt.physAddresses hcall hpages hstart hd hto hfrom huaddr
  refine ⟨_, rfl, ?_, fun rest => ?_⟩
  · unfold Idma.copyChunk
    by_cases hmin : sizeAt m c d < IDMA_MIN_COPY_CHUNK
    · rw [if_pos hmin]
      refine hloop.next hd (by omega) rfl rfl rfl rfl rfl ?_ ?_
      · rw [hloop.load hd]
      · rw [hloop.load hd]
    · rw [if_neg hmin]
      refine hloop.next hd (by omega) rfl rfl rfl rfl rfl ?_ ?_
      · dsimp only
        rw [hloop.load hd]
      · dsimp only
        rw [hloop.load hd]
  · have hlength : d + sizeAt m c d - d = sizeAt m c d := Nat.add_sub_cancel_left ..
    unfold Idma.copyChunk
    rw [hphys, hto, hfrom]
    by_cases hmin : sizeAt m c d < IDMA_MIN_COPY_CHUNK
    · rw [if_pos hmin, pieceOps_cons_small (hlength.symm ▸ hmin), hlength, hloop.load hd]
      exact List.append_assoc ..
    · rw [if_neg hmin, pieceOps_cons_large (hlength.symm ▸ hmin), hlength, hloop.load hd]
      simp only [List.append_assoc, List.cons_append, List.nil_append]

/-- The loop copies the pieces of a walk to the end of the whole lines. -/
theorem LoopAt.copyLoop (hcall : c.InRange m) (hpages : PagesOf m c pages) {fuel : ℕ}
    (hstart : c.midStart ≤ d) (hd : d ≤ c.midEnd) (hfuel : c.midEnd - d ≤ fuel)
    (hloop : LoopAt m c d l) :
    ∃ pieces l', Cuts.Walk (SideCut m c) c.midEnd d pieces ∧
      copyLoop m c.toUser pages (c.uaddr + c.midStart) fuel l = l' ∧ l'.n = 0 ∧
      l'.log = l.log ++ pieceOps m c pieces l.index l.current := by
  induction fuel generalizing d l with
  | zero =>
    have hend : d = c.midEnd := by omega
    subst hend
    refine ⟨[], l, Cuts.Walk.done, rfl, ?_, (List.append_nil _).symm⟩
    rw [hloop.n, Nat.sub_self]
  | succ fuel ih =>
    unfold Idma.copyLoop
    by_cases hend : d = c.midEnd
    · have hn : l.n = 0 := by
        rw [hloop.n, hend, Nat.sub_self]
      subst hend
      exact ⟨[], l, Cuts.Walk.done, if_pos hn, hn, (List.append_nil _).symm⟩
    · have hlt : d < c.midEnd := by omega
      have hn : ¬ l.n = 0 := by
        rw [hloop.n]
        omega
      have hcut := sizeAt_nextCut (m := m) hlt
      have hpos : 0 < sizeAt m c d := by
        have := hcut.start_lt
        omega
      have hsize : ¬ Idma.chunkSize (loadChunks l) = 0 := by
        rw [hloop.chunkSize hlt]
        omega
      obtain ⟨l₁, hl₁, hnext, hlog⟩ := hloop.copyChunk hcall hpages hstart hlt
      obtain ⟨pieces, l', hwalk, hl', hzero, hlog'⟩ :=
        ih (by omega) hcut.le_stop (by omega) hnext
      refine ⟨_, l', Cuts.Walk.piece hcut hwalk, ?_, hzero, ?_⟩
      · rw [if_neg hn]
        dsimp only
        rw [if_neg hsize, hloop.chunkSize hlt, hl₁, hl']
      · rw [hlog']
        exact hlog pieces

end Mv88fxx81.Idma
