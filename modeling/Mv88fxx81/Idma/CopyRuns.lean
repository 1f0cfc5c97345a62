import Mv88fxx81.Idma.CopyRight

/-!
# Series of user copies

After any series of copies, a copy achieves what it has to if and only if it is left to
the CPU, or no piece that a channel copies ends inside a cache line of the destination and
the piece fits the byte count field.
-/

namespace Mv88fxx81.Idma

variable {m : Mapping} {c : Call} {current : Channel} {pieces : List (ℕ × ℕ)} {op : Op}
  {index a b : ℕ}

/-- The transfer of a piece. -/
def pieceDma (m : Mapping) (c : Call) (piece : ℕ × ℕ) (chan : Channel) : Op :=
  .dma chan (c.to_ + piece.1) (c.from_ + piece.1) (m.translate (c.to_ + piece.1))
    (m.translate (c.from_ + piece.1)) (piece.2 - piece.1)

/-- The operations for the pieces. -/
theorem mem_pieceOps (hop : op ∈ pieceOps m c pieces index current) :
    (∃ chan, op = .wait chan) ∨ ∃ piece ∈ pieces,
      piece.2 - piece.1 < 128 ∧
          op = .cpu (c.to_ + piece.1) (c.from_ + piece.1) (piece.2 - piece.1) ∨
        128 ≤ piece.2 - piece.1 ∧ ∃ chan, op = pieceDma m c piece chan := by
  induction pieces generalizing index current with
  | nil => simp [pieceOps] at hop
  | cons piece pieces ih =>
    obtain ⟨a, b⟩ := piece
    by_cases hsmall : b - a < 128
    · rw [pieceOps_cons_small hsmall] at hop
      rcases List.mem_cons.mp hop with rfl | hop
      · exact Or.inr ⟨(a, b), List.mem_cons_self, Or.inl ⟨hsmall, rfl⟩⟩
      · exact (ih hop).imp id fun ⟨p, hp, h⟩ => ⟨p, List.mem_cons_of_mem _ hp, h⟩
    · rw [pieceOps_cons_large hsmall] at hop
      rcases List.mem_append.mp hop with hop | hop
      · split_ifs at hop
        · exact Or.inl ⟨_, List.mem_singleton.mp hop⟩
        · simp at hop
      · rcases List.mem_cons.mp hop with rfl | hop
        · exact Or.inr ⟨(a, b), List.mem_cons_self, Or.inr ⟨by dsimp only; omega, current, rfl⟩⟩
        · exact (ih hop).imp id fun ⟨p, hp, h⟩ => ⟨p, List.mem_cons_of_mem _ hp, h⟩

/-- A piece of at least `IDMA_MIN_COPY_CHUNK` bytes is copied by a channel. -/
theorem exists_dma_of_mem {piece : ℕ × ℕ} (hpiece : piece ∈ pieces)
    (hlarge : 128 ≤ piece.2 - piece.1) :
    ∃ chan, pieceDma m c piece chan ∈ pieceOps m c pieces index current := by
  induction pieces generalizing index current with
  | nil => simp at hpiece
  | cons first pieces ih =>
    obtain ⟨a, b⟩ := first
    rcases List.mem_cons.mp hpiece with rfl | hmem
    · refine ⟨current, ?_⟩
      rw [pieceOps_cons_large (by dsimp only at hlarge; omega)]
      exact List.mem_append_right _ List.mem_cons_self
    · by_cases hsmall : b - a < 128
      · obtain ⟨chan, hdma⟩ := @ih current index hmem
        rw [pieceOps_cons_small hsmall]
        exact ⟨chan, List.mem_cons_of_mem _ hdma⟩
      · obtain ⟨chan, hdma⟩ := @ih current.next (index + 1) hmem
        rw [pieceOps_cons_large hsmall]
        exact ⟨chan, List.mem_append_right _ (List.mem_cons_of_mem _ hdma)⟩

/-! ### One piece -/

/-- Without a page begin inside, the bytes of a piece are in one page. -/
theorem insidePage_of_not_cut {addr : ℕ}
    (hkind : isKernelStatic m (addr + a) = isKernelStatic m addr)
    (hcut : ∀ x, a < x → x < b → ¬ PageCut m addr x) : InsidePage m (addr + a) (b - a) := by
  intro hstatic
  rw [hkind] at hstatic
  by_contra hlong
  refine hcut (a + (4096 - (addr + a) % 4096)) (by omega) (by omega) ⟨hstatic, by omega⟩

/-- Inside a page, and in linearly mapped addresses, the physical addresses go on with the
virtual ones. -/
theorem translate_add {addr len i : ℕ} (hpage : InsidePage m addr len) (hi : i < len)
    (hkind : isKernelStatic m (addr + i) = isKernelStatic m addr) :
    m.translate addr + i = m.translate (addr + i) := by
  unfold Mapping.translate
  rw [hkind]
  by_cases hstatic : isKernelStatic m addr = true
  · have hle : PAGE_OFFSET ≤ addr := (of_decide_eq_true hstatic).1
    rw [if_pos hstatic, if_pos hstatic]
    omega
  · have hin := hpage (by simpa using hstatic)
    have hpageEq : (addr + i) / 4096 = addr / 4096 := by omega
    rw [if_neg hstatic, if_neg hstatic, hpageEq]
    omega

/-- What a copy achieves for one of its pieces. -/
structure PieceRight (m : Mapping) (c : Call) (piece : ℕ × ℕ) : Prop where
  start_lt : piece.1 < piece.2
  le_n : piece.2 ≤ c.n
  pageTo : InsidePage m (c.to_ + piece.1) (piece.2 - piece.1)
  pageFrom : InsidePage m (c.from_ + piece.1) (piece.2 - piece.1)

/-- The pieces of the walk are inside pages. -/
theorem pieceRight_of_walk (hcall : c.InRange m)
    (hwalk : Cuts.Walk (SideCut m c) c.midEnd c.midStart pieces) {piece : ℕ × ℕ}
    (hpiece : piece ∈ pieces) : PieceRight m c piece := by
  obtain ⟨hsmall, hline, hle, -, -⟩ := hcall.mid_bounds
  obtain ⟨hstart, -, hcut⟩ := hwalk.piece_ends hpiece
  have hlt := hcut.start_lt
  have hstop := hcut.le_stop
  refine ⟨hlt, by omega, ?_, ?_⟩
  · exact insidePage_of_not_cut (hcall.to_kind _ (by omega)).1
      (fun x hx hxb h => hcut.not_mark x hx hxb (sideCut_iff.mpr (Or.inl h)))
  · exact insidePage_of_not_cut (hcall.from_kind _ (by omega)).1
      (fun x hx hxb h => hcut.not_mark x hx hxb (sideCut_iff.mpr (Or.inr h)))

/-- The transfer of a piece moves bytes of the call between the right places. -/
theorem PieceRight.moves (hcall : c.InRange m) {piece : ℕ × ℕ} (hright : PieceRight m c piece)
    (chan : Channel) : (pieceDma m c piece chan).Moves m c := by
  have hlt := hright.start_lt
  have hle := hright.le_n
  have hcount : byteCount (piece.2 - piece.1) ≤ piece.2 - piece.1 := by
    rw [byteCount_eq]
    exact Nat.mod_le _ _
  refine ⟨piece.1, rfl, ?_, fun i hi => ?_, fun i hi => ?_⟩
  · dsimp only
    omega
  · dsimp only at hi ⊢
    refine translate_add hright.pageTo (by omega) ?_
    rw [Nat.add_assoc, (hcall.to_kind _ (by omega)).1, (hcall.to_kind _ (by omega)).1]
  · dsimp only at hi ⊢
    refine translate_add hright.pageFrom (by omega) ?_
    rw [Nat.add_assoc, (hcall.from_kind _ (by omega)).1, (hcall.from_kind _ (by omega)).1]

/-! ### All operations of a call -/

/-- What the operations achieve in every call. -/
structure OpRight (m : Mapping) (c : Call) (op : Op) : Prop where
  inStep : op.InStep c
  inPages : op.InPages m
  translated : op.Translated m
  moves : op.Moves m c

/-- A copy by the CPU inside the range. -/
theorem opRight_cpu {off len : ℕ} (hle : off + len ≤ c.n) :
    OpRight m c (.cpu (c.to_ + off) (c.from_ + off) len) := by
  refine ⟨?_, trivial, trivial, off, rfl, rfl, hle⟩
  unfold Op.InStep
  omega

/-- The transfer of a piece. -/
theorem PieceRight.opRight (hcall : c.InRange m) {piece : ℕ × ℕ} (hright : PieceRight m c piece)
    (chan : Channel) : OpRight m c (pieceDma m c piece chan) := by
  refine ⟨?_, ⟨hright.pageTo, hright.pageFrom⟩, ⟨rfl, rfl⟩, hright.moves hcall chan⟩
  unfold Op.InStep pieceDma
  dsimp only
  omega

/-- The copies of the partial cache lines. -/
theorem opRight_endOps (hcall : c.InRange m) (hop : op ∈ endOps c) :
    OpRight m c op ∧ ∃ to_ from_ len, op = .cpu to_ from_ len := by
  obtain ⟨hsmall, hline, hle, -, -⟩ := hcall.mid_bounds
  have hend : c.midEnd + (c.to_ + c.n) % 32 = c.n := by
    unfold Call.midEnd
    have hn := hcall.n_ge
    omega
  rcases List.mem_append.mp hop with hop | hop
  · split_ifs at hop
    · rw [List.mem_singleton.mp hop]
      have hfirst : OpRight m c (.cpu (c.to_ + 0) (c.from_ + 0) c.midStart) :=
        opRight_cpu (by omega)
      exact ⟨hfirst, _, _, _, rfl⟩
    · simp at hop
  · split_ifs at hop
    · rw [List.mem_singleton.mp hop]
      exact ⟨opRight_cpu (by omega), _, _, _, rfl⟩
    · simp at hop

/-- Operations that are each right, and that cover each byte once, copy the call right, if
their transfers cover whole cache lines. -/
theorem copiesRight_of_ops {calls : List Call} (hvalid : c.Valid m)
    (hright : ∀ op ∈ (dmaCopy m c current).2, OpRight m c op)
    (hcount : ∀ i, (dmaCopy m c current).2.countP (fun op => decide (op.Covers c i)) =
      if i < c.n then 1 else 0)
    (hlines : ∀ op ∈ (dmaCopy m c current).2, op.WholeLines) :
    CopiesRight m c (runCopies m calls).2 (dmaCopy m c current).2 := by
  have hpast := runCopies_idle m calls
  have hbefore : busyAfter (runCopies m calls).2 (fun _ => false) = fun _ => false := funext hpast
  obtain ⟨hstarts, hidle⟩ := dmaCopy_channels m c current
  refine ⟨hcount, fun op hop => (hright op hop).inStep, fun op hop => (hright op hop).inPages,
    fun op hop => (hright op hop).translated, hlines, ?_, ?_, ?_⟩
  · rw [hbefore]
    exact hstarts
  · rw [hbefore]
    exact hidle
  · refine copied_of_covers hvalid hpast hstarts hidle (fun op hop => (hright op hop).moves)
      (fun i hi => ?_)
    have hpos : 0 < (dmaCopy m c current).2.countP (fun op => decide (op.Covers c i)) := by
      rw [hcount, if_pos hi]
      exact Nat.one_pos
    obtain ⟨op, hop, hcovers⟩ := List.countP_pos_iff.mp hpos
    exact ⟨op, hop, of_decide_eq_true hcovers⟩

/-- A copy that is left to the CPU is right. -/
theorem copiesRight_of_refused {calls : List Call} (hvalid : c.Valid m)
    (hrefused : PagesRefused m c) :
    CopiesRight m c (runCopies m calls).2 (dmaCopy m c current).2 := by
  obtain ⟨hsmall, hline, hle, -, -⟩ := hvalid.inRange.mid_bounds
  have hmid : OpRight m c (.cpu (c.to_ + c.midStart) (c.from_ + c.midStart)
      (c.midEnd - c.midStart)) := opRight_cpu (by omega)
  have hops : (dmaCopy m c current).2 = _ := dmaCopy_refused hvalid.inRange hrefused
  refine copiesRight_of_ops hvalid (fun op hop => ?_) (fun i => ?_) (fun op hop => ?_)
  · rw [hops] at hop
    rcases List.mem_append.mp hop with hop | hop
    · exact (opRight_endOps hvalid.inRange hop).1
    · rw [List.mem_singleton.mp hop]
      exact hmid
  · rw [hops, List.countP_append, countP_endOps hvalid.inRange, List.countP_singleton]
    have hcovers : (Op.cpu (c.to_ + c.midStart) (c.from_ + c.midStart)
        (c.midEnd - c.midStart)).Covers c i ↔ c.midStart ≤ i ∧ i < c.midEnd := by
      unfold Op.Covers
      dsimp only [Op.destination, Op.moved]
      omega
    by_cases hin : c.midStart ≤ i ∧ i < c.midEnd
    · rw [decide_eq_true (hcovers.mpr hin), if_neg (by omega), if_pos rfl, if_pos (by omega)]
    · rw [decide_eq_false (fun h => hin (hcovers.mp h)), if_neg Bool.false_ne_true, Nat.add_zero]
      by_cases hend : i < c.midStart ∨ c.midEnd ≤ i ∧ i < c.n
      · rw [if_pos hend, if_pos (by omega)]
      · rw [if_neg hend, if_neg (by omega)]
  · rw [hops] at hop
    rcases List.mem_append.mp hop with hop | hop
    · obtain ⟨-, to_, from_, len, rfl⟩ := opRight_endOps hvalid.inRange hop
      trivial
    · rw [List.mem_singleton.mp hop]
      trivial

/-- The pieces fit the byte count field of a channel. -/
theorem piece_fits (hcall : c.InRange m) (hfits : FitsByteCount m c)
    (hwalk : Cuts.Walk (SideCut m c) c.midEnd c.midStart pieces) {piece : ℕ × ℕ}
    (hpiece : piece ∈ pieces) : piece.1 ≤ piece.2 ∧ piece.2 - piece.1 < 2 ^ 24 := by
  obtain ⟨hsmall, hline, hle, -, -⟩ := hcall.mid_bounds
  have hright := pieceRight_of_walk hcall hwalk hpiece
  have hlt := hright.start_lt
  have hn := hright.le_n
  refine ⟨hlt.le, ?_⟩
  have hkindTo := (hcall.to_kind piece.1 (by omega)).1
  have hkindFrom := (hcall.from_kind piece.1 (by omega)).1
  cases hto : isKernelStatic m c.to_ with
  | false =>
    have := hright.pageTo (hkindTo.trans hto)
    omega
  | true =>
    cases hfrom : isKernelStatic m c.from_ with
    | false =>
      have := hright.pageFrom (hkindFrom.trans hfrom)
      omega
    | true =>
      obtain ⟨hstart, -, hcut⟩ := hwalk.piece_ends hpiece
      have hstop := hcut.le_stop
      have := hfits hto hfrom
      omega

/-- The ends of a piece that a channel copies are not inside a cache line of the
destination, if the cuts are short. -/
theorem piece_wholeLines (hcall : c.InRange m) (hshort : CutsAreShort m c)
    (hwalk : Cuts.Walk (SideCut m c) c.midEnd c.midStart pieces) {piece : ℕ × ℕ}
    (hpiece : piece ∈ pieces) (hlarge : 128 ≤ piece.2 - piece.1) :
    (c.to_ + piece.1) % 32 = 0 ∧ (c.to_ + piece.2) % 32 = 0 := by
  obtain ⟨hsmall, hline, hle, hfirst, hlast⟩ := hcall.mid_bounds
  obtain ⟨hstart, hmark, hcut⟩ := hwalk.piece_ends hpiece
  have hstop := hcut.le_stop
  constructor
  · by_contra hinside
    have hafter : c.midStart < piece.1 := by
      rcases Nat.lt_or_eq_of_le hstart with hlt | heq
      · exact hlt
      · rw [← heq] at hinside
        exact absurd hfirst hinside
    rcases hmark with heq | hmark
    · omega
    rcases sideCut_iff.mp hmark with hto | hfrom
    · have := hto.2
      omega
    · rcases (hshort piece.1 hafter (by omega) hfrom hinside).2 with hnear | ⟨y, hlt, hnear, hy⟩
      · omega
      · exact hcut.not_mark y hlt (by omega) (sideCut_iff.mpr (Or.inl hy))
  · by_contra hinside
    have hbefore : piece.2 < c.midEnd := by
      rcases Nat.lt_or_eq_of_le hstop with hlt | heq
      · exact hlt
      · rw [heq] at hinside
        exact absurd hlast hinside
    rcases hcut.stop_or_mark with heq | hmark
    · omega
    rcases sideCut_iff.mp hmark with hto | hfrom
    · have := hto.2
      omega
    · rcases (hshort piece.2 (by omega) hbefore hfrom hinside).1 with hnear | ⟨y, hlt, hnear, hy⟩
      · omega
      · exact hcut.not_mark y (by omega) hlt (sideCut_iff.mpr (Or.inl hy))

/-- A copy whose cuts are short, and that fits the byte count field, is right. -/
theorem copiesRight_of_short {calls : List Call} (hvalid : c.Valid m)
    (hpages : ¬ PagesRefused m c) (hshort : CutsAreShort m c) (hfits : FitsByteCount m c) :
    CopiesRight m c (runCopies m calls).2 (dmaCopy m c current).2 := by
  obtain ⟨hsmall, hline, hle, -, -⟩ := hvalid.inRange.mid_bounds
  obtain ⟨pieces, waits, hwalk, hwaits, hops⟩ := dmaCopy_pages hvalid.inRange hpages current
  have hcases : ∀ op ∈ (dmaCopy m c current).2, OpRight m c op ∧ op.WholeLines := by
    intro op hop
    rw [hops] at hop
    rcases List.mem_append.mp hop with hop | hop
    · rcases List.mem_append.mp hop with hop | hop
      · obtain ⟨hright, to_, from_, len, rfl⟩ := opRight_endOps hvalid.inRange hop
        exact ⟨hright, trivial⟩
      · rcases mem_pieceOps hop with ⟨chan, rfl⟩ | ⟨piece, hpiece, ⟨-, rfl⟩ | ⟨hlarge, chan, rfl⟩⟩
        · exact ⟨⟨trivial, trivial, trivial, trivial⟩, trivial⟩
        · have hright := pieceRight_of_walk hvalid.inRange hwalk hpiece
          have hlt := hright.start_lt
          have hn := hright.le_n
          exact ⟨opRight_cpu (by omega), trivial⟩
        · have hright := pieceRight_of_walk hvalid.inRange hwalk hpiece
          obtain ⟨hstart, hend⟩ := piece_wholeLines hvalid.inRange hshort hwalk hpiece hlarge
          refine ⟨hright.opRight hvalid.inRange chan, Nat.dvd_of_mod_eq_zero hstart, ?_⟩
          exact Nat.dvd_of_mod_eq_zero (by omega)
    · obtain ⟨chan, rfl⟩ := hwaits op hop
      exact ⟨⟨trivial, trivial, trivial, trivial⟩, trivial⟩
  refine copiesRight_of_ops hvalid (fun op hop => (hcases op hop).1) (fun i => ?_)
    (fun op hop => (hcases op hop).2)
  rw [hops, List.countP_append, List.countP_append, countP_endOps hvalid.inRange,
    countP_pieceOps (fun piece hpiece => piece_fits hvalid.inRange hfits hwalk hpiece),
    hwalk.countP_contains, countP_waits hwaits]
  split_ifs
  all_goals omega

/-- A copy that is not left to the CPU and whose cuts are not short is not right. -/
theorem cutsAreShort_of_wholeLines (hcall : c.InRange m) (hpages : ¬ PagesRefused m c)
    (hlines : ∀ op ∈ (dmaCopy m c current).2, op.WholeLines) : CutsAreShort m c := by
  obtain ⟨hsmall, hline, hle, hfirst, hlast⟩ := hcall.mid_bounds
  obtain ⟨pieces, waits, hwalk, hwaits, hops⟩ := dmaCopy_pages hcall hpages current
  -- the ends of a large piece are at the ends of a transfer
  have hends : ∀ piece ∈ pieces, 128 ≤ piece.2 - piece.1 →
      (c.to_ + piece.1) % 32 = 0 ∧ (c.to_ + piece.2) % 32 = 0 := by
    intro piece hpiece hlarge
    obtain ⟨chan, hdma⟩ := exists_dma_of_mem (m := m) (c := c) hpiece hlarge
    have hmem : pieceDma m c piece chan ∈ (dmaCopy m c current).2 := by
      rw [hops]
      exact List.mem_append_left _ (List.mem_append_right _ hdma)
    obtain ⟨hto, hlen⟩ := hlines _ hmem
    have hto' := Nat.mod_eq_zero_of_dvd hto
    have hlen' := Nat.mod_eq_zero_of_dvd hlen
    refine ⟨hto', by omega⟩
  intro x hstart hstop hfrom hinside
  have hmark : SideCut m c x := sideCut_iff.mpr (Or.inr hfrom)
  constructor
  · by_contra hlong
    simp only [not_or, not_exists, not_and] at hlong
    obtain ⟨hfar, hno⟩ := hlong
    obtain ⟨piece, hpiece, rfl⟩ := hwalk.exists_ends_at hstart hstop hmark
    obtain ⟨hle', hbegin, hcut⟩ := hwalk.piece_ends hpiece
    have hlt := hcut.start_lt
    refine hinside (hends piece hpiece ?_).2
    rcases hbegin with heq | hbegin
    · omega
    rcases sideCut_iff.mp hbegin with hto | hfrom'
    · by_contra hnear
      exact hno piece.1 hlt (by omega) hto
    · have h1 := hfrom.2
      have h2 := hfrom'.2
      omega
  · by_contra hlong
    simp only [not_or, not_exists, not_and] at hlong
    obtain ⟨hfar, hno⟩ := hlong
    obtain ⟨piece, hpiece, rfl⟩ := hwalk.exists_starts_at hstart hstop hmark
    obtain ⟨hle', hbegin, hcut⟩ := hwalk.piece_ends hpiece
    have hlt := hcut.start_lt
    refine hinside (hends piece hpiece ?_).1
    rcases hcut.stop_or_mark with heq | hend
    · omega
    rcases sideCut_iff.mp hend with hto | hfrom'
    · by_contra hnear
      exact hno piece.2 hlt (by omega) hto
    · have h1 := hfrom.2
      have h2 := hfrom'.2
      omega

/-- A copy that covers its last whole cache line fits the byte count field. -/
theorem fitsByteCount_of_covers (hcall : c.InRange m) (hpages : ¬ PagesRefused m c)
    (hcovers : ∃ op ∈ (dmaCopy m c current).2, op.Covers c (c.midEnd - 1)) :
    FitsByteCount m c := by
  obtain ⟨hsmall, hline, hle, hfirst, hlast⟩ := hcall.mid_bounds
  obtain ⟨pieces, waits, hwalk, hwaits, hops⟩ := dmaCopy_pages hcall hpages current
  obtain ⟨op, hop, hcovers⟩ := hcovers
  intro hto hfrom
  by_contra hlong
  have hno : ∀ x, ¬ SideCut m c x := by
    intro x hcut
    rcases sideCut_iff.mp hcut with h | h
    · rw [h.1] at hto
      cases hto
    · rw [h.1] at hfrom
      cases hfrom
  have hwait : ∀ chan, op ≠ .wait chan := by
    rintro chan rfl
    have := hcovers.2
    simp only [Op.destination, Op.moved] at this
    omega
  rw [hops] at hop
  rcases List.mem_append.mp hop with hop | hop
  · rcases List.mem_append.mp hop with hop | hop
    · -- the partial cache lines are before and after the whole ones
      have hzero := countP_endOps hcall (c.midEnd - 1)
      rw [if_neg (by omega)] at hzero
      exact List.countP_eq_zero.mp hzero op hop (decide_eq_true hcovers)
    · rcases mem_pieceOps hop with ⟨chan, rfl⟩ | ⟨piece, hpiece, hpieceOp⟩
      · exact hwait chan rfl
      -- the only piece is the whole range, of which a channel moves too little
      obtain ⟨-, hbegin, hcut⟩ := hwalk.piece_ends hpiece
      have hbegin' : piece.1 = c.midStart := hbegin.resolve_right (hno _)
      have hend' : piece.2 = c.midEnd := hcut.stop_or_mark.resolve_right (hno _)
      rcases hpieceOp with ⟨hless, -⟩ | ⟨-, chan, rfl⟩
      · omega
      · have hlt := hcovers.2
        simp only [pieceDma, Op.destination, Op.moved, byteCount_eq] at hlt
        omega
  · obtain ⟨chan, rfl⟩ := hwaits op hop
    exact hwait chan rfl

/-- After every series of copies, a copy achieves what it has to if and only if it is left
to the CPU, or its cuts are short and it fits the byte count field. -/
theorem dmaCopy_copiesRight_iff (m : Mapping) (calls : List Call) (c : Call)
    (hvalid : c.Valid m) :
    CopiesRight m c (runCopies m calls).2 (dmaCopy m c (runCopies m calls).1).2 ↔
      CopyCondition m c := by
  constructor
  · intro hright
    by_cases hrefused : PagesRefused m c
    · exact Or.inl hrefused
    · refine Or.inr ⟨cutsAreShort_of_wholeLines hvalid.inRange hrefused hright.wholeLines, ?_⟩
      obtain ⟨hsmall, hline, hle, -, -⟩ := hvalid.inRange.mid_bounds
      have hcount := hright.partition (c.midEnd - 1)
      rw [if_pos (by omega)] at hcount
      have hpos : 0 < (dmaCopy m c (runCopies m calls).1).2.countP
          (fun op => decide (op.Covers c (c.midEnd - 1))) := by
        rw [hcount]
        exact Nat.one_pos
      obtain ⟨op, hop, hcovers⟩ := List.countP_pos_iff.mp hpos
      exact fitsByteCount_of_covers hvalid.inRange hrefused ⟨op, hop, of_decide_eq_true hcovers⟩
  · intro hcondition
    by_cases hrefused : PagesRefused m c
    · exact copiesRight_of_refused hvalid hrefused
    · obtain ⟨hshort, hfits⟩ := hcondition.resolve_left hrefused
      exact copiesRight_of_short hvalid hrefused hshort hfits

/-- A system with 64 MB of memory, where the user pages from 0x10000000 on are mapped from
the physical address 0x200000 on. -/
def userMapping : Mapping where
  highMemory := 0xc4000000
  pageFrame page := page - 0x10000 + 0x200
  pfnValid _ := true
  pageFrame_valid _ := rfl

/-- A page of a file is filled from a user buffer. -/
def fillPage (buffer : ℕ) : Call where
  to_ := 0xc0100000
  from_ := buffer
  n := 4096
  toUser := false
  kmalloc := true
  res := 2

/-- Filling a page of a file is a copy of the system. -/
theorem fillPage_valid {buffer : ℕ} (hstart : 0x10000000 ≤ buffer) (hend : buffer < 0x10001000) :
    (fillPage buffer).Valid userMapping := by
  have hto : ∀ i < 4096, isKernelStatic userMapping (0xc0100000 + i) = true := by
    intro i hi
    have hin : PAGE_OFFSET ≤ 0xc0100000 + i ∧ 0xc0100000 + i < userMapping.highMemory := by
      simp only [PAGE_OFFSET, userMapping]
      omega
    exact decide_eq_true hin
  have hfrom : ∀ i < 4096, isKernelStatic userMapping (buffer + i) = false := by
    intro i hi
    have hout : ¬ (PAGE_OFFSET ≤ buffer + i ∧ buffer + i < userMapping.highMemory) := by
      simp only [PAGE_OFFSET, userMapping]
      omega
    exact decide_eq_false hout
  have htoSpace : ∀ i < 4096, isKernelSpace (0xc0100000 + i) = true := by
    intro i hi
    have hin : TASK_SIZE ≤ 0xc0100000 + i := by
      simp only [TASK_SIZE]
      omega
    exact decide_eq_true hin
  have hfromSpace : ∀ i < 4096, isKernelSpace (buffer + i) = false := by
    intro i hi
    have hout : ¬ TASK_SIZE ≤ buffer + i := by
      simp only [TASK_SIZE]
      omega
    exact decide_eq_false hout
  have htoPhys : ∀ i < 4096, userMapping.translate (0xc0100000 + i) = 0x100000 + i := by
    intro i hi
    unfold Mapping.translate
    rw [if_pos (hto i hi), PAGE_OFFSET]
    omega
  have hfromPhys : ∀ i < 4096,
      userMapping.translate (buffer + i) = buffer + i - 0x10000000 + 0x200000 := by
    intro i hi
    unfold Mapping.translate
    rw [if_neg (by simp [hfrom i hi])]
    simp only [userMapping]
    omega
  constructor
  · change 64 ≤ 4096
    omega
  · change 0xc0100000 + 4096 ≤ 2 ^ 32
    omega
  · change buffer + 4096 ≤ 2 ^ 32
    omega
  · intro i hi
    exact ⟨(hto i hi).trans (hto 0 (by omega)).symm,
      (htoSpace i hi).trans (htoSpace 0 (by omega)).symm⟩
  · intro i hi
    exact ⟨(hfrom i hi).trans (hfrom 0 (by omega)).symm,
      (hfromSpace i hi).trans (hfromSpace 0 (by omega)).symm⟩
  · intro i hi j hj heq
    have heq' := (htoPhys i hi).symm.trans (heq.trans (hfromPhys j hj))
    have hi' : i < 4096 := hi
    omega
  · intro i hi j hj heq
    have heq' := (htoPhys i hi).symm.trans (heq.trans (htoPhys j hj))
    omega

/-- A page that is filled from the begin of a user page is copied right. -/
theorem fillPage_copiesRight :
    CopiesRight userMapping (fillPage 0x10000000) (runCopies userMapping []).2
      (dmaCopy userMapping (fillPage 0x10000000) (runCopies userMapping []).1).2 := by
  refine (dmaCopy_copiesRight_iff userMapping [] (fillPage 0x10000000)
    (fillPage_valid (by decide) (by decide))).mpr (Or.inr ⟨?_, ?_⟩)
  · intro x hstart hend hcut hinside
    have hstart' : 0 < x := hstart
    have hend' : x < 4096 := hend
    have hcut' : (0x10000000 + x) % 4096 = 0 := hcut.2
    omega
  · intro hto hfrom
    exact absurd hfrom (by decide)

/-- When a page is filled from a user buffer that begins 16 bytes into a page, the transfer
of the first user page ends inside a cache line of the destination. -/
theorem fillPage_partLine :
    (fillPage 0x10000010).Valid userMapping ∧
      ¬ CopiesRight userMapping (fillPage 0x10000010) (runCopies userMapping []).2
        (dmaCopy userMapping (fillPage 0x10000010) (runCopies userMapping []).1).2 := by
  refine ⟨fillPage_valid (by decide) (by decide), fun hright => ?_⟩
  have hmem : Op.dma .cpyChan1 0xc0100000 0x10000010 0x100000 0x200010 4080 ∈
      (dmaCopy userMapping (fillPage 0x10000010) (runCopies userMapping []).1).2 := by
    decide
  have hlines := (hright.wholeLines _ hmem).2
  omega

end Mv88fxx81.Idma
