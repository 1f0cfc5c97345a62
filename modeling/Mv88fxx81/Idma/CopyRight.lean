import Mv88fxx81.Idma.CopyChannels
import Mv88fxx81.Idma.CopyLoop
import Mv88fxx81.Idma.CopyMemory

/-!
# Which user copies are right

A copy achieves what it has to in every respect but two: a transfer may end inside a cache
line of the destination, where a page of the source begins there, and a copy between
linearly mapped addresses may be longer than the byte count field of a channel.
-/

namespace Mv88fxx81.Idma

variable {m : Mapping} {c : Call} {current : Channel} {pieces : List (ℕ × ℕ)} {op : Op}
  {index : ℕ}

/-! ### The operations of a call -/

/-- The kernel side is in the address space. -/
theorem Call.InRange.kaddr_range (hcall : c.InRange m) : c.kaddr + c.n ≤ 2 ^ 32 := by
  unfold Call.kaddr
  cases c.toUser
  · exact hcall.to_range
  · exact hcall.from_range

/-- The kernel side is of one kind. -/
theorem Call.InRange.kaddr_kind (hcall : c.InRange m) : OneKind m c.kaddr c.n := by
  unfold Call.kaddr
  cases c.toUser
  · exact hcall.to_kind
  · exact hcall.from_kind

/-- A page begins on the kernel or user side if it does on the destination or source. -/
theorem sideCut_iff {x : ℕ} : SideCut m c x ↔ PageCut m c.to_ x ∨ PageCut m c.from_ x := by
  unfold SideCut Call.kaddr Call.uaddr
  cases c.toUser
  · exact Iff.rfl
  · exact or_comm

/-- A cursor starts with the whole range of a linearly mapped side. -/
theorem cursorAt_start {addr : ℕ} (hkind : isKernelStatic m (addr + c.midStart) =
    isKernelStatic m addr) :
    CursorAt m addr c.midEnd c.midStart
      (if isKernelStatic m (addr + c.midStart) then c.midEnd - c.midStart else 0) := by
  rw [hkind]
  unfold CursorAt sideLimit
  by_cases hstatic : isKernelStatic m addr = true
  · rw [if_pos hstatic, if_pos hstatic]
    exact Or.inl rfl
  · rw [if_neg hstatic]
    exact Or.inr ⟨rfl, by simpa using hstatic⟩

/-- The loop starts at the first whole cache line. -/
theorem startLoop_loopAt (hcall : c.InRange m) {r : Remaining}
    (hr : r = { to_ := c.to_ + c.midStart, from_ := c.from_ + c.midStart,
                n := c.midEnd - c.midStart, log := endOps c }) :
    (startLoop m c current r).uaddr = c.uaddr + c.midStart ∧
      LoopAt m c c.midStart (startLoop m c current r) := by
  obtain ⟨hsmall, hline, hle, -, -⟩ := hcall.mid_bounds
  have hto := hcall.to_range
  have hfrom := hcall.from_range
  have hu := hcall.uaddr_range
  have hk := hcall.kaddr_range
  have huaddr : (startLoop m c current r).uaddr = c.uaddr + c.midStart := by
    subst hr
    unfold startLoop Call.uaddr
    cases c.toUser
    · rfl
    · rfl
  have hkaddr : (startLoop m c current r).kaddr = c.kaddr + c.midStart := by
    subst hr
    unfold startLoop Call.kaddr
    cases c.toUser
    · rfl
    · rfl
  have hkChunk : (startLoop m c current r).kChunk =
      if isKernelStatic m (startLoop m c current r).kaddr then c.midEnd - c.midStart else 0 := by
    subst hr
    rfl
  have huChunk : (startLoop m c current r).uChunk =
      if isKernelStatic m (startLoop m c current r).uaddr then c.midEnd - c.midStart else 0 := by
    subst hr
    rfl
  refine ⟨huaddr, ?_, ?_, ?_, ?_, ?_, ?_, ?_⟩
  · have hlt : c.to_ + c.midStart < 2 ^ 32 := by omega
    subst hr
    exact (Nat.mod_eq_of_lt hlt).symm
  · have hlt : c.from_ + c.midStart < 2 ^ 32 := by omega
    subst hr
    exact (Nat.mod_eq_of_lt hlt).symm
  · rw [hkaddr]
    exact (Nat.mod_eq_of_lt (by omega)).symm
  · rw [huaddr]
    exact (Nat.mod_eq_of_lt (by omega)).symm
  · subst hr
    rfl
  · rw [hkChunk, hkaddr]
    exact cursorAt_start (hcall.kaddr_kind _ (by omega)).1
  · rw [huChunk, huaddr]
    exact cursorAt_start (hcall.uaddr_kind _ (by omega)).1

/-- The loop of a call starts behind the first partial cache line. -/
theorem startLoop_spec (hcall : c.InRange m) :
    (startLoop m c current (fixEnd (fixStart c))).uaddr = c.uaddr + c.midStart ∧
      (startLoop m c current (fixEnd (fixStart c))).n = c.midEnd - c.midStart ∧
      LoopAt m c c.midStart (startLoop m c current (fixEnd (fixStart c))) := by
  have hfix := fixEnd_fixStart hcall
  obtain ⟨huaddr, hloop⟩ := @startLoop_loopAt _ _ current hcall _ hfix
  exact ⟨huaddr, by rw [hfix]; rfl, hloop⟩

theorem userPages_refused (hcall : c.InRange m) (hrefused : PagesRefused m c) :
    userPages m c (c.uaddr + c.midStart) (c.midEnd - c.midStart) = none := by
  rcases userPages_cases hcall with ⟨-, hnone⟩ | ⟨hno, -⟩
  · exact hnone
  · exact absurd hrefused hno

/-- Without the user pages the CPU copies the whole lines too. -/
theorem dmaCopy_refused (hcall : c.InRange m) (hrefused : PagesRefused m c) :
    (dmaCopy m c current).2 = endOps c ++
      [.cpu (c.to_ + c.midStart) (c.from_ + c.midStart) (c.midEnd - c.midStart)] := by
  obtain ⟨hsmall, hline, hle, -, -⟩ := hcall.mid_bounds
  have hfix := fixEnd_fixStart hcall
  obtain ⟨huaddr, hn, -⟩ := @startLoop_spec _ _ current hcall
  unfold dmaCopy
  dsimp only
  rw [huaddr, hn, userPages_refused hcall hrefused]
  dsimp only
  rw [hfix]
  exact if_pos (by dsimp only; omega)

/-- With the user pages the pieces of the whole lines are copied. -/
theorem dmaCopy_pages (hcall : c.InRange m) (hpages : ¬ PagesRefused m c) (current : Channel) :
    ∃ pieces waits, Cuts.Walk (SideCut m c) c.midEnd c.midStart pieces ∧
      (∀ op ∈ waits, ∃ chan, op = Op.wait chan) ∧
      (dmaCopy m c current).2 = endOps c ++ pieceOps m c pieces 0 current ++ waits := by
  obtain ⟨hsmall, hline, hle, -, -⟩ := hcall.mid_bounds
  have hfix := fixEnd_fixStart hcall
  obtain ⟨huaddr, hn, hloop⟩ := @startLoop_spec _ _ current hcall
  rcases userPages_cases hcall with ⟨hrefused, -⟩ | ⟨-, pages, hsome, hof⟩
  · exact absurd hrefused hpages
  obtain ⟨pieces, l', hwalk, hl', hzero, hlog⟩ :=
    hloop.copyLoop hcall hof le_rfl (by omega) le_rfl
  have hlog' : l'.log = endOps c ++ pieceOps m c pieces 0 current := by
    rw [hlog, hfix]
    rfl
  refine ⟨pieces, (if l'.index > 1 then [Op.wait l'.current] else []) ++
    if l'.index > 0 then [Op.wait l'.current.next] else [], hwalk, fun op hop => ?_, ?_⟩
  · rcases List.mem_append.mp hop with hop | hop
    · split_ifs at hop
      · exact ⟨_, List.mem_singleton.mp hop⟩
      · simp at hop
    · split_ifs at hop
      · exact ⟨_, List.mem_singleton.mp hop⟩
      · simp at hop
  · unfold dmaCopy
    dsimp only
    rw [huaddr, hn, hsome]
    dsimp only
    rw [hl']
    unfold copyRest waitChannels
    dsimp only
    rw [if_neg (by omega), hlog', List.append_assoc]

/-! ### The bytes that the operations cover -/

/-- The copies of the partial cache lines cover the bytes before and after the whole ones. -/
theorem countP_endOps (hcall : c.InRange m) (i : ℕ) :
    (endOps c).countP (fun op => decide (op.Covers c i)) =
      if i < c.midStart ∨ c.midEnd ≤ i ∧ i < c.n then 1 else 0 := by
  obtain ⟨hsmall, hline, hle, hstart, hend⟩ := hcall.mid_bounds
  have hfirst : (if c.to_ % 32 ≠ 0 then [Op.cpu c.to_ c.from_ c.midStart] else []).countP
      (fun op => decide (op.Covers c i)) = if i < c.midStart then 1 else 0 := by
    by_cases haligned : c.to_ % 32 = 0
    · rw [if_neg (not_not.mpr haligned), if_neg (by omega)]
      rfl
    · rw [if_pos haligned]
      by_cases hi : i < c.midStart
      · have hcovers : (Op.cpu c.to_ c.from_ c.midStart).Covers c i :=
          ⟨Nat.le_add_right .., Nat.add_lt_add_left hi _⟩
        rw [List.countP_singleton, decide_eq_true hcovers, if_pos rfl, if_pos hi]
      · have hcovers : ¬ (Op.cpu c.to_ c.from_ c.midStart).Covers c i :=
          fun h => hi (Nat.lt_of_add_lt_add_left h.2)
        rw [List.countP_singleton, decide_eq_false hcovers, if_neg Bool.false_ne_true, if_neg hi]
  have hlast : (if (c.to_ + c.n) % 32 ≠ 0 then
      [Op.cpu (c.to_ + c.midEnd) (c.from_ + c.midEnd) ((c.to_ + c.n) % 32)] else []).countP
      (fun op => decide (op.Covers c i)) = if c.midEnd ≤ i ∧ i < c.n then 1 else 0 := by
    have hmid : c.midEnd + (c.to_ + c.n) % 32 = c.n := by
      unfold Call.midEnd
      have hn := hcall.n_ge
      omega
    by_cases haligned : (c.to_ + c.n) % 32 = 0
    · rw [if_neg (not_not.mpr haligned), if_neg (by omega)]
      rfl
    · rw [if_pos haligned]
      by_cases hi : c.midEnd ≤ i ∧ i < c.n
      · have hcovers : (Op.cpu (c.to_ + c.midEnd) (c.from_ + c.midEnd)
            ((c.to_ + c.n) % 32)).Covers c i := by
          unfold Op.Covers
          dsimp only [Op.destination, Op.moved]
          omega
        rw [List.countP_singleton, decide_eq_true hcovers, if_pos rfl, if_pos hi]
      · have hcovers : ¬ (Op.cpu (c.to_ + c.midEnd) (c.from_ + c.midEnd)
            ((c.to_ + c.n) % 32)).Covers c i := by
          unfold Op.Covers
          dsimp only [Op.destination, Op.moved]
          omega
        rw [List.countP_singleton, decide_eq_false hcovers, if_neg Bool.false_ne_true, if_neg hi]
  unfold endOps
  rw [List.countP_append, hfirst, hlast]
  split_ifs
  all_goals omega

/-- A wait covers nothing. -/
theorem countP_waits {waits : List Op} (hwaits : ∀ op ∈ waits, ∃ chan, op = Op.wait chan) (i : ℕ) :
    waits.countP (fun op => decide (op.Covers c i)) = 0 := by
  refine List.countP_eq_zero.mpr (fun op hop hcovers => ?_)
  obtain ⟨chan, rfl⟩ := hwaits op hop
  have hlt := (of_decide_eq_true hcovers).2
  simp only [Op.destination, Op.moved] at hlt
  omega

/-- The operations for the pieces cover them, if the pieces fit the byte count field. -/
theorem countP_pieceOps (hfits : ∀ piece ∈ pieces, piece.1 ≤ piece.2 ∧ piece.2 - piece.1 < 2 ^ 24)
    (i : ℕ) :
    (pieceOps m c pieces index current).countP (fun op => decide (op.Covers c i)) =
      pieces.countP (fun piece => decide (Cuts.Contains piece i)) := by
  induction pieces generalizing index current with
  | nil => rfl
  | cons piece pieces ih =>
    obtain ⟨a, b⟩ := piece
    obtain ⟨hle, hlt⟩ := hfits (a, b) List.mem_cons_self
    dsimp only at hle hlt
    have hrest := fun p hp => hfits p (List.mem_cons_of_mem (a, b) hp)
    by_cases hsmall : b - a < 128
    · have hcovers : (Op.cpu (c.to_ + a) (c.from_ + a) (b - a)).Covers c i ↔
          Cuts.Contains (a, b) i := by
        unfold Op.Covers Cuts.Contains
        dsimp only [Op.destination, Op.moved]
        omega
      rw [pieceOps_cons_small hsmall, List.countP_cons, List.countP_cons, ih hrest,
        decide_eq_decide.mpr hcovers]
    · have hcovers : (Op.dma current (c.to_ + a) (c.from_ + a) (m.translate (c.to_ + a))
          (m.translate (c.from_ + a)) (b - a)).Covers c i ↔ Cuts.Contains (a, b) i := by
        unfold Op.Covers Cuts.Contains
        dsimp only [Op.destination, Op.moved]
        rw [byteCount_eq, Nat.mod_eq_of_lt hlt]
        omega
      have hwaits : (if index > 1 then [Op.wait current] else []).countP
          (fun op => decide (op.Covers c i)) = 0 := by
        refine countP_waits (fun op hop => ?_) i
        split_ifs at hop
        · exact ⟨_, List.mem_singleton.mp hop⟩
        · simp at hop
      rw [pieceOps_cons_large hsmall, List.countP_append, hwaits, Nat.zero_add, List.countP_cons,
        List.countP_cons, ih hrest, decide_eq_decide.mpr hcovers]

end Mv88fxx81.Idma
