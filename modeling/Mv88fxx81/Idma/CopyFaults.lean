import Mv88fxx81.Idma.CopyRuns

/-!
# Faults of a user copy

Accesses of the CPU to user pages may fault. `__arch_copy_to_user` and `__arch_copy_from_user`
then return how many bytes they have not copied. `dma_copy` returns what the last of its copies
returns, and does not look at the others.
-/

namespace Mv88fxx81.Idma

variable {m : Mapping} {c : Call} {current : Channel} {faults : ℕ → Bool}
  {archCopy : ℕ → ℕ → ℕ → ℕ} {op : Op} {i : ℕ}

/-! ### The value that is returned -/

/-- The copy at the labels `free_pages` and `error`. -/
def restResult (archCopy : ℕ → ℕ → ℕ → ℕ) (to_ from_ n : ℕ) : ℕ :=
  if n ≠ 0 then archCopy to_ from_ n else 0

/-- What `dma_copy` returns, when `archCopy` gives the number of bytes that a copy of the CPU
leaves. -/
def dmaCopyResult (archCopy : ℕ → ℕ → ℕ → ℕ) (m : Mapping) (c : Call) (current : Channel) : ℕ :=
  let r := fixEnd (fixStart c)
  let l := startLoop m c current r
  match userPages m c l.uaddr l.n with
  | none => restResult archCopy r.to_ r.from_ r.n
  | some pages =>
    let l := waitChannels (copyLoop m c.toUser pages l.uaddr l.n l)
    restResult archCopy l.to_ l.from_ l.n

/-! ### Faults -/

/-- An access to a user address faults with its page. -/
def FaultsAt (faults : ℕ → Bool) (virt : ℕ) : Prop :=
  isKernelSpace virt = false ∧ faults (virt / 4096) = true

instance (faults : ℕ → Bool) (virt : ℕ) : Decidable (FaultsAt faults virt) :=
  inferInstanceAs (Decidable (_ ∧ _))

/-- The user side of a copy. -/
def userSide (toUser : Bool) (to_ from_ : ℕ) : ℕ := if toUser then to_ else from_

/-- A copy of the CPU copies the first bytes of its range, all of them if none of them faults, and
returns the number of the others. -/
structure ArchCopy (faults : ℕ → Bool) (toUser : Bool) (archCopy : ℕ → ℕ → ℕ → ℕ) : Prop where
  le_len : ∀ to_ from_ len, archCopy to_ from_ len ≤ len
  copied : ∀ to_ from_ len i, i < len - archCopy to_ from_ len →
    ¬ FaultsAt faults (userSide toUser to_ from_ + i)
  all : ∀ to_ from_ len, (∀ i < len, ¬ FaultsAt faults (userSide toUser to_ from_ + i)) →
    archCopy to_ from_ len = 0

/-- An operation moves byte `i` of a call. A copy of the CPU leaves its last bytes. -/
def Op.Moved (archCopy : ℕ → ℕ → ℕ → ℕ) (c : Call) (i : ℕ) : Op → Prop
  | .cpu to_ from_ len => to_ ≤ c.to_ + i ∧ c.to_ + i < to_ + (len - archCopy to_ from_ len)
  | .dma _ to_ _ _ _ len => to_ ≤ c.to_ + i ∧ c.to_ + i < to_ + byteCount len
  | .wait _ => False

/-- Byte `i` of a call is copied, from its own place in the source. -/
def ByteCopied (archCopy : ℕ → ℕ → ℕ → ℕ) (m : Mapping) (c : Call) (current : Channel) (i : ℕ) :
    Prop :=
  ∃ op ∈ (dmaCopy m c current).2, op.InStep c ∧ op.Moved archCopy c i

/-- Zero is returned when all bytes are copied only, and otherwise no fewer than the bytes at the
end that are not. -/
structure FaultsReported (archCopy : ℕ → ℕ → ℕ → ℕ) (m : Mapping) (c : Call) (current : Channel) :
    Prop where
  zero : dmaCopyResult archCopy m c current = 0 → ∀ i < c.n, ByteCopied archCopy m c current i
  trailing : ∀ k ≤ c.n, (∀ i, c.n - k ≤ i → i < c.n → ¬ ByteCopied archCopy m c current i) →
    k ≤ dmaCopyResult archCopy m c current

/-- All bytes but the last ones, as many as are returned, are copied. -/
def FrontCopied (archCopy : ℕ → ℕ → ℕ → ℕ) (m : Mapping) (c : Call) (current : Channel) : Prop :=
  ∀ i < c.n - dmaCopyResult archCopy m c current, ByteCopied archCopy m c current i

/-! ### When faults are reported -/

/-- An access to the user side between two offsets faults. -/
def FaultIn (faults : ℕ → Bool) (c : Call) (first last : ℕ) : Prop :=
  ∃ i, first ≤ i ∧ i < last ∧ FaultsAt faults (c.uaddr + i)

/-- `get_user_pages_no_flush` does not get behind a page that faults. -/
def PagesEnd (faults : ℕ → Bool) (c : Call) : Prop :=
  FaultIn faults c c.midStart c.midEnd →
    c.res < nrPages (c.uaddr + c.midStart) (c.midEnd - c.midStart)

/-- No access in the partial cache line at the end faults, and one in the partial line at the
start only when the whole lines fault too and there is a partial line at the end. -/
def FaultsSeen (faults : ℕ → Bool) (m : Mapping) (c : Call) : Prop :=
  FitsByteCount m c ∧ ¬ FaultIn faults c c.midEnd c.n ∧
    (FaultIn faults c 0 c.midStart →
      FaultIn faults c c.midStart c.midEnd ∧ (c.to_ + c.n) % 32 ≠ 0)

/-- No access in the partial cache lines faults, and with a fault in the whole lines there is no
partial line at the end. -/
def FaultsLast (faults : ℕ → Bool) (m : Mapping) (c : Call) : Prop :=
  FitsByteCount m c ∧ ¬ FaultIn faults c c.midEnd c.n ∧ ¬ FaultIn faults c 0 c.midStart ∧
    (FaultIn faults c c.midStart c.midEnd → (c.to_ + c.n) % 32 = 0)

/-! ### The result of a call -/

/-- A page that faults is in user space, and the copy of the whole lines is left to the CPU. -/
theorem refused_of_fault (hcall : c.InRange m) (hpages : PagesEnd faults c)
    (hfault : FaultIn faults c c.midStart c.midEnd) : PagesRefused m c := by
  have hfew := hpages hfault
  obtain ⟨hsmall, hline, hle, -, -⟩ := hcall.mid_bounds
  obtain ⟨i, hstart, hend, huser, -⟩ := hfault
  have hspace := (hcall.uaddr_kind i (by omega)).2
  rw [huser] at hspace
  refine ⟨?_, hspace.symm, Or.inr hfew⟩
  by_contra hstatic
  rw [Bool.not_eq_false] at hstatic
  have hge : PAGE_OFFSET ≤ c.uaddr := (of_decide_eq_true hstatic).1
  have hlt : ¬ TASK_SIZE ≤ c.uaddr := of_decide_eq_false hspace.symm
  unfold PAGE_OFFSET at hge
  unfold TASK_SIZE at hlt
  omega

/-- Without the user pages the result is that of the copy of the whole lines. -/
theorem dmaCopyResult_refused (hcall : c.InRange m) (hrefused : PagesRefused m c) :
    dmaCopyResult archCopy m c current =
      archCopy (c.to_ + c.midStart) (c.from_ + c.midStart) (c.midEnd - c.midStart) := by
  obtain ⟨hsmall, hline, hle, -, -⟩ := hcall.mid_bounds
  have hfix := fixEnd_fixStart hcall
  obtain ⟨huaddr, hn, -⟩ := @startLoop_spec _ _ current hcall
  unfold dmaCopyResult
  dsimp only
  rw [huaddr, hn, userPages_refused hcall hrefused]
  dsimp only
  rw [hfix]
  exact if_pos (by dsimp only; omega)

/-- With the user pages the result is zero. -/
theorem dmaCopyResult_pages (hcall : c.InRange m) (hpages : ¬ PagesRefused m c) :
    dmaCopyResult archCopy m c current = 0 := by
  obtain ⟨hsmall, hline, hle, -, -⟩ := hcall.mid_bounds
  obtain ⟨huaddr, hn, hloop⟩ := @startLoop_spec _ _ current hcall
  rcases userPages_cases hcall with ⟨hrefused, -⟩ | ⟨-, pages, hsome, hof⟩
  · exact absurd hrefused hpages
  obtain ⟨pieces, l', -, hl', hzero, -⟩ := hloop.copyLoop hcall hof le_rfl (by omega) le_rfl
  unfold dmaCopyResult
  dsimp only
  rw [huaddr, hn, hsome]
  dsimp only
  rw [hl']
  unfold restResult waitChannels
  dsimp only
  exact if_neg (not_not.mpr hzero)

/-! ### Which bytes are copied -/

/-- The user side of a copy of the CPU at an offset. -/
theorem userSide_add (c : Call) (off : ℕ) :
    userSide c.toUser (c.to_ + off) (c.from_ + off) = c.uaddr + off := by
  unfold userSide Call.uaddr
  cases c.toUser <;> rfl

/-- A copy of the CPU between two offsets without a fault leaves nothing. -/
theorem ArchCopy.eq_zero (hcopy : ArchCopy faults c.toUser archCopy) {first last : ℕ}
    (hfault : ¬ FaultIn faults c first last) :
    archCopy (c.to_ + first) (c.from_ + first) (last - first) = 0 := by
  refine hcopy.all _ _ _ fun i hi hat => hfault ⟨first + i, by omega, by omega, ?_⟩
  rw [userSide_add, Nat.add_assoc] at hat
  exact hat

/-- A copy of the CPU at an offset is in step. -/
theorem inStep_cpu (c : Call) (off len : ℕ) :
    (Op.cpu (c.to_ + off) (c.from_ + off) len).InStep c := by
  unfold Op.InStep
  omega

/-- The partial cache lines are copied up to a fault. -/
theorem byteCopied_ends (hcall : c.InRange m)
    (hops : ∀ op ∈ endOps c, op ∈ (dmaCopy m c current).2) :
    (∀ i < c.midStart - archCopy c.to_ c.from_ c.midStart, ByteCopied archCopy m c current i) ∧
    ∀ i, c.midEnd ≤ i → i < c.n - archCopy (c.to_ + c.midEnd) (c.from_ + c.midEnd)
      (c.n - c.midEnd) → ByteCopied archCopy m c current i := by
  obtain ⟨hsmall, hline, hle, hstart, hend⟩ := hcall.mid_bounds
  have hn := hcall.n_ge
  have hrest : (c.to_ + c.n) % 32 = c.n - c.midEnd := by
    unfold Call.midEnd
    omega
  constructor
  · intro i hi
    have haligned : c.to_ % 32 ≠ 0 := by
      intro hzero
      have : c.midStart = 0 := by
        unfold Call.midStart
        omega
      omega
    refine ⟨.cpu c.to_ c.from_ c.midStart, hops _ ?_, inStep_cpu c 0 c.midStart, by omega, by omega⟩
    exact List.mem_append_left _ (by rw [if_pos haligned]; exact List.mem_singleton_self _)
  · intro i hge hi
    have haligned : (c.to_ + c.n) % 32 ≠ 0 := by omega
    refine ⟨.cpu (c.to_ + c.midEnd) (c.from_ + c.midEnd) (c.n - c.midEnd), hops _ ?_,
      inStep_cpu c c.midEnd _, by omega, by omega⟩
    refine List.mem_append_right _ ?_
    rw [if_pos haligned, hrest]
    exact List.mem_singleton_self _

/-- The copies of the partial cache lines are performed in every case. -/
theorem endOps_subset (hcall : c.InRange m) (op : Op) (hop : op ∈ endOps c) :
    op ∈ (dmaCopy m c current).2 := by
  by_cases hrefused : PagesRefused m c
  · rw [dmaCopy_refused hcall hrefused]
    exact List.mem_append_left _ hop
  · obtain ⟨pieces, waits, -, -, hops⟩ := dmaCopy_pages hcall hrefused current
    rw [hops]
    exact List.mem_append_left _ (List.mem_append_left _ hop)

/-- The other operations move bytes of the whole cache lines. -/
theorem moved_middle (hcall : c.InRange m) (hop : op ∈ (dmaCopy m c current).2)
    (hmoved : op.Moved archCopy c i) : op ∈ endOps c ∨ c.midStart ≤ i ∧ i < c.midEnd := by
  by_cases hrefused : PagesRefused m c
  · rw [dmaCopy_refused hcall hrefused] at hop
    refine (List.mem_append.mp hop).imp id fun hop => ?_
    rw [List.mem_singleton.mp hop] at hmoved
    obtain ⟨hge, hlt⟩ := hmoved
    omega
  · obtain ⟨pieces, waits, hwalk, hwaits, hops⟩ := dmaCopy_pages hcall hrefused current
    rw [hops] at hop
    rcases List.mem_append.mp hop with hop | hop
    · refine (List.mem_append.mp hop).imp id fun hop => ?_
      rcases mem_pieceOps hop with ⟨chan, rfl⟩ | ⟨piece, hpiece, hpieceOp⟩
      · exact hmoved.elim
      · obtain ⟨hstart, -, hcut⟩ := hwalk.piece_ends hpiece
        have hstop := hcut.le_stop
        rcases hpieceOp with ⟨-, rfl⟩ | ⟨-, chan, rfl⟩
        · obtain ⟨hge, hlt⟩ := hmoved
          omega
        · obtain ⟨hge, hlt⟩ := hmoved
          have hcount : byteCount (piece.2 - piece.1) ≤ piece.2 - piece.1 := by
            rw [byteCount_eq]
            exact Nat.mod_le _ _
          omega
    · obtain ⟨chan, rfl⟩ := hwaits op hop
      exact hmoved.elim

/-- What is copied of the partial cache lines. -/
theorem not_byteCopied_ends (hcall : c.InRange m) (hcopied : ByteCopied archCopy m c current i) :
    (i < c.midStart → i < c.midStart - archCopy c.to_ c.from_ c.midStart) ∧
      (c.midEnd ≤ i → i < c.n - archCopy (c.to_ + c.midEnd) (c.from_ + c.midEnd)
        (c.n - c.midEnd)) := by
  obtain ⟨hsmall, hline, hle, hstart, hend⟩ := hcall.mid_bounds
  have hn := hcall.n_ge
  have hrest : (c.to_ + c.n) % 32 = c.n - c.midEnd := by
    unfold Call.midEnd
    omega
  obtain ⟨op, hop, -, hmoved⟩ := hcopied
  rcases moved_middle hcall hop hmoved with hends | hmiddle
  · rcases List.mem_append.mp hends with hends | hends
    · split_ifs at hends
      · rw [List.mem_singleton.mp hends] at hmoved
        obtain ⟨hge, hlt⟩ := hmoved
        omega
      · simp at hends
    · split_ifs at hends
      · rw [List.mem_singleton.mp hends, hrest] at hmoved
        obtain ⟨hge, hlt⟩ := hmoved
        omega
      · simp at hends
  · omega

/-- What is copied of the whole cache lines when they are left to the CPU. -/
theorem byteCopied_refused (hcall : c.InRange m) (hrefused : PagesRefused m c)
    (hstart : c.midStart ≤ i) (hend : i < c.midEnd) :
    ByteCopied archCopy m c current i ↔ i < c.midEnd -
      archCopy (c.to_ + c.midStart) (c.from_ + c.midStart) (c.midEnd - c.midStart) := by
  constructor
  · rintro ⟨op, hop, -, hmoved⟩
    rw [dmaCopy_refused hcall hrefused] at hop
    rcases List.mem_append.mp hop with hop | hop
    · -- the copies of the partial lines do not get here
      obtain ⟨-, hline, -, -, -⟩ := hcall.mid_bounds
      rcases List.mem_append.mp hop with hop | hop
      · split_ifs at hop
        · rw [List.mem_singleton.mp hop] at hmoved
          obtain ⟨hge, hlt⟩ := hmoved
          omega
        · simp at hop
      · split_ifs at hop
        · rw [List.mem_singleton.mp hop] at hmoved
          obtain ⟨hge, hlt⟩ := hmoved
          omega
        · simp at hop
    · rw [List.mem_singleton.mp hop] at hmoved
      obtain ⟨hge, hlt⟩ := hmoved
      omega
  · intro hlt
    refine ⟨.cpu (c.to_ + c.midStart) (c.from_ + c.midStart) (c.midEnd - c.midStart), ?_,
      inStep_cpu c c.midStart _, by omega, by omega⟩
    rw [dmaCopy_refused hcall hrefused]
    exact List.mem_append_right _ (List.mem_singleton_self _)

/-- The whole cache lines are copied when the user pages are there. -/
theorem byteCopied_pages (hcall : c.InRange m) (hcopy : ArchCopy faults c.toUser archCopy)
    (hpages : ¬ PagesRefused m c) (hfits : FitsByteCount m c)
    (hfault : ¬ FaultIn faults c c.midStart c.midEnd) (hstart : c.midStart ≤ i)
    (hend : i < c.midEnd) : ByteCopied archCopy m c current i := by
  obtain ⟨pieces, waits, hwalk, hwaits, hops⟩ := dmaCopy_pages hcall hpages current
  have hcount : 0 < (pieceOps m c pieces 0 current).countP (fun op => decide (op.Covers c i)) := by
    rw [countP_pieceOps (fun piece hpiece => piece_fits hcall hfits hwalk hpiece),
      hwalk.countP_contains, if_pos ⟨hstart, hend⟩]
    exact Nat.one_pos
  obtain ⟨op, hop, hcovers⟩ := List.countP_pos_iff.mp hcount
  have hcovers' := of_decide_eq_true hcovers
  refine ⟨op, ?_, ?_⟩
  · rw [hops]
    exact List.mem_append_left _ (List.mem_append_right _ hop)
  rcases mem_pieceOps hop with ⟨chan, rfl⟩ | ⟨piece, hpiece, ⟨-, rfl⟩ | ⟨-, chan, rfl⟩⟩
  · obtain ⟨hge, hlt⟩ := hcovers'
    exact absurd hlt (Nat.not_lt.mpr hge)
  · obtain ⟨hfirst, -, hcut⟩ := hwalk.piece_ends hpiece
    have hstop := hcut.le_stop
    have hnone := @ArchCopy.eq_zero c faults archCopy hcopy piece.1 piece.2
      fun ⟨j, hge, hlt, hat⟩ => hfault ⟨j, by omega, by omega, hat⟩
    refine ⟨inStep_cpu c _ _, ?_⟩
    unfold Op.Moved
    dsimp only
    rw [hnone, Nat.sub_zero]
    exact hcovers'
  · refine ⟨?_, hcovers'⟩
    unfold Op.InStep pieceDma
    dsimp only
    omega

/-- The partial cache line at the start is copied when nothing in it faults. -/
theorem byteCopied_start (hcall : c.InRange m) (hcopy : ArchCopy faults c.toUser archCopy)
    (hfault : ¬ FaultIn faults c 0 c.midStart) (hi : i < c.midStart) :
    ByteCopied archCopy m c current i := by
  have hnone : archCopy c.to_ c.from_ c.midStart = 0 :=
    @ArchCopy.eq_zero c faults archCopy hcopy 0 c.midStart hfault
  refine (byteCopied_ends hcall (endOps_subset hcall)).1 i ?_
  rw [hnone]
  exact hi

/-- The partial cache line at the end is copied when nothing in it faults. -/
theorem byteCopied_end (hcall : c.InRange m) (hcopy : ArchCopy faults c.toUser archCopy)
    (hfault : ¬ FaultIn faults c c.midEnd c.n) (hge : c.midEnd ≤ i) (hi : i < c.n) :
    ByteCopied archCopy m c current i := by
  refine (byteCopied_ends hcall (endOps_subset hcall)).2 i hge ?_
  rw [@ArchCopy.eq_zero c faults archCopy hcopy _ _ hfault]
  exact hi

/-- The result is zero when nothing in the whole cache lines faults, and they are then copied. -/
theorem result_eq_zero (hcall : c.InRange m) (hcopy : ArchCopy faults c.toUser archCopy)
    (hfault : ¬ FaultIn faults c c.midStart c.midEnd) :
    dmaCopyResult archCopy m c current = 0 ∧ (FitsByteCount m c →
      ∀ i, c.midStart ≤ i → i < c.midEnd → ByteCopied archCopy m c current i) := by
  by_cases hrefused : PagesRefused m c
  · have hnone := @ArchCopy.eq_zero c faults archCopy hcopy _ _ hfault
    rw [dmaCopyResult_refused hcall hrefused, hnone]
    refine ⟨rfl, fun _ i hstart hend => (byteCopied_refused hcall hrefused hstart hend).mpr ?_⟩
    rw [hnone]
    exact hend
  · exact ⟨dmaCopyResult_pages hcall hrefused, fun hfits i hstart hend =>
      byteCopied_pages hcall hcopy hrefused hfits hfault hstart hend⟩

/-- All bytes are copied when nothing faults. -/
theorem byteCopied_all (hcall : c.InRange m) (hcopy : ArchCopy faults c.toUser archCopy)
    (hfits : FitsByteCount m c) (hstart : ¬ FaultIn faults c 0 c.midStart)
    (hmiddle : ¬ FaultIn faults c c.midStart c.midEnd) (hend : ¬ FaultIn faults c c.midEnd c.n)
    (hi : i < c.n) : ByteCopied archCopy m c current i := by
  by_cases hbefore : i < c.midStart
  · exact byteCopied_start hcall hcopy hstart hbefore
  by_cases hafter : c.midEnd ≤ i
  · exact byteCopied_end hcall hcopy hend hafter hi
  · exact (result_eq_zero hcall hcopy hmiddle).2 hfits i (Nat.not_lt.mp hbefore)
      (Nat.not_le.mp hafter)

/-! ### The condition is enough -/

/-- The bytes in front of the ones that the copy of the whole lines leaves. -/
theorem byteCopied_front (hcall : c.InRange m) (hcopy : ArchCopy faults c.toUser archCopy)
    (hrefused : PagesRefused m c) (hstart : ¬ FaultIn faults c 0 c.midStart)
    (hi : i < c.midEnd - dmaCopyResult archCopy m c current) :
    ByteCopied archCopy m c current i := by
  rw [dmaCopyResult_refused hcall hrefused] at hi
  by_cases hbefore : i < c.midStart
  · exact byteCopied_start hcall hcopy hstart hbefore
  · exact (byteCopied_refused hcall hrefused (Nat.not_lt.mp hbefore) (by omega)).mpr hi

theorem faultsReported_of_seen (hcall : c.InRange m) (hpages : PagesEnd faults c)
    (hcopy : ArchCopy faults c.toUser archCopy) (hseen : FaultsSeen faults m c) :
    FaultsReported archCopy m c current := by
  obtain ⟨hfits, hend, hstart⟩ := hseen
  obtain ⟨hsmall, hline, hle, hfirst, hlast⟩ := hcall.mid_bounds
  have hrest : (c.to_ + c.n) % 32 = c.n - c.midEnd := by
    have hn := hcall.n_ge
    unfold Call.midEnd
    omega
  constructor
  · intro hzero i hi
    by_cases hmiddle : FaultIn faults c c.midStart c.midEnd
    · -- a copy that leaves nothing has not met a fault
      have hrefused := refused_of_fault hcall hpages hmiddle
      rw [dmaCopyResult_refused hcall hrefused] at hzero
      obtain ⟨j, hj, hj', hat⟩ := hmiddle
      refine absurd hat ?_
      have hnone := hcopy.copied (c.to_ + c.midStart) (c.from_ + c.midStart)
        (c.midEnd - c.midStart) (j - c.midStart) (by rw [hzero]; omega)
      rw [userSide_add, Nat.add_assoc, Nat.add_sub_cancel' hj] at hnone
      exact hnone
    · exact byteCopied_all hcall hcopy hfits (fun h => hmiddle (hstart h).1) hmiddle hend hi
  · intro k hk hnot
    by_contra hlong
    have hlast' := hnot (c.n - 1) (by omega) (by omega)
    by_cases hmiddle : FaultIn faults c c.midStart c.midEnd
    · by_cases hpartial : (c.to_ + c.n) % 32 = 0
      · have hrefused := refused_of_fault hcall hpages hmiddle
        have hnone : ¬ FaultIn faults c 0 c.midStart := fun h => (hstart h).2 hpartial
        refine hnot (c.n - dmaCopyResult archCopy m c current - 1) (by omega) (by omega) ?_
        exact byteCopied_front hcall hcopy hrefused hnone (by omega)
      · exact hlast' (byteCopied_end hcall hcopy hend (by omega) (by omega))
    · exact hlast' (byteCopied_all hcall hcopy hfits (fun h => hmiddle (hstart h).1) hmiddle hend
        (by omega))

theorem frontCopied_of_last (hcall : c.InRange m) (hpages : PagesEnd faults c)
    (hcopy : ArchCopy faults c.toUser archCopy) (hlast : FaultsLast faults m c) :
    FrontCopied archCopy m c current := by
  obtain ⟨hfits, hend, hstart, hmiddleEnd⟩ := hlast
  intro i hi
  by_cases hmiddle : FaultIn faults c c.midStart c.midEnd
  · have hwhole : c.midEnd = c.n := by
      have hpartial := hmiddleEnd hmiddle
      unfold Call.midEnd
      omega
    refine byteCopied_front hcall hcopy (refused_of_fault hcall hpages hmiddle) hstart ?_
    rw [hwhole]
    exact hi
  · exact byteCopied_all hcall hcopy hfits hstart hmiddle hend (by omega)

/-! ### The condition is needed -/

/-- A copy of the CPU that copies nothing of a range with a fault. -/
def lazyCopy (faults : ℕ → Bool) (toUser : Bool) (to_ from_ len : ℕ) : ℕ :=
  if ∃ i < len, FaultsAt faults (userSide toUser to_ from_ + i) then len else 0

theorem archCopy_lazyCopy (faults : ℕ → Bool) (toUser : Bool) :
    ArchCopy faults toUser (lazyCopy faults toUser) := by
  refine ⟨fun to_ from_ len => ?_, fun to_ from_ len i hi hat => ?_, fun to_ from_ len hnone => ?_⟩
  · unfold lazyCopy
    split_ifs
    · exact le_rfl
    · exact Nat.zero_le _
  · unfold lazyCopy at hi
    split_ifs at hi with hfault
    · omega
    · exact hfault ⟨i, by omega, hat⟩
  · exact if_neg fun ⟨i, hi, hat⟩ => hnone i hi hat

/-- It leaves all bytes between two offsets with a fault. -/
theorem lazyCopy_eq (c : Call) {first last : ℕ} (hfault : FaultIn faults c first last) :
    lazyCopy faults c.toUser (c.to_ + first) (c.from_ + first) (last - first) = last - first := by
  obtain ⟨i, hge, hlt, hat⟩ := hfault
  refine if_pos ⟨i - first, by omega, ?_⟩
  rw [userSide_add, Nat.add_assoc, Nat.add_sub_cancel' hge]
  exact hat

/-- Nothing of a part of the call that has a fault is then copied. -/
theorem not_byteCopied_lazy (hcall : c.InRange m) (hpages : PagesEnd faults c) :
    (FaultIn faults c 0 c.midStart → ∀ i < c.midStart,
      ¬ ByteCopied (lazyCopy faults c.toUser) m c current i) ∧
    (FaultIn faults c c.midStart c.midEnd → (∀ i, c.midStart ≤ i → i < c.midEnd →
      ¬ ByteCopied (lazyCopy faults c.toUser) m c current i) ∧
        dmaCopyResult (lazyCopy faults c.toUser) m c current = c.midEnd - c.midStart) ∧
    (FaultIn faults c c.midEnd c.n → ∀ i, c.midEnd ≤ i →
      ¬ ByteCopied (lazyCopy faults c.toUser) m c current i) := by
  refine ⟨fun hfault i hi hcopied => ?_, fun hfault => ⟨fun i hstart hend hcopied => ?_, ?_⟩,
    fun hfault i hi hcopied => ?_⟩
  · have hlt := (not_byteCopied_ends hcall hcopied).1 hi
    have hall : lazyCopy faults c.toUser c.to_ c.from_ c.midStart = c.midStart :=
      lazyCopy_eq c hfault
    omega
  · have hlt := (byteCopied_refused hcall (refused_of_fault hcall hpages hfault) hstart hend).mp
      hcopied
    rw [lazyCopy_eq c hfault] at hlt
    omega
  · rw [dmaCopyResult_refused hcall (refused_of_fault hcall hpages hfault), lazyCopy_eq c hfault]
  · have hlt := (not_byteCopied_ends hcall hcopied).2 hi
    rw [lazyCopy_eq c hfault] at hlt
    omega

/-- A copy between linearly mapped addresses meets no fault, and is copied as a whole only if it
fits the byte count field. -/
theorem fits_of_zero (hcall : c.InRange m)
    (hall : dmaCopyResult archCopy m c current = 0 →
      ByteCopied archCopy m c current (c.midEnd - 1)) :
    FitsByteCount m c := by
  by_cases hrefused : PagesRefused m c
  · intro hto hfrom
    have hstatic := hrefused.1
    unfold Call.uaddr at hstatic
    split_ifs at hstatic
    · rw [hto] at hstatic
      cases hstatic
    · rw [hfrom] at hstatic
      cases hstatic
  · obtain ⟨op, hop, -, hmoved⟩ := hall (dmaCopyResult_pages hcall hrefused)
    refine fitsByteCount_of_covers hcall hrefused ⟨op, hop, ?_⟩
    cases op with
    | cpu to_ from_ len =>
      obtain ⟨hge, hlt⟩ := hmoved
      exact ⟨hge, lt_of_lt_of_le hlt (Nat.add_le_add_left (Nat.sub_le _ _) _)⟩
    | dma chan to_ from_ physTo physFrom len => exact hmoved
    | wait chan => exact hmoved.elim

theorem seen_of_faultsReported (hcall : c.InRange m) (hpages : PagesEnd faults c)
    (hreported : FaultsReported (lazyCopy faults c.toUser) m c current) :
    FaultsSeen faults m c := by
  obtain ⟨hsmall, hline, hle, -, -⟩ := hcall.mid_bounds
  obtain ⟨hnoStart, hnoMiddle, hnoEnd⟩ :=
    @not_byteCopied_lazy m c current faults hcall hpages
  have hzero : ¬ FaultIn faults c c.midStart c.midEnd → ∀ i < c.n,
      ByteCopied (lazyCopy faults c.toUser) m c current i := fun hmiddle =>
    hreported.zero (result_eq_zero hcall (archCopy_lazyCopy faults c.toUser) hmiddle).1
  refine ⟨fits_of_zero hcall fun h => hreported.zero h _ (by omega), fun hend => ?_,
    fun hstart => ?_⟩
  · have hnone := hnoEnd hend
    obtain ⟨i, hge, hi, -⟩ := hend
    by_cases hmiddle : FaultIn faults c c.midStart c.midEnd
    · obtain ⟨hwhole, hresult⟩ := hnoMiddle hmiddle
      have hk := hreported.trailing (c.n - c.midStart) (by omega) fun j hj hj' => by
        by_cases hbefore : j < c.midEnd
        · exact hwhole j (by omega) hbefore
        · exact hnone j (Nat.not_lt.mp hbefore)
      omega
    · exact hnone i hge (hzero hmiddle i hi)
  · have hnone := hnoStart hstart
    obtain ⟨i, -, hi, -⟩ := hstart
    have hmiddle : FaultIn faults c c.midStart c.midEnd := by
      by_contra hmiddle
      exact hnone i hi (hzero hmiddle i (by omega))
    refine ⟨hmiddle, fun haligned => ?_⟩
    obtain ⟨hwhole, hresult⟩ := hnoMiddle hmiddle
    have hmidEnd : c.midEnd = c.n := by
      unfold Call.midEnd
      omega
    have hk := hreported.trailing c.n le_rfl fun j hj hj' => by
      by_cases hbefore : j < c.midStart
      · exact hnone j hbefore
      · exact hwhole j (Nat.not_lt.mp hbefore) (by omega)
    omega

theorem last_of_frontCopied (hcall : c.InRange m) (hpages : PagesEnd faults c)
    (hfront : FrontCopied (lazyCopy faults c.toUser) m c current) : FaultsLast faults m c := by
  obtain ⟨hsmall, hline, hle, -, -⟩ := hcall.mid_bounds
  obtain ⟨hnoStart, hnoMiddle, hnoEnd⟩ :=
    @not_byteCopied_lazy m c current faults hcall hpages
  have hzero : dmaCopyResult (lazyCopy faults c.toUser) m c current = 0 → ∀ i < c.n,
      ByteCopied (lazyCopy faults c.toUser) m c current i := fun h i hi =>
    hfront i (by rw [h]; exact hi)
  have hlast : FaultIn faults c c.midStart c.midEnd → (c.to_ + c.n) % 32 = 0 := by
    intro hmiddle
    obtain ⟨hwhole, hresult⟩ := hnoMiddle hmiddle
    by_contra hpartial
    have hlt : c.midEnd < c.n := by
      have hn := hcall.n_ge
      unfold Call.midEnd
      omega
    exact hwhole c.midStart le_rfl (by omega) (hfront c.midStart (by omega))
  refine ⟨fits_of_zero hcall fun h => hzero h _ (by omega), fun hend => ?_, fun hstart => ?_, hlast⟩
  · have hnone := hnoEnd hend
    obtain ⟨i, hge, hi, -⟩ := hend
    by_cases hmiddle : FaultIn faults c c.midStart c.midEnd
    · have haligned := hlast hmiddle
      unfold Call.midEnd at hge
      omega
    · exact hnone i hge
        (hzero (result_eq_zero hcall (archCopy_lazyCopy faults c.toUser) hmiddle).1 i hi)
  · have hnone := hnoStart hstart
    obtain ⟨i, -, hi, -⟩ := hstart
    refine hnone i hi (hfront i ?_)
    by_cases hmiddle : FaultIn faults c c.midStart c.midEnd
    · obtain ⟨-, hresult⟩ := hnoMiddle hmiddle
      omega
    · rw [(result_eq_zero hcall (archCopy_lazyCopy faults c.toUser) hmiddle).1]
      omega

/-- Faults are reported to the callers exactly when none of them is in the partial cache lines,
but for one at the start that is hidden behind others; and the callers can rely on all bytes in
front of those that are returned exactly when the whole lines end the call, too. -/
theorem dmaCopy_faults_iff (hcall : c.InRange m) (hpages : PagesEnd faults c) (current : Channel) :
    ((∀ archCopy, ArchCopy faults c.toUser archCopy → FaultsReported archCopy m c current) ↔
      FaultsSeen faults m c) ∧
    ((∀ archCopy, ArchCopy faults c.toUser archCopy → FrontCopied archCopy m c current) ↔
      FaultsLast faults m c) := by
  have hlazy := archCopy_lazyCopy faults c.toUser
  constructor
  · constructor
    · intro hall
      exact seen_of_faultsReported hcall hpages (hall _ hlazy)
    · intro hseen archCopy hcopy
      exact faultsReported_of_seen hcall hpages hcopy hseen
  · constructor
    · intro hall
      exact last_of_frontCopied hcall hpages (hall _ hlazy)
    · intro hlast archCopy hcopy
      exact frontCopied_of_last hcall hpages hcopy hlast

/-- A user buffer that begins with the last 16 bytes of a page is read. -/
def readAcross : Call where
  to_ := 0x10000ff0
  from_ := 0xc0100ff0
  n := 80
  toUser := true
  kmalloc := true
  res := 1

theorem readAcross_inRange : readAcross.InRange userMapping := by
  refine ⟨by decide, by decide, by decide, by decide, fun i hi => ?_, fun i hi => ?_⟩
  · have hi' : i < 80 := hi
    refine ⟨?_, ?_⟩
    · refine decide_eq_decide.mpr (iff_of_false ?_ (by decide))
      change ¬ (0xc0000000 ≤ 0x10000ff0 + i ∧ _)
      omega
    · refine decide_eq_decide.mpr (iff_of_false ?_ (by decide))
      change ¬ 0xbf000000 ≤ 0x10000ff0 + i
      omega
  · have hi' : i < 80 := hi
    refine ⟨?_, ?_⟩
    · refine decide_eq_decide.mpr (iff_of_true ?_ (by decide))
      change 0xc0000000 ≤ 0xc0100ff0 + i ∧ 0xc0100ff0 + i < 0xc4000000
      omega
    · refine decide_eq_decide.mpr (iff_of_true ?_ (by decide))
      change 0xbf000000 ≤ 0xc0100ff0 + i
      omega

/-- The whole lines of the buffer are in the second page. -/
theorem readAcross_pagesEnd {faults : ℕ → Bool} (hsecond : faults 0x10001 = false) :
    PagesEnd faults readAcross := by
  rintro ⟨i, hge, hlt, -, hfault⟩
  have hge' : 16 ≤ i := hge
  have hlt' : i < 80 := hlt
  have hpage : (readAcross.uaddr + i) / 4096 = 0x10001 := by
    change (0x10000ff0 + i) / 4096 = 0x10001
    omega
  rw [hpage, hsecond] at hfault
  cases hfault

/-- When its second page faults, and is not mapped, the bytes of this page are reported as left. -/
theorem readAcross_reported :
    FaultsReported (lazyCopy (fun page => decide (page = 0x10001)) true) userMapping
      { readAcross with res := 0 } .cpyChan1 := by
  have h := readAcross_inRange
  have hcall : Call.InRange userMapping { readAcross with res := 0 } :=
    ⟨h.n_ge, h.n_lt, h.to_range, h.from_range, h.to_kind, h.from_kind⟩
  have hpages : PagesEnd (fun page => decide (page = 0x10001)) { readAcross with res := 0 } :=
    fun _ => by decide
  refine (dmaCopy_faults_iff hcall hpages .cpyChan1).1.mpr ⟨fun hto => ?_, ?_, ?_⟩ _
    (archCopy_lazyCopy _ _)
  · exact absurd hto (by decide)
  · rintro ⟨i, hge, hlt, -⟩
    exact absurd hlt (Nat.not_lt.mpr hge)
  · rintro ⟨i, -, hlt, -, hfault⟩
    have hlt' : i < 16 := hlt
    have hpage : (0x10000ff0 + i) / 4096 = 0x10001 := of_decide_eq_true hfault
    omega

/-- When its first page faults, zero is returned, and its first 16 bytes are not written. -/
theorem readAcross_faults :
    ¬ FaultsReported (lazyCopy (fun page => decide (page = 0x10000)) true) userMapping readAcross
      .cpyChan1 := by
  intro hreported
  have hpages : PagesEnd (fun page => decide (page = 0x10000)) readAcross :=
    readAcross_pagesEnd rfl
  have hstart : FaultIn (fun page => decide (page = 0x10000)) readAcross 0 readAcross.midStart :=
    ⟨0, by decide, by decide, by decide⟩
  have hseen := seen_of_faultsReported readAcross_inRange hpages hreported
  have haligned : (readAcross.to_ + readAcross.n) % 32 = 0 := by decide
  exact (hseen.2.2 hstart).2 haligned

end Mv88fxx81.Idma
