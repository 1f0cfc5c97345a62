import Mv88fxx81.Idma.CopySpec
import Mathlib.Data.Nat.Bitwise

/-!
# The memory after a copy

Operations that move bytes of a call between the right places leave the source as it is,
and a destination byte that they have moved holds its source byte from then on. So the
destination holds the source when every byte is covered and no channel is active.
-/

namespace Mv88fxx81.Idma

variable {m : Mapping} {c : Call} {s s' : Machine (BitVec 8)} {mem₀ : ℕ → BitVec 8}

/-- A transfer moves the bytes of a call from an offset on. -/
structure Transfer.MovesFrom (m : Mapping) (c : Call) (off : ℕ) (t : Transfer) : Prop where
  inRange : off + byteCount t.len ≤ c.n
  physTo : ∀ i < byteCount t.len, t.physTo + i = m.translate (c.to_ + off + i)
  physFrom : ∀ i < byteCount t.len, t.physFrom + i = m.translate (c.from_ + off + i)

/-- An operation moves bytes of a call between the right places. -/
def Op.Moves (m : Mapping) (c : Call) : Op → Prop
  | .cpu to_ from_ len => ∃ off, to_ = c.to_ + off ∧ from_ = c.from_ + off ∧ off + len ≤ c.n
  | .dma _ to_ _ physTo physFrom len =>
    ∃ off, to_ = c.to_ + off ∧ Transfer.MovesFrom m c off ⟨physTo, physFrom, len⟩
  | .wait _ => True

/-- What holds while the operations of a call are performed. -/
structure Progress (m : Mapping) (c : Call) (mem₀ : ℕ → BitVec 8) (ops : List Op)
    (s : Machine (BitVec 8)) : Prop where
  source : ∀ i < c.n, s.mem (m.translate (c.from_ + i)) = mem₀ (m.translate (c.from_ + i))
  active : ∀ chan t, s.active chan = some t → ∃ off, t.MovesFrom m c off
  /-- A byte is there, or an operation still has to move it, or a channel is at it. -/
  bytes : ∀ i < c.n, s.mem (m.translate (c.to_ + i)) = mem₀ (m.translate (c.from_ + i)) ∨
    (∃ op ∈ ops, op.Covers c i) ∨
      ∃ chan t off, s.active chan = some t ∧ t.MovesFrom m c off ∧
        off ≤ i ∧ i < off + byteCount t.len

section Copy

variable {toAt fromAt : ℕ → ℕ} {off len : ℕ}

/-- A copy of bytes of a call does not change the source. -/
theorem copy_source (hvalid : c.Valid m) (hrange : off + len ≤ c.n)
    (hto : ∀ i < len, toAt i = m.translate (c.to_ + (off + i)))
    (hsource : ∀ i < c.n, s.mem (m.translate (c.from_ + i)) = mem₀ (m.translate (c.from_ + i)))
    {i : ℕ} (hi : i < c.n) :
    MemoryCopy.copy toAt fromAt len s.mem (m.translate (c.from_ + i)) =
      mem₀ (m.translate (c.from_ + i)) := by
  rw [MemoryCopy.copy_apply_of_ne]
  · exact hsource i hi
  · intro j hj
    rw [hto j hj]
    exact hvalid.disjoint (off + j) (by omega) i hi

/-- A copy of bytes of a call puts them in their place. -/
theorem copy_inside (hvalid : c.Valid m) (hrange : off + len ≤ c.n)
    (hto : ∀ i < len, toAt i = m.translate (c.to_ + (off + i)))
    (hfrom : ∀ i < len, fromAt i = m.translate (c.from_ + (off + i)))
    (hsource : ∀ i < c.n, s.mem (m.translate (c.from_ + i)) = mem₀ (m.translate (c.from_ + i)))
    {i : ℕ} (hi : off ≤ i) (hlt : i < off + len) :
    MemoryCopy.copy toAt fromAt len s.mem (m.translate (c.to_ + i)) =
      mem₀ (m.translate (c.from_ + i)) := by
  obtain ⟨k, rfl⟩ := Nat.exists_eq_add_of_le hi
  have hk : k < len := by omega
  rw [← hto k hk, MemoryCopy.copy_apply _ _ hk, hfrom k hk, hsource _ (by omega)]
  · intro j hj l hl
    rw [hto j hj, hfrom l hl]
    exact hvalid.disjoint _ (by omega) _ (by omega)
  · intro j hj l hl heq
    rw [hto j hj, hto l hl] at heq
    have := hvalid.injective _ (by omega) _ (by omega) heq
    omega

/-- A copy of bytes of a call leaves the other bytes of the destination alone. -/
theorem copy_outside (hvalid : c.Valid m) (hrange : off + len ≤ c.n)
    (hto : ∀ i < len, toAt i = m.translate (c.to_ + (off + i)))
    {i : ℕ} (hi : i < c.n) (hout : i < off ∨ off + len ≤ i) :
    MemoryCopy.copy toAt fromAt len s.mem (m.translate (c.to_ + i)) =
      s.mem (m.translate (c.to_ + i)) := by
  refine MemoryCopy.copy_apply_of_ne _ (fun j hj heq => ?_)
  rw [hto j hj] at heq
  have := hvalid.injective _ (by omega) _ hi heq
  omega

end Copy

/-- A channel that completes its transfer makes progress. -/
theorem Progress.complete (hvalid : c.Valid m) {ops : List Op}
    (hprogress : Progress m c mem₀ ops s) {chan : Channel} {t : Transfer}
    (hactive : s.active chan = some t) : Progress m c mem₀ ops (s.complete chan t) := by
  obtain ⟨off, hmoves⟩ := hprogress.active chan t hactive
  have hto : ∀ i < byteCount t.len, t.physTo + i = m.translate (c.to_ + (off + i)) :=
    fun i hi => by rw [hmoves.physTo i hi, Nat.add_assoc]
  have hfrom : ∀ i < byteCount t.len, t.physFrom + i = m.translate (c.from_ + (off + i)) :=
    fun i hi => by rw [hmoves.physFrom i hi, Nat.add_assoc]
  constructor
  · intro i hi
    exact copy_source hvalid hmoves.inRange hto hprogress.source hi
  · intro d u hu
    by_cases heq : d = chan
    · subst heq
      simp [Machine.complete] at hu
    · simp only [Machine.complete, Function.update_of_ne heq] at hu
      exact hprogress.active d u hu
  · intro i hi
    by_cases hin : off ≤ i ∧ i < off + byteCount t.len
    · exact Or.inl
        (copy_inside hvalid hmoves.inRange hto hfrom hprogress.source hin.1 hin.2)
    · have hkept : (s.complete chan t).mem (m.translate (c.to_ + i)) =
          s.mem (m.translate (c.to_ + i)) :=
        copy_outside hvalid hmoves.inRange hto hi (by omega)
      rw [hkept]
      rcases hprogress.bytes i hi with hthere | htodo | ⟨d, u, off', hd, hu, hle, hlt⟩
      · exact Or.inl hthere
      · exact Or.inr (Or.inl htodo)
      · by_cases heq : d = chan
        · -- the transfer at byte `i` is the one that completes, from another offset
          subst heq
          obtain rfl : t = u := by
            rw [hactive] at hd
            exact Option.some.inj hd
          left
          rw [← hkept]
          exact copy_inside hvalid hu.inRange
            (fun j hj => by rw [hu.physTo j hj, Nat.add_assoc])
            (fun j hj => by rw [hu.physFrom j hj, Nat.add_assoc]) hprogress.source hle hlt
        · refine Or.inr (Or.inr ⟨d, u, off', ?_, hu, hle, hlt⟩)
          simp only [Machine.complete, Function.update_of_ne heq]
          exact hd

/-- A copy by the CPU makes progress. -/
theorem Progress.cpu (hvalid : c.Valid m) {ops : List Op} {to_ from_ len : ℕ}
    (hprogress : Progress m c mem₀ (.cpu to_ from_ len :: ops) s)
    (hmoves : (Op.cpu to_ from_ len).Moves m c) :
    Progress m c mem₀ ops (s.cpuCopy m to_ from_ len) := by
  obtain ⟨off, rfl, rfl, hrange⟩ := hmoves
  have hto : ∀ i < len, m.translate (c.to_ + off + i) = m.translate (c.to_ + (off + i)) :=
    fun i hi => by rw [Nat.add_assoc]
  have hfrom : ∀ i < len, m.translate (c.from_ + off + i) = m.translate (c.from_ + (off + i)) :=
    fun i hi => by rw [Nat.add_assoc]
  constructor
  · intro i hi
    exact copy_source hvalid hrange hto hprogress.source hi
  · exact hprogress.active
  · intro i hi
    by_cases hin : off ≤ i ∧ i < off + len
    · exact Or.inl (copy_inside hvalid hrange hto hfrom hprogress.source hin.1 hin.2)
    · have hkept : (s.cpuCopy m (c.to_ + off) (c.from_ + off) len).mem (m.translate (c.to_ + i)) =
          s.mem (m.translate (c.to_ + i)) := copy_outside hvalid hrange hto hi (by omega)
      rw [hkept]
      rcases hprogress.bytes i hi with hthere | ⟨op, hop, hcovers⟩ | hactive
      · exact Or.inl hthere
      · rcases List.mem_cons.mp hop with rfl | hop
        · simp only [Op.Covers, Op.destination, Op.moved] at hcovers
          omega
        · exact Or.inr (Or.inl ⟨op, hop, hcovers⟩)
      · exact Or.inr (Or.inr hactive)

/-- The start of a transfer on an idle channel makes progress. -/
theorem Progress.dma {ops : List Op} {chan : Channel} {to_ from_ physTo physFrom len : ℕ}
    (hprogress : Progress m c mem₀ (.dma chan to_ from_ physTo physFrom len :: ops) s)
    (hmoves : (Op.dma chan to_ from_ physTo physFrom len).Moves m c)
    (hidle : s.active chan = none) :
    Progress m c mem₀ ops (s.mvDmaTransfer chan ⟨physTo, physFrom, len⟩) := by
  obtain ⟨off, rfl, hmoves⟩ := hmoves
  constructor
  · exact hprogress.source
  · intro d u hu
    by_cases heq : d = chan
    · subst heq
      simp only [Machine.mvDmaTransfer, Function.update_self, Option.some.injEq] at hu
      exact ⟨off, hu ▸ hmoves⟩
    · simp only [Machine.mvDmaTransfer, Function.update_of_ne heq] at hu
      exact hprogress.active d u hu
  · intro i hi
    rcases hprogress.bytes i hi with hthere | ⟨op, hop, hcovers⟩ | ⟨d, u, off', hd, hu, hlt⟩
    · exact Or.inl hthere
    · rcases List.mem_cons.mp hop with rfl | hop
      · simp only [Op.Covers, Op.destination, Op.moved] at hcovers
        refine Or.inr (Or.inr ⟨chan, _, off, Function.update_self .., hmoves, ?_, ?_⟩)
        · omega
        · dsimp only
          omega
      · exact Or.inr (Or.inl ⟨op, hop, hcovers⟩)
    · have hne : d ≠ chan := by
        rintro rfl
        rw [hidle] at hd
        cases hd
      refine Or.inr (Or.inr ⟨d, u, off', ?_, hu, hlt⟩)
      simp only [Machine.mvDmaTransfer, Function.update_of_ne hne]
      exact hd

/-- Operations that start their transfers on idle channels make progress to their end. -/
theorem Execution.progress (hvalid : c.Valid m) {ops : List Op} (hexec : Execution m ops s s')
    {busy : Channel → Bool} (hbusy : ∀ chan, busy chan = false → s.active chan = none)
    (hstarts : StartsIdle ops busy) (hmoves : ∀ op ∈ ops, op.Moves m c)
    (hprogress : Progress m c mem₀ ops s) : Progress m c mem₀ [] s' := by
  induction hexec generalizing busy with
  | done => exact hprogress
  | @complete ops s s' chan t hactive hrest ih =>
    refine ih (fun d hd => ?_) hstarts hmoves (hprogress.complete hvalid hactive)
    by_cases heq : d = chan
    · subst heq
      exact Function.update_self ..
    · simp only [Machine.complete, Function.update_of_ne heq]
      exact hbusy d hd
  | cpu hrest ih =>
    exact ih hbusy hstarts (fun op hop => hmoves op (List.mem_cons_of_mem _ hop))
      (hprogress.cpu hvalid (hmoves _ List.mem_cons_self))
  | @dma ops s s' chan to_ from_ physTo physFrom len hrest ih =>
    obtain ⟨hidle, hstarts⟩ := hstarts
    refine ih (fun d hd => ?_) hstarts (fun op hop => hmoves op (List.mem_cons_of_mem _ hop))
      (hprogress.dma (hmoves _ List.mem_cons_self) (hbusy chan hidle))
    by_cases heq : d = chan
    · subst heq
      rw [Function.update_self] at hd
      cases hd
    · rw [Function.update_of_ne heq] at hd
      simp only [Machine.mvDmaTransfer, Function.update_of_ne heq]
      exact hbusy d hd
  | @wait ops s s' chan hactive hrest ih =>
    refine ih (fun d hd => ?_) hstarts (fun op hop => hmoves op (List.mem_cons_of_mem _ hop))
      ⟨hprogress.source, hprogress.active, fun i hi => ?_⟩
    · by_cases heq : d = chan
      · rw [heq]
        exact hactive
      · rw [Function.update_of_ne heq] at hd
        exact hbusy d hd
    · rcases hprogress.bytes i hi with hthere | ⟨op, hop, hcovers⟩ | hchan
      · exact Or.inl hthere
      · rcases List.mem_cons.mp hop with rfl | hop
        · simp only [Op.Covers, Op.destination, Op.moved] at hcovers
          omega
        · exact Or.inr (Or.inl ⟨op, hop, hcovers⟩)
      · exact Or.inr (Or.inr hchan)

/-- Operations that cover every byte of a call and leave the channels idle copy it. -/
theorem copied_of_covers {past ops : List Op} (hvalid : c.Valid m)
    (hpast : ∀ chan, busyAfter past (fun _ => false) chan = false)
    (hstarts : StartsIdle ops fun _ => false)
    (hidle : ∀ chan, busyAfter ops (fun _ => false) chan = false)
    (hmoves : ∀ op ∈ ops, op.Moves m c) (hcovers : ∀ i < c.n, ∃ op ∈ ops, op.Covers c i) :
    Copied m c past ops := by
  intro s₀ s s' hfirst hbefore hexec
  have hstart : ∀ chan, s.active chan = none :=
    fun chan => hbefore.active_busy (fun d _ => hfirst d) chan (hpast chan)
  have hend : ∀ chan, s'.active chan = none :=
    fun chan => hexec.active_busy (fun d _ => hstart d) chan (hidle chan)
  have hprogress : Progress m c s.mem ops s := by
    refine ⟨fun i hi => rfl, fun chan t ht => ?_, fun i hi => Or.inr (Or.inl (hcovers i hi))⟩
    rw [hstart chan] at ht
    cases ht
  have hdone := hexec.progress hvalid (fun d _ => hstart d) hstarts hmoves hprogress
  refine ⟨fun i hi => ?_, hend⟩
  rcases hdone.bytes i hi with hthere | ⟨op, hop, -⟩ | ⟨chan, t, off, hactive, -⟩
  · exact hthere
  · simp at hop
  · rw [hend chan] at hactive
    cases hactive

end Mv88fxx81.Idma
