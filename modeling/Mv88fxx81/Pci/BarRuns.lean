import Mv88fxx81.Pci.BarTurns

/-!
# Which base address registers are reported

The loop of `pciDetectDeviceBars` reports the windows of a function, as long as no I/O window has
a base with bit 2 set and, since the whole size of a 64-bit window is not entered, there is none.
-/

namespace Mv88fxx81.Pci

variable {writable cfg : ConfigSpace} {barIndex first maxBars fuel : ℕ} {entry : PciBar}
  {bar : Bar} {bars : List Bar} {whole : Bool} {p : Probe}

/-! ### Entries of a run -/

/-- An entry that is kept is not changed any more, and later ones are for later registers. -/
theorem detectBars_frame (fuel barIndex : ℕ) (p : Probe) :
    p.barsNum ≤ (detectBars writable maxBars fuel barIndex p).barsNum ∧
      (∀ i < p.barsNum, (detectBars writable maxBars fuel barIndex p).pciBar i = p.pciBar i) ∧
      (p.barsNum < (detectBars writable maxBars fuel barIndex p).barsNum →
        barBaseAddrReg barIndex ≤
          ((detectBars writable maxBars fuel barIndex p).pciBar p.barsNum).barOffset) := by
  induction fuel generalizing barIndex p with
  | zero => exact ⟨le_rfl, fun _ _ => rfl, fun h => absurd h (Nat.lt_irrefl _)⟩
  | succ fuel ih =>
    unfold detectBars
    by_cases hlt : barIndex < maxBars
    · rw [if_pos hlt]
      obtain ⟨hforward, hoffset⟩ :=
        detectBar_frame writable p.cfg barIndex (p.pciBar p.barsNum)
      generalize detectBar writable p.cfg barIndex (p.pciBar p.barsNum) = turn at hforward hoffset
      dsimp only
      cases hfound : turn.found with
      | true =>
        obtain ⟨hle, hkept, -⟩ := ih (turn.barIndex + 1)
          ⟨turn.cfg, Function.update p.pciBar p.barsNum turn.bar, p.barsNum + 1⟩
        refine ⟨Nat.le_of_succ_le hle, fun i hi => ?_, fun _ => ?_⟩
        · rw [if_pos rfl, hkept i (Nat.lt_succ_of_lt hi)]
          exact Function.update_of_ne (Nat.ne_of_lt hi) _ _
        · rw [if_pos rfl, hkept p.barsNum (Nat.lt_succ_self _)]
          dsimp only
          rw [Function.update_self, hoffset]
      | false =>
        obtain ⟨hle, hkept, hlater⟩ := ih (turn.barIndex + 1)
          ⟨turn.cfg, Function.update p.pciBar p.barsNum turn.bar, p.barsNum⟩
        refine ⟨hle, fun i hi => ?_, fun hmore => ?_⟩
        · rw [if_neg Bool.false_ne_true, hkept i hi]
          exact Function.update_of_ne (Nat.ne_of_lt hi) _ _
        · refine le_trans ?_ (hlater hmore)
          unfold barBaseAddrReg
          omega
    · rw [if_neg hlt]
      exact ⟨le_rfl, fun _ _ => rfl, fun h => absurd h (Nat.lt_irrefl _)⟩

theorem reportsAll_unimplemented :
    ReportsAll whole cfg barIndex first (.unimplemented :: bars) p ↔
      ReportsAll whole cfg (barIndex + 1) first bars p :=
  ⟨fun ⟨hnum, hentries, hcfg⟩ => ⟨hnum, hentries, hcfg⟩,
    fun ⟨hnum, hentries, hcfg⟩ => ⟨hnum, hentries, hcfg⟩⟩

theorem implemented_cons (hne : bar ≠ .unimplemented) :
    implemented barIndex (bar :: bars) =
      (barIndex, bar) :: implemented (barIndex + bar.slots) bars := by
  cases bar with
  | unimplemented => exact absurd rfl hne
  | io base log addrBits => rfl
  | mem32 base log prefetch => rfl
  | mem64 base log prefetch => rfl

/-- The windows are reported when the first one is and the others are behind it. -/
theorem reportsAll_cons (hne : bar ≠ .unimplemented) :
    ReportsAll whole cfg barIndex first (bar :: bars) p ↔
      Reports whole barIndex (p.pciBar first) bar ∧
        ReportsAll whole cfg (barIndex + bar.slots) (first + 1) bars p := by
  constructor
  · rintro ⟨hnum, hentries, hcfg⟩
    rw [implemented_cons hne] at hnum hentries
    refine ⟨hentries 0 barIndex bar rfl, ?_, fun i n bar' hget => ?_, hcfg⟩
    · rw [hnum, List.length_cons]
      omega
    · have hreport := hentries (i + 1) n bar' hget
      rw [← Nat.add_assoc, Nat.add_right_comm] at hreport
      exact hreport
  · rintro ⟨hreport, hnum, hentries, hcfg⟩
    refine ⟨?_, fun i n bar' hget => ?_, hcfg⟩
    · rw [hnum, implemented_cons hne, List.length_cons]
      omega
    · rw [implemented_cons hne] at hget
      cases i with
      | zero =>
        obtain ⟨rfl, rfl⟩ := Prod.mk.inj (Option.some.inj hget)
        exact hreport
      | succ i =>
        have hreport' := hentries i n bar' hget
        rw [Nat.add_right_comm, Nat.add_assoc] at hreport'
        exact hreport'

/-! ### One window -/

/-- The size in an entry, for a window of less than 4 GB. -/
theorem sizeIs_iff {log : ℕ} (hlog : log < 64)
    (hlow : entry.barSizeLow = (BitVec.twoPow 64 log).setWidth 32) (hhigh : entry.barSizeHigh = 0) :
    SizeIs whole log entry ↔ log < 32 ∧ (whole = true → entry.barSize = BitVec.twoPow 64 log) := by
  have hhalf : (BitVec.twoPow 64 log >>> 32).setWidth 32 = (0 : BitVec 32) ↔ log < 32 := by
    constructor
    · intro hzero
      by_contra hge
      have hbit := congrArg (fun x => x.getLsbD (log - 32)) hzero
      have h₁ : log - 32 < 32 := by omega
      have h₂ : 32 + (log - 32) = log := by omega
      rw [BitVec.getLsbD_setWidth, BitVec.getLsbD_ushiftRight, BitVec.getLsbD_twoPow, h₂,
        decide_eq_true h₁, decide_eq_true hlog] at hbit
      simp at hbit
    · intro hlt
      apply BitVec.eq_of_getLsbD_eq
      intro i hi
      have hne : log ≠ 32 + i := by omega
      rw [BitVec.getLsbD_setWidth, BitVec.getLsbD_ushiftRight, BitVec.getLsbD_twoPow]
      simp [hne]
  unfold SizeIs
  rw [hlow, hhigh, eq_comm (a := (0 : BitVec 32)), hhalf]
  exact ⟨fun h => ⟨h.2.1, h.2.2⟩, fun h => ⟨rfl, h.1, h.2⟩⟩

/-- The size of a window with one register. -/
theorem Entered32.sizeIs {base : BitVec 32} {mapping : BarMapping} {log : ℕ} (hlog : log < 32)
    (hentered : Entered32 base barIndex mapping (BitVec.twoPow 32 log) entry) :
    SizeIs whole log entry := by
  have hlow : entry.barSizeLow = (BitVec.twoPow 64 log).setWidth 32 := by
    rw [hentered.sizeLow, setWidth_twoPow]
  refine (sizeIs_iff (Nat.lt_trans hlog (by decide)) hlow hentered.sizeHigh).mpr ⟨hlog, fun _ => ?_⟩
  rw [hentered.size]
  apply BitVec.eq_of_getLsbD_eq
  intro i hi
  rw [BitVec.getLsbD_setWidth, BitVec.getLsbD_twoPow, BitVec.getLsbD_twoPow, decide_eq_true hi,
    decide_eq_true hlog, decide_eq_true (Nat.lt_trans hlog (by decide : 32 < 64))]
  rfl

/-- An I/O window of which 16 address bits are decoded is entered with a wrong size. -/
theorem Entered32.not_sizeIs {base : BitVec 32} {mapping : BarMapping} {log : ℕ} (hlog : log < 32)
    (hentered : Entered32 base barIndex mapping (~~~(BitVec.allOnes 32 <<< log &&& 0xffff) + 1)
      entry) : ¬ SizeIs whole log entry := by
  intro hsize
  have hlow := hsize.1
  rw [hentered.sizeLow, setWidth_twoPow, ← not_allOnes_shiftLeft] at hlow
  have hmask := BitVec.not_inj.mp ((BitVec.add_left_inj _).mp hlow)
  have hbit := congrArg (fun x => x.getLsbD 31) hmask
  rw [BitVec.getLsbD_and, getLsbD_allOnes_shiftLeft (by decide),
    decide_eq_true (Nat.le_of_lt_succ hlog)] at hbit
  cases hbit

/-- The window is in use. -/
def Bar.present : Bar → Bool
  | .unimplemented => false
  | _ => true

/-- The window is taken for a 64-bit one by mistake. -/
def Bar.Misread : Bar → Prop
  | .io base _ _ => base.getLsbD 2 = true
  | _ => False

/-- A window that is not misread is entered, and its registers are kept. It is reported if it is a
plain one. -/
theorem detectBar_laidOut (whole : Bool) (entry : PciBar) (hform : bar.WellFormed)
    (hlaid : bar.LaidOut writable cfg barIndex) (hread : ¬ bar.Misread) :
    ∃ n entry', detectBar writable cfg barIndex entry = ⟨n, cfg, entry', bar.present⟩ ∧
      n + 1 = barIndex + bar.slots ∧
      (bar = .unimplemented → entry'.barSize = entry.barSize) ∧
      (bar ≠ .unimplemented → bar.Plain whole → Reports whole barIndex entry' bar) ∧
      (entry.barSize = 0 → Reports whole barIndex entry' bar → bar.Plain whole) := by
  cases bar with
  | unimplemented =>
    obtain ⟨entry', hturn, hsize⟩ := detectBar_unimplemented entry hlaid
    exact ⟨barIndex, entry', hturn, rfl, fun _ => hsize, fun h => absurd rfl h, fun _ h => h.elim⟩
  | io base log addrBits =>
    obtain ⟨hlog, hlt, hdvd, haddr⟩ := hform
    have hlog32 : log < 32 := by omega
    have hbit : base.getLsbD 2 = false := Bool.eq_false_iff.mpr hread
    have hlow : ∀ i < 2, base.getLsbD i = false := fun i hi => getLsbD_of_dvd hdvd (by omega)
    have hge : ∀ i, base.getLsbD i = true → i < 32 ∧ log ≤ i := by
      intro i hi
      refine ⟨?_, ?_⟩
      · by_contra hle
        rw [BitVec.getLsbD_of_ge _ _ (Nat.not_lt.mp hle)] at hi
        cases hi
      · by_contra hle
        rw [getLsbD_of_dvd hdvd (Nat.not_le.mp hle)] at hi
        cases hi
    have hones : ∀ i, base.getLsbD i = true → (BitVec.allOnes 32 <<< log).getLsbD i = true := by
      intro i hi
      rw [getLsbD_allOnes_shiftLeft (hge i hi).1]
      exact decide_eq_true (hge i hi).2
    have hzero : ∀ i < 2, (BitVec.allOnes 32 <<< log).getLsbD i = false := by
      intro i hi
      rw [getLsbD_allOnes_shiftLeft (by omega)]
      exact decide_eq_false (by omega)
    obtain ⟨hcfg, hwritable⟩ := hlaid
    rcases haddr with rfl | ⟨rfl, hbound⟩
    · rw [if_neg (by decide)] at hwritable
      have htop : (BitVec.allOnes 32 <<< log).getLsbD 31 = true := by
        rw [getLsbD_allOnes_shiftLeft (by decide)]
        exact decide_eq_true (by omega)
      obtain ⟨entry', hturn, hentered⟩ :=
        detectBar_io entry hcfg hwritable hlow hbit hzero hones htop
      rw [not_allOnes_shiftLeft] at hentered
      exact ⟨barIndex, entry', hturn, rfl, nofun, fun _ _ => ⟨hentered.barOffset, hentered.barType,
        hentered.barMapping, hentered.base, hentered.sizeIs hlog32⟩, fun _ _ => ⟨hbit, rfl⟩⟩
    · rw [if_pos rfl] at hwritable
      have hhalf : ∀ i < 32, (0xffff : BitVec 32).getLsbD i = decide (i < 16) := by decide
      have htop : (BitVec.allOnes 32 <<< log &&& 0xffff).getLsbD 15 = true := by
        rw [BitVec.getLsbD_and, getLsbD_allOnes_shiftLeft (by decide), hhalf 15 (by decide)]
        have hle : log ≤ 15 := by omega
        simp [hle]
      have hsub : ∀ i, base.getLsbD i = true →
          (BitVec.allOnes 32 <<< log &&& 0xffff).getLsbD i = true := by
        intro i hi
        have hi16 : i < 16 := by
          by_contra hle
          unfold BitVec.getLsbD at hi
          rw [Nat.testBit_lt_two_pow (lt_of_lt_of_le hbound
            (Nat.pow_le_pow_right (by decide) (Nat.not_lt.mp hle)))] at hi
          cases hi
        rw [BitVec.getLsbD_and, hones i hi, hhalf i (by omega)]
        exact decide_eq_true hi16
      have hzero' : ∀ i < 2, (BitVec.allOnes 32 <<< log &&& 0xffff).getLsbD i = false := by
        intro i hi
        rw [BitVec.getLsbD_and, hzero i hi, Bool.false_and]
      obtain ⟨entry', hturn, hentered⟩ :=
        detectBar_io entry hcfg hwritable hlow hbit hzero' hsub htop
      refine ⟨barIndex, entry', hturn, rfl, nofun, fun _ hplain => ?_, fun _ hreports => ?_⟩
      · exact absurd hplain.2 (by decide)
      · exact absurd hreports.2.2.2.2 (hentered.not_sizeIs hlog32)
  | mem32 base log prefetch =>
    obtain ⟨hlog, hlt, hdvd⟩ := hform
    obtain ⟨hcfg, hwritable⟩ := hlaid
    have hlow : ∀ i < 4, base.getLsbD i = false := fun i hi => getLsbD_of_dvd hdvd (by omega)
    have hzero : ∀ i < 4, (BitVec.allOnes 32 <<< log).getLsbD i = false := by
      intro i hi
      rw [getLsbD_allOnes_shiftLeft (by omega)]
      exact decide_eq_false (by omega)
    have hones : ∀ i, base.getLsbD i = true → (BitVec.allOnes 32 <<< log).getLsbD i = true := by
      intro i hi
      have hi32 : i < 32 := by
        by_contra hle
        rw [BitVec.getLsbD_of_ge _ _ (Nat.not_lt.mp hle)] at hi
        cases hi
      rw [getLsbD_allOnes_shiftLeft hi32, decide_eq_true_iff]
      by_contra hle
      rw [getLsbD_of_dvd hdvd (Nat.not_le.mp hle)] at hi
      cases hi
    have htop : (BitVec.allOnes 32 <<< log).getLsbD 31 = true := by
      rw [getLsbD_allOnes_shiftLeft (by decide)]
      exact decide_eq_true (by omega)
    obtain ⟨entry', hturn, hentered, hprefetch⟩ :=
      detectBar_mem32 entry hcfg hwritable hlow hzero hones htop
    rw [not_allOnes_shiftLeft] at hentered
    exact ⟨barIndex, entry', hturn, rfl, nofun, fun _ _ => ⟨hentered.barOffset, hentered.barType,
      hentered.barMapping, hprefetch, hentered.base, hentered.sizeIs hlt⟩, fun _ _ => trivial⟩
  | mem64 base log prefetch =>
    obtain ⟨entry', hturn, hoffset, htype, hmapping, hprefetch, hbase, hlow, hhigh, hwhole⟩ :=
      detectBar_mem64 entry hform hlaid
    have hsize := @sizeIs_iff entry' whole log hform.2.1 hlow hhigh
    refine ⟨barIndex + 1, entry', hturn, rfl, nofun, fun _ hplain => ?_, fun hstale hreports => ?_⟩
    · refine ⟨hoffset, htype, hmapping, hprefetch, hbase, hsize.mpr ⟨hplain.2, fun h => ?_⟩⟩
      rw [hplain.1] at h
      cases h
    · obtain ⟨hlt, hall⟩ := hsize.mp hreports.2.2.2.2.2
      refine ⟨?_, hlt⟩
      by_contra hne
      have hzero := hall (Bool.eq_true_of_not_eq_false hne)
      rw [hwhole, hstale] at hzero
      have hbit := congrArg (fun x => x.getLsbD log) hzero
      rw [BitVec.getLsbD_twoPow, decide_eq_true hform.2.1] at hbit
      simp at hbit

/-- An I/O window that is misread is not reported, whatever follows. -/
theorem not_reportsAll_misread (fuel : ℕ) (hform : bar.WellFormed)
    (hlaid : bar.LaidOut writable p.cfg barIndex) (hread : bar.Misread)
    (hlt : barIndex < maxBars) :
    ¬ ReportsAll whole cfg barIndex p.barsNum (bar :: bars)
      (detectBars writable maxBars (fuel + 1) barIndex p) := by
  cases bar with
  | io base log addrBits =>
    obtain ⟨hlog, hlt', hdvd, -⟩ := hform
    obtain ⟨hindex, htype, -⟩ := @detectBar_io_wide writable p.cfg barIndex base
      (p.pciBar p.barsNum) hlaid.1 (fun i hi => getLsbD_of_dvd hdvd (by omega)) hread
    have hne : Bar.io base log addrBits ≠ .unimplemented := nofun
    intro hall
    obtain ⟨hreport, hrest⟩ := (reportsAll_cons hne).mp hall
    unfold detectBars at hreport hrest
    rw [if_pos hlt] at hreport hrest
    dsimp only at hreport hrest
    generalize detectBar writable p.cfg barIndex (p.pciBar p.barsNum) = turn at *
    cases hfound : turn.found with
    | true =>
      rw [hfound, if_pos rfl] at hreport
      have hkept := (@detectBars_frame writable maxBars fuel (turn.barIndex + 1)
        ⟨turn.cfg, Function.update p.pciBar p.barsNum turn.bar, p.barsNum + 1⟩).2.1 p.barsNum
        (Nat.lt_succ_self _)
      dsimp only at hkept
      rw [Function.update_self] at hkept
      rw [hkept] at hreport
      have h32 := hreport.2.1
      rw [htype] at h32
      cases h32
    | false =>
      rw [hfound, if_neg Bool.false_ne_true] at hreport hrest
      have hmore := hrest.barsNum
      have hlater := (@detectBars_frame writable maxBars fuel (turn.barIndex + 1)
        ⟨turn.cfg, Function.update p.pciBar p.barsNum turn.bar, p.barsNum⟩).2.2
      dsimp only at hlater hmore
      have hge := hlater (by omega)
      rw [hreport.1, hindex] at hge
      unfold barBaseAddrReg at hge
      omega
  | unimplemented => exact hread.elim
  | mem32 base log prefetch => exact hread.elim
  | mem64 base log prefetch => exact hread.elim

/-! ### All windows -/

/-- The registers of the windows fill those of the function. -/
def slotsNum (bars : List Bar) : ℕ := (bars.map Bar.slots).sum

theorem slots_pos (bar : Bar) : 0 < bar.slots := by
  cases bar with
  | mem64 base log prefetch => exact Nat.two_pos
  | unimplemented => exact Nat.one_pos
  | io base log addrBits => exact Nat.one_pos
  | mem32 base log prefetch => exact Nat.one_pos

theorem not_misread_of_plain (hplain : bar.Plain whole) : ¬ bar.Misread := by
  cases bar with
  | io base log addrBits =>
    exact Bool.eq_false_iff.mp hplain.1
  | unimplemented => exact id
  | mem32 base log prefetch => exact id
  | mem64 base log prefetch => exact id

/-- One turn for a window that is not misread. -/
theorem detectBars_succ (hlt : barIndex < maxBars) {n : ℕ} {entry' : PciBar}
    (hturn : detectBar writable p.cfg barIndex (p.pciBar p.barsNum) =
      ⟨n, p.cfg, entry', bar.present⟩) (fuel : ℕ) :
    detectBars writable maxBars (fuel + 1) barIndex p =
      detectBars writable maxBars fuel (n + 1)
        ⟨p.cfg, Function.update p.pciBar p.barsNum entry',
          if bar.present then p.barsNum + 1 else p.barsNum⟩ := by
  rw [detectBars, if_pos hlt, hturn]

/-- From any register on, plain windows are reported, and only these when the whole sizes that are
in the entries before are none. -/
theorem detectBars_reportsAll (hform : ∀ bar ∈ bars, bar.WellFormed)
    (hlaid : LaidOut writable p.cfg barIndex bars) (hslots : barIndex + slotsNum bars = maxBars)
    (hfuel : maxBars - barIndex ≤ fuel) :
    ((∀ bar ∈ bars, bar.Plain whole) →
      ReportsAll whole p.cfg barIndex p.barsNum bars
        (detectBars writable maxBars fuel barIndex p)) ∧
    ((∀ i, p.barsNum ≤ i → (p.pciBar i).barSize = 0) →
      ReportsAll whole p.cfg barIndex p.barsNum bars
        (detectBars writable maxBars fuel barIndex p) → ∀ bar ∈ bars, bar.Plain whole) := by
  induction bars generalizing barIndex p fuel with
  | nil =>
    have hend : ¬ barIndex < maxBars := by
      rw [← hslots]
      exact Nat.lt_irrefl _
    have hresult : detectBars writable maxBars fuel barIndex p = p := by
      cases fuel with
      | zero => rfl
      | succ fuel => rw [detectBars, if_neg hend]
    rw [hresult]
    exact ⟨fun _ => ⟨rfl, nofun, rfl⟩, nofun⟩
  | cons bar bars ih =>
    obtain ⟨hhead, htail⟩ := hlaid
    have hpos := slots_pos bar
    have hsum : slotsNum (bar :: bars) = bar.slots + slotsNum bars := by
      unfold slotsNum
      rw [List.map_cons, List.sum_cons]
    have hlt : barIndex < maxBars := by omega
    obtain ⟨fuel, rfl⟩ := Nat.exists_eq_succ_of_ne_zero (by omega : fuel ≠ 0)
    have hbar := hform bar List.mem_cons_self
    by_cases hread : bar.Misread
    · refine ⟨fun hplain => ?_, fun _ hall => ?_⟩
      · exact absurd hread (not_misread_of_plain (hplain bar List.mem_cons_self))
      · exact absurd hall (not_reportsAll_misread fuel hbar hhead hread hlt)
    · obtain ⟨n, entry', hturn, hnext, hstale, hreports, hplain⟩ :=
        detectBar_laidOut whole (p.pciBar p.barsNum) hbar hhead hread
      rw [detectBars_succ hlt hturn fuel, hnext]
      obtain ⟨hforward, hback⟩ := @ih (barIndex + bar.slots) fuel
        ⟨p.cfg, Function.update p.pciBar p.barsNum entry',
          if bar.present then p.barsNum + 1 else p.barsNum⟩
        (fun b hb => hform b (List.mem_cons_of_mem _ hb)) htail (by omega) (by omega)
      by_cases hnone : bar = .unimplemented
      · subst hnone
        refine ⟨fun hall => ?_, fun hzero hall => ?_⟩
        · rw [reportsAll_unimplemented]
          exact hforward fun b hb => hall b (List.mem_cons_of_mem _ hb)
        · rw [reportsAll_unimplemented] at hall
          intro b hb
          rcases List.mem_cons.mp hb with rfl | hb
          · trivial
          · refine hback (fun i hi => ?_) hall b hb
            by_cases hfirst : i = p.barsNum
            · subst hfirst
              dsimp only
              rw [Function.update_self, hstale rfl]
              exact hzero _ le_rfl
            · dsimp only
              rw [Function.update_of_ne hfirst]
              exact hzero i hi
      · have hpresent : bar.present = true := by
          cases bar with
          | unimplemented => exact absurd rfl hnone
          | io base log addrBits => rfl
          | mem32 base log prefetch => rfl
          | mem64 base log prefetch => rfl
        rw [hpresent, if_pos rfl] at hforward hback ⊢
        -- the entry of this window is not changed by the turns behind it
        have hkept := (@detectBars_frame writable maxBars fuel (barIndex + bar.slots)
          ⟨p.cfg, Function.update p.pciBar p.barsNum entry', p.barsNum + 1⟩).2.1 p.barsNum
          (Nat.lt_succ_self _)
        dsimp only at hkept
        rw [Function.update_self] at hkept
        refine ⟨fun hall => (reportsAll_cons hnone).mpr ⟨?_, ?_⟩, fun hzero hall => ?_⟩
        · rw [hkept]
          exact hreports hnone (hall bar List.mem_cons_self)
        · exact hforward fun b hb => hall b (List.mem_cons_of_mem _ hb)
        · obtain ⟨hreport, hrest⟩ := (reportsAll_cons hnone).mp hall
          rw [hkept] at hreport
          intro b hb
          rcases List.mem_cons.mp hb with rfl | hb
          · exact hplain (hzero _ le_rfl) hreport
          · refine hback (fun i hi => ?_) hrest b hb
            have hne : i ≠ p.barsNum := Nat.ne_of_gt hi
            dsimp only
            rw [Function.update_of_ne hne]
            exact hzero i (Nat.le_of_succ_le hi)

/-- The windows of a function of a class are reported, whatever the entries hold before. -/
def BarsRight (whole : Bool) (writable cfg : ConfigSpace) (baseClassCode subClassCode : ℕ)
    (bars : List Bar) : Prop :=
  ∀ pciBar, ReportsAll whole cfg 0 0 bars
    (pciDetectDeviceBars writable cfg baseClassCode subClassCode pciBar)

theorem barsRight_iff {baseClassCode subClassCode : ℕ} (hform : ∀ bar ∈ bars, bar.WellFormed)
    (hlaid : LaidOut writable cfg 0 bars)
    (hslots : slotsNum bars = pciMaxBars baseClassCode subClassCode) :
    BarsRight whole writable cfg baseClassCode subClassCode bars ↔
      ∀ bar ∈ bars, bar.Plain whole := by
  have hstart : 0 + slotsNum bars = pciMaxBars baseClassCode subClassCode := by
    rw [Nat.zero_add, hslots]
  constructor
  · intro hright
    have hall := hright fun _ => ⟨0, 0, 0, 0, 0, 0, 0, false, .bar32, .memory⟩
    exact (@detectBars_reportsAll writable 0 _ _ bars whole ⟨cfg, _, 0⟩ hform hlaid hstart
      (Nat.sub_le _ _)).2 (fun _ _ => rfl) hall
  · intro hplain pciBar
    exact (@detectBars_reportsAll writable 0 _ _ bars whole ⟨cfg, pciBar, 0⟩ hform hlaid hstart
      (Nat.sub_le _ _)).1 hplain

/-- The windows of a function are reported with their whole sizes exactly when no I/O window has a
base with bit 2 set or decodes 16 bits only, and there is no 64-bit window; and with the halves of
their sizes exactly when, instead, every 64-bit window has less than 4 GB. -/
theorem pciDetectDeviceBars_right_iff {baseClassCode subClassCode : ℕ}
    (hform : ∀ bar ∈ bars, bar.WellFormed) (hlaid : LaidOut writable cfg 0 bars)
    (hslots : slotsNum bars = pciMaxBars baseClassCode subClassCode) :
    (BarsRight true writable cfg baseClassCode subClassCode bars ↔
      ∀ bar ∈ bars, bar.Plain true) ∧
    (BarsRight false writable cfg baseClassCode subClassCode bars ↔
      ∀ bar ∈ bars, bar.Plain false) :=
  ⟨barsRight_iff hform hlaid hslots, barsRight_iff hform hlaid hslots⟩

/-- The registers that a list of windows needs. -/
def registersOf (regs : List (BitVec 32)) : ConfigSpace := fun regOff =>
  regs.getD ((regOff - 0x10) / 4) 0

/-- A function of which the first window is one of four I/O ports, from an address on, and the
second one of 1 MB of memory. -/
def portBars (base : BitVec 32) : List Bar :=
  [.io base 2 32, .mem32 0xe0000000 20 false, .unimplemented, .unimplemented, .unimplemented,
    .unimplemented]

def portWritable : ConfigSpace := registersOf [0xfffffffc, 0xfff00000, 0, 0, 0, 0]

def portConfig (base : BitVec 32) : ConfigSpace :=
  registersOf [base ||| ioSpace, 0xe0000000, 0, 0, 0, 0]

theorem portBars_wellFormed {base : BitVec 32} (hdvd : 4 ∣ base.toNat) :
    ∀ bar ∈ portBars base, bar.WellFormed := by
  simp only [portBars, List.mem_cons, List.not_mem_nil, or_false, forall_eq_or_imp, forall_eq]
  exact ⟨⟨by decide, by decide, hdvd, Or.inl rfl⟩, ⟨by decide, by decide, by decide⟩, trivial,
    trivial, trivial, trivial⟩

theorem portBars_laidOut {base : BitVec 32} (hbase : base = 0x1000 ∨ base = 0x1004) :
    LaidOut portWritable (portConfig base) 0 (portBars base) := by
  rcases hbase with rfl | rfl
  all_goals
    refine ⟨⟨?_, ?_⟩, ⟨?_, ?_⟩, ⟨?_, ?_⟩, ⟨?_, ?_⟩, ⟨?_, ?_⟩, ⟨?_, ?_⟩, trivial⟩
    all_goals decide

/-- Four ports from 0x1000 on are reported. -/
theorem portBars_right : BarsRight true portWritable (portConfig 0x1000) 2 0 (portBars 0x1000) := by
  refine (pciDetectDeviceBars_right_iff (portBars_wellFormed (by decide))
    (portBars_laidOut (Or.inl rfl))
    rfl).1.mpr ?_
  simp only [portBars, List.mem_cons, List.not_mem_nil, or_false, forall_eq_or_imp, forall_eq]
  exact ⟨⟨by decide, rfl⟩, trivial, trivial, trivial, trivial, trivial⟩

/-- Four ports from 0x1004 on are not. -/
theorem portBars_not_right :
    ¬ BarsRight false portWritable (portConfig 0x1004) 2 0 (portBars 0x1004) := by
  intro hright
  have hplain := (barsRight_iff (portBars_wellFormed (by decide)) (portBars_laidOut (Or.inr rfl))
    rfl).mp hright
  have hbit := (hplain _ List.mem_cons_self).1
  exact absurd hbit (by decide)

end Mv88fxx81.Pci
