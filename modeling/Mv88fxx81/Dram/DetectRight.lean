import Mathlib.Tactic.Ring
import Mv88fxx81.Dram.BankScan

/-!
# Right detections

A detection is right when it goes through without a fault and, where it succeeds, the windows of
the banks that are there lie one behind the other from address 0 on, each as large as its bank, with
the windows of the other banks closed. The contents of the modules, the clock and the registers
before the detection decide whether it is right.
-/

namespace Mv88fxx81.Dram

open CheckedWords Contiguous
open Soc (AddrWin CpuRegs DecRegs ctrlSizeToReg mvCtrlAddrDecToReg mvCtrlRegToAddrDec
  mvDramIfWinGet noSize sizeAlignment)

variable {dimms : Fin 2 → Option Spd} {regs regs' : DramRegs} {busClk forcedCl minCas : BitVec 32}
  {pBankInfo : Fin 4 → DramBankInfo} {memoryType : MemoryType} {data : Spd} {i : Fin 4} {s : Scan}

/-- The windows behind `_mvDramIfConfig`, which writes the buffer of bank 0 to its size register. -/
def mvDramIfConfigWindows (regs : DramRegs) : CpuRegs :=
  { regs.cpu with
    dram := Function.update regs.cpu.dram 0
      ⟨⟨(regs.cpu.dram 0).regs.baseReg, (regs.buf 0 >>> 16).setWidth 16⟩,
        (regs.buf 0).getLsbD 0⟩ }

/-- The bytes of a bank on the bus. A bank of a wider module is spread over several of its words. -/
def capacity (dimms : Fin 2 → Option Spd) (config : BitVec 32) (i : Fin 4) : ℕ :=
  ((bankOf dimms i).map fun content =>
    bankBytes content.1 content.2 / max 1 (widthRatio config content.2)).getD 0

/-- The windows of the banks that are there lie one behind the other. -/
structure LaidOut (dimms : Fin 2 → Option Spd) (config : BitVec 32) (r : CpuRegs) : Prop where
  there : ∀ i, bankOf dimms i ≠ none → ∃ win, r.Opens (.dram i) win ∧
    win.baseLow.toNat = start (capacity dimms config) i ∧ win.bytes = capacity dimms config i
  apart : ∀ i j win win', i ≠ j → r.Opens (.dram i) win → r.Opens (.dram j) win' →
    Disjoint win.addresses win'.addresses
  absent : ∀ i, bankOf dimms i = none → (r.dram i).enable = false

/-- The detection goes through, and where it succeeds the windows are as they should be. -/
def RunRight (dimms : Fin 2 → Option Spd) (busClk forcedCl : BitVec 32) (regs : DramRegs) :
    Prop :=
  Completes (mvDramIfDetect dimms busClk forcedCl regs) ∧
    ∀ regs', mvDramIfDetect dimms busClk forcedCl regs = .ok (.ok, regs') →
      LaidOut dimms regs.sdramConfig (mvDramIfConfigWindows regs')

/-- The parameters of the banks are read without a fault, and the run of the detection is right. -/
structure DetectionRight (dimms : Fin 2 → Option Spd) (busClk forcedCl : BitVec 32)
    (regs : DramRegs) : Prop where
  reads : ∀ bankNum, Completes (mvDramBankInfoGet dimms bankNum)
  run : RunRight dimms busClk forcedCl regs

/-- The values of the controller's registers can be computed. -/
structure Calculable (regs : DramRegs) (pBankInfo : Fin 4 → DramBankInfo)
    (minCas busClk : BitVec 32) : Prop where
  config : sdramConfigRegCalc regs.sdramConfig (pBankInfo 0) busClk ≠ none
  mode : sdramModeRegCalc regs.sdramConfig regs.sdramMode minCas ≠ none
  extMode : sdramExtModeRegCalc regs.sdramConfig pBankInfo ≠ none
  dunitCtrl : dunitCtrlLowRegCalc regs.sdramConfig regs.dunitCtrl (pBankInfo 0) minCas ≠ none
  addrCtrl : sdramAddrCtrlRegCalc regs.addrCtrl (pBankInfo 0) ≠ none
  low : sdramTimeCtrlLowRegCalc regs.sdramConfig pBankInfo minCas busClk ≠ 0xffffffff
  high : sdramTimeCtrlHighRegCalc regs.sdramConfig pBankInfo busClk ≠ 0xffffffff

/-- The record that stands for all banks. -/
def firstInfo (dimms : Fin 2 → Option Spd) : DramBankInfo :=
  representative (recordsOf (bankRecord? dimms) 0) (bankRecord? dimms)

/-- The records the registers are computed from. -/
def detectedInfo (dimms : Fin 2 → Option Spd) : Fin 4 → DramBankInfo :=
  Function.update (recordsOf (bankRecord? dimms)) 0 (firstInfo dimms)

/-- The first bank the scan does not take is safe. Behind the last one the clock is at least 1 kHz
and, where the registers can be computed, the modules are as wide as that of bank 0. -/
structure RunSafe (dimms : Fin 2 → Option Spd) (busClk forcedCl : BitVec 32)
    (regs : DramRegs) : Prop where
  banks : ∀ i : Fin 4, PassedTo dimms regs i → BankSafe dimms regs.sdramConfig i
  clock : PassedTo dimms regs 4 → 1000 ≤ busClk.toNat
  widths : PassedTo dimms regs 4 → ∀ minCas,
    minCasCalc regs.sdramConfig (firstInfo dimms) busClk forcedCl = .ok minCas →
    Calculable regs (detectedInfo dimms) (usedLatency minCas) busClk →
    ∀ i memoryType data, bankOf dimms i = some (memoryType, data) →
      max 1 (widthRatio regs.sdramConfig data) = firstRatio dimms regs.sdramConfig

/-- The parameters of the modules can be computed and, given a clock, the run of the detection is
safe. -/
structure DetectionSafe (dimms : Fin 2 → Option Spd) (busClk forcedCl : BitVec 32)
    (regs : DramRegs) : Prop where
  modules : ∀ dimmNum, ModuleSafe dimms dimmNum
  run : busClk ≠ 0 → RunSafe dimms busClk forcedCl regs

/-! ### Sizes and widths -/

/-- A number has different quotients by different small divisors. -/
theorem div_lt_div {total a b : ℕ} (hpos : 0 < a) (hlt : a < b) (hle : a * b ≤ total) :
    total / b < total / a := by
  have hquotient : a ≤ total / b := (Nat.le_div_iff_mul_le (by omega)).mpr hle
  have hcancel : b * (total / b) ≤ total := Nat.mul_div_le total b
  rw [Nat.lt_iff_add_one_le, Nat.le_div_iff_mul_le hpos]
  calc (total / b + 1) * a = a * (total / b) + a := by ring
    _ ≤ a * (total / b) + total / b := Nat.add_le_add_left hquotient _
    _ = (a + 1) * (total / b) := by ring
    _ ≤ b * (total / b) := Nat.mul_le_mul_right _ hlt
    _ ≤ total := hcancel

theorem div_inj {total a b : ℕ} (ha : 0 < a) (hb : 0 < b) (hle : a * b ≤ total)
    (heq : total / a = total / b) : a = b := by
  rcases Nat.lt_trichotomy a b with hlt | h | hlt
  · have h := div_lt_div ha hlt hle
    omega
  · exact h
  · have hle' : b * a ≤ total := by rwa [Nat.mul_comm]
    have h := div_lt_div hb hlt hle'
    omega

theorem widthRatio_le {config : BitVec 32} : widthRatio config data ≤ 16 := by
  have hbyte := (data 6).isLt
  have hle : 16 ≤ (deviceWidth config).toNat := by
    rcases @deviceWidth_cases config with h | h <;> rw [h] <;> decide
  unfold widthRatio
  calc _ ≤ ((data 6).toNat - (data 6).toNat % 16) / 16 := Nat.div_le_div_left hle (by decide)
    _ ≤ 16 := by omega

theorem capacity_some {config : BitVec 32} (hbank : bankOf dimms i = some (memoryType, data)) :
    capacity dimms config i = bankBytes memoryType data / max 1 (widthRatio config data) := by
  unfold capacity
  rw [hbank]
  rfl

theorem capacity_none {config : BitVec 32} (hbank : bankOf dimms i = none) :
    capacity dimms config i = 0 := by
  unfold capacity
  rw [hbank]
  rfl

/-- The window of a bank is as large as the bank just when its module is as wide as that of bank
0. -/
theorem capacity_eq_iff {config : BitVec 32} {opened : AddrWin}
    (hpass : Passes dimms config opened i)
    (hbank : bankOf dimms i = some (memoryType, data)) :
    capacity dimms config i = windowBytes dimms config i ↔
      max 1 (widthRatio config data) = firstRatio dimms config := by
  have hthere : bankOf dimms i ≠ none := by
    rw [hbank]
    exact Option.some_ne_none _
  obtain ⟨hratio, -⟩ := hpass.1.size memoryType data hbank (hpass.2.supported _ _ hbank)
  have hbytes := bankWindow_bytes hpass hthere
  have hpos := (bankWindow dimms config i).bytes_pos
  rw [hbytes, windowBytes_some hbank] at hpos
  have hlarge : 2 ^ 23 ≤ bankBytes memoryType data := by
    unfold bankBytes at hpos ⊢
    rcases @spdBankSize_cases memoryType data with hzero | ⟨k, hlow, -, hsize⟩
    · rw [hzero] at hpos
      simp at hpos
    · rw [hsize]
      calc 2 ^ 23 = 2 ^ 3 * 2 ^ 20 := by norm_num
        _ ≤ 2 ^ k * 2 ^ 20 := Nat.mul_le_mul_right _ (Nat.pow_le_pow_right (by decide) hlow)
  have hfirst : firstRatio dimms config ≤ 16 := by
    unfold firstRatio
    cases bankOf dimms 0 with
    | none => exact Nat.zero_le _
    | some content => exact widthRatio_le
  have hown : max 1 (widthRatio config data) ≤ 16 := max_le (by decide) widthRatio_le
  rw [capacity_some hbank, windowBytes_some hbank]
  constructor
  · intro heq
    refine div_inj (by omega) (Nat.pos_of_ne_zero hratio) ?_ heq
    calc _ ≤ 16 * 16 := Nat.mul_le_mul hown hfirst
      _ ≤ bankBytes memoryType data := by omega
  · intro heq
    rw [heq]

/-! ### The windows in the registers -/

/-- The window of a bank that is there is read back, and that of a bank that is absent is closed. -/
theorem configured_windows (hstart : StartWindows regs.cpu) (hat : ScanAt dimms regs 4 s)
    (hpassed : PassedTo dimms regs 4) (hcpu : regs'.cpu = s.regs.cpu)
    (hbuf : regs'.buf 0 = s.regs.buf 0) :
    (∀ i, bankOf dimms i ≠ none → (mvDramIfConfigWindows regs').read (.dram i) =
      some ⟨bankWindow dimms regs.sdramConfig i, none, true⟩) ∧
    ∀ i, bankOf dimms i = none → ((mvDramIfConfigWindows regs').dram i).enable = false := by
  have hfirst : bankOf dimms 0 ≠ none := (hpassed 0 (by decide)).2.first rfl
  have hwindow : ∀ i decRegs, bankOf dimms i ≠ none →
      mvCtrlAddrDecToReg (bankWindow dimms regs.sdramConfig i) = some decRegs →
      (mvDramIfConfigWindows regs').dram i = ⟨decRegs, true⟩ →
      (mvDramIfConfigWindows regs').read (.dram i) =
        some ⟨bankWindow dimms regs.sdramConfig i, none, true⟩ := by
    intro i decRegs hthere hregs hdram
    obtain ⟨halign, -⟩ := Soc.wellFormed_iff.mp ((hpassed i i.isLt).2.window hthere)
    obtain ⟨hback, hsize⟩ := Soc.mvCtrlRegToAddrDec_of_written halign hregs
    have hread : (mvDramIfWinGet (mvDramIfConfigWindows regs') i).isSome := by
      rw [isSome_mvDramIfWinGet, hdram, hback]
      exact hsize
    change mvDramIfWinGet (mvDramIfConfigWindows regs') i = _
    rw [mvDramIfWinGet_of_readable hread, hdram, hback]
  have hothers : ∀ i, i ≠ 0 → (mvDramIfConfigWindows regs').dram i = s.regs.cpu.dram i := by
    intro i hne
    rw [← hcpu]
    exact Function.update_of_ne hne _ _
  constructor
  · intro i hthere
    by_cases hzero : i = 0
    · subst hzero
      have hform := (hpassed 0 (by decide)).2.window hthere
      obtain ⟨-, decRegs, hregs⟩ := Soc.wellFormed_iff.mp hform
      refine hwindow 0 decRegs hthere hregs ?_
      unfold mvCtrlAddrDecToReg at hregs
      dsimp only at hregs
      split_ifs at hregs with hsize
      obtain ⟨-, hlt, -⟩ := Soc.ctrlSizeToReg_spec hsize
      have hsizeReg :
          ((ctrlSizeToReg (bankWindow dimms regs.sdramConfig 0).size sizeAlignment <<< 16
          ||| 1) >>> 16 : BitVec 32).setWidth 16 =
          (ctrlSizeToReg (bankWindow dimms regs.sdramConfig 0).size sizeAlignment).setWidth 16 := by
        apply BitVec.eq_of_getLsbD_eq
        intro bit hbit
        simp only [BitVec.getLsbD_setWidth, BitVec.getLsbD_ushiftRight, BitVec.getLsbD_or,
          BitVec.getLsbD_shiftLeft]
        have h1 : 16 + bit < 32 := by omega
        have h2 : ¬ 16 + bit < 16 := by omega
        have h3 : 16 + bit - 16 = bit := by omega
        simp [hbit, h1, h2, h3]
      have henable : (ctrlSizeToReg (bankWindow dimms regs.sdramConfig 0).size sizeAlignment <<< 16
          ||| 1 : BitVec 32).getLsbD 0 = true := by
        simp
      unfold mvDramIfConfigWindows
      dsimp only
      rw [Function.update_self, hbuf, hat.first (by decide), hsizeReg, henable, hcpu, hat.opened,
        hstart.base, ← Option.some.inj hregs, bankWindow_zero]
      rfl
    · obtain ⟨decRegs, hregs, hdram⟩ := hat.taken i i.isLt hzero hthere
      exact hwindow i decRegs hthere hregs ((hothers i hzero).trans hdram)
  · intro i habsent
    have hzero : i ≠ 0 := by
      rintro rfl
      exact hfirst habsent
    rw [hothers i hzero, hat.closed i hzero (Or.inr habsent)]

/-- The windows are as they should be just when each is as large as its bank. -/
theorem laidOut_iff (hstart : StartWindows regs.cpu) (hat : ScanAt dimms regs 4 s)
    (hpassed : PassedTo dimms regs 4) (hcpu : regs'.cpu = s.regs.cpu)
    (hbuf : regs'.buf 0 = s.regs.buf 0) :
    LaidOut dimms regs.sdramConfig (mvDramIfConfigWindows regs') ↔
      ∀ i, bankOf dimms i ≠ none →
        capacity dimms regs.sdramConfig i = windowBytes dimms regs.sdramConfig i := by
  obtain ⟨hread, hclosed⟩ := configured_windows hstart hat hpassed hcpu hbuf
  have hopened := openedWindow_base hstart
  have hopens : ∀ i win, (mvDramIfConfigWindows regs').Opens (.dram i) win →
      bankOf dimms i ≠ none ∧ win = bankWindow dimms regs.sdramConfig i := by
    rintro i win ⟨decWin, hdec, henable, rfl⟩
    by_cases hthere : bankOf dimms i = none
    · change mvDramIfWinGet (mvDramIfConfigWindows regs') i = some decWin at hdec
      rw [mvDramIfWinGet_of_readable (by rw [hdec]; rfl)] at hdec
      rw [← Option.some.inj hdec, hclosed i hthere] at henable
      cases henable
    · rw [hread i hthere] at hdec
      exact ⟨hthere, (congrArg Soc.DecWin.addrWin (Option.some.inj hdec)).symm⟩
  have hbytes : ∀ i, bankOf dimms i ≠ none →
      (bankWindow dimms regs.sdramConfig i).bytes = windowBytes dimms regs.sdramConfig i :=
    fun i hthere => bankWindow_bytes (hpassed i i.isLt) hthere
  constructor
  · intro hlaid i hthere
    obtain ⟨win, hopen, -, hsize⟩ := hlaid.there i hthere
    rw [(hopens i win hopen).2, hbytes i hthere] at hsize
    exact hsize.symm
  · intro hsame
    have hall : capacity dimms regs.sdramConfig = windowBytes dimms regs.sdramConfig := by
      funext i
      by_cases hthere : bankOf dimms i = none
      · rw [capacity_none hthere, windowBytes_none hthere]
      · exact hsame i hthere
    refine ⟨fun i hthere => ?_, fun i j win win' hne hopen hopen' => ?_, hclosed⟩
    · have hlt := start_lt hopened (start_le hopened (Nat.le_of_lt i.isLt) fun k _ =>
        hpassed k k.isLt) (hpassed i i.isLt).2 hthere
      refine ⟨_, ⟨_, hread i hthere, rfl, rfl⟩, ?_, ?_⟩
      · rw [hall]
        exact bankWindow_base hlt
      · rw [hall]
        exact hbytes i hthere
    · obtain ⟨hthere, rfl⟩ := hopens i win hopen
      obtain ⟨hthere', rfl⟩ := hopens j win' hopen'
      rw [bankWindow_addresses hopened (fun k _ => hpassed k k.isLt) hthere,
        bankWindow_addresses hopened (fun k _ => hpassed k k.isLt) hthere']
      exact block_disjoint _ hne

/-! ### The values of the controller's registers -/

section Store

variable {j : Fin 11} {value : BitVec 32}

theorem store_sdramConfig : (regs.store j value).sdramConfig = regs.sdramConfig := rfl

theorem store_sdramMode : (regs.store j value).sdramMode = regs.sdramMode := rfl

theorem store_dunitCtrl : (regs.store j value).dunitCtrl = regs.dunitCtrl := rfl

theorem store_addrCtrl : (regs.store j value).addrCtrl = regs.addrCtrl := rfl

end Store

/-- The windows and the buffer of bank 0 are the same. -/
def Untouched (regs regs' : DramRegs) : Prop := regs'.cpu = regs.cpu ∧ regs'.buf 0 = regs.buf 0

theorem Untouched.store (h : Untouched regs regs') {j : Fin 11} (hne : j ≠ 0) (value : BitVec 32) :
    Untouched regs (regs'.store j value) :=
  ⟨h.1, (Function.update_of_ne hne.symm _ _).trans h.2⟩

theorem Untouched.odt (h : Untouched regs regs') :
    Untouched regs (sdramDDr2OdtConfig regs' pBankInfo) := by
  unfold sdramDDr2OdtConfig
  cases odtSettings? (populateBanks pBankInfo) with
  | none => exact h
  | some odt => exact ((h.store (by decide) _).store (by decide) _).store (by decide) _

theorem checked_ne_none {value : BitVec 32} : checked value ≠ none ↔ value ≠ 0xffffffff := by
  unfold checked
  split_ifs with hvalue
  · exact ⟨fun h => absurd rfl h, fun h => absurd hvalue h⟩
  · exact ⟨fun _ => hvalue, fun _ => Option.some_ne_none _⟩

/-- The registers are prepared just when a value can be computed and the rest can be prepared. -/
theorem prepare_spec {before : DramRegs} {j : Fin 11} {value? : Option (BitVec 32)}
    {next : DramRegs → MvStatus × DramRegs} {rest : Prop} (hne : j ≠ 0)
    (hregs : Untouched before regs)
    (hnext : ∀ value, Untouched before (regs.store j value) →
      ((next (regs.store j value)).1 = .ok ↔ rest) ∧
      Untouched before (next (regs.store j value)).2) :
    ((prepare regs j value? next).1 = .ok ↔ value? ≠ none ∧ rest) ∧
      Untouched before (prepare regs j value? next).2 := by
  unfold prepare
  cases value? with
  | none => exact ⟨⟨fun h => (by cases h), fun h => absurd rfl h.1⟩, hregs⟩
  | some value =>
    obtain ⟨hok, hkept⟩ := hnext value (hregs.store hne value)
    refine ⟨hok.trans ⟨fun h => ⟨Option.some_ne_none _, h⟩, fun h => h.2⟩, hkept⟩

/-- The registers are prepared just when each value can be computed, and the windows are left
alone. -/
theorem prepareRegs_spec (regs : DramRegs) (pBankInfo : Fin 4 → DramBankInfo)
    (minCas busClk : BitVec 32) :
    ((prepareRegs regs pBankInfo minCas busClk).1 = .ok ↔
      Calculable regs pBankInfo minCas busClk) ∧
    Untouched regs (prepareRegs regs pBankInfo minCas busClk).2 := by
  have hchain : ((prepareRegs regs pBankInfo minCas busClk).1 = .ok ↔
      sdramConfigRegCalc regs.sdramConfig (pBankInfo 0) busClk ≠ none ∧
      sdramModeRegCalc regs.sdramConfig regs.sdramMode minCas ≠ none ∧
      sdramExtModeRegCalc regs.sdramConfig pBankInfo ≠ none ∧
      dunitCtrlLowRegCalc regs.sdramConfig regs.dunitCtrl (pBankInfo 0) minCas ≠ none ∧
      sdramAddrCtrlRegCalc regs.addrCtrl (pBankInfo 0) ≠ none ∧
      checked (sdramTimeCtrlLowRegCalc regs.sdramConfig pBankInfo minCas busClk) ≠ none ∧
      checked (sdramTimeCtrlHighRegCalc regs.sdramConfig pBankInfo busClk) ≠ none ∧ True) ∧
      Untouched regs (prepareRegs regs pBankInfo minCas busClk).2 := by
    unfold prepareRegs
    refine prepare_spec (by decide) ⟨rfl, rfl⟩ fun _ hregs => ?_
    simp only [store_sdramConfig, store_sdramMode]
    refine prepare_spec (by decide) hregs fun _ hregs => ?_
    simp only [store_sdramConfig]
    refine prepare_spec (by decide) hregs fun _ hregs => ?_
    simp only [store_sdramConfig, store_dunitCtrl]
    refine prepare_spec (by decide) hregs fun _ hregs => ?_
    simp only [store_addrCtrl]
    refine prepare_spec (by decide) hregs fun _ hregs => ?_
    simp only [store_sdramConfig]
    refine prepare_spec (by decide) hregs fun _ hregs => ?_
    simp only [store_sdramConfig]
    refine prepare_spec (by decide) hregs fun _ hregs => ?_
    refine ⟨⟨fun _ => trivial, fun _ => rfl⟩, ?_⟩
    dsimp only
    split_ifs
    · exact hregs.odt
    · exact hregs
  refine ⟨hchain.1.trans ⟨?_, ?_⟩, hchain.2⟩
  · rintro ⟨hconfig, hmode, hext, hdunit, haddr, hlow, hhigh, -⟩
    exact ⟨hconfig, hmode, hext, hdunit, haddr, checked_ne_none.mp hlow, checked_ne_none.mp hhigh⟩
  · rintro ⟨hconfig, hmode, hext, hdunit, haddr, hlow, hhigh⟩
    exact ⟨hconfig, hmode, hext, hdunit, haddr, checked_ne_none.mpr hlow,
      checked_ne_none.mpr hhigh, trivial⟩

/-! ### The whole detection -/

/-- The cycle time of a clock can be computed when the clock is at least 1 kHz. -/
theorem minCasCalc_completes {sdramConfigReg : BitVec 32} {bank : DramBankInfo} :
    Completes (minCasCalc sdramConfigReg bank busClk forcedCl) ↔ 1000 ≤ busClk.toNat := by
  have hclock : busClk / 1000 ≠ 0 ↔ 1000 ≤ busClk.toNat := by
    have hdiv : (busClk / 1000).toNat = busClk.toNat / 1000 := BitVec.toNat_udiv
    constructor
    · intro hne
      by_contra hlt
      exact hne (BitVec.eq_of_toNat_eq (by rw [hdiv]; exact Nat.div_eq_of_lt (by omega)))
    · intro hle hzero
      rw [hzero] at hdiv
      change 0 = busClk.toNat / 1000 at hdiv
      omega
  unfold minCasCalc
  rw [completes_bind]
  constructor
  · rintro ⟨_, hdiv, -⟩
    exact hclock.mp (div_eq_ok.mp hdiv).1
  · intro hle
    refine ⟨_, div_eq_ok.mpr ⟨hclock.mpr hle, rfl⟩, ?_⟩
    split_ifs
    · exact completes_pure _
    · exact completes_pure _

/-- The detection behind a scan that has taken all banks. -/
theorem mvDramIfDetect_of_scan (hclk : busClk ≠ 0) (hat : ScanAt dimms regs 4 s)
    (hscan : scanBanks dimms [0, 1, 2, 3]
      ⟨fun _ => none, 0, { regs with cpu := closeBanks regs.cpu }⟩ = .ok (.ok, s)) :
    mvDramIfDetect dimms busClk forcedCl regs =
      minCasCalc regs.sdramConfig (firstInfo dimms) busClk forcedCl >>= fun minCas =>
        pure (prepareRegs s.regs (detectedInfo dimms) (usedLatency minCas) busClk) := by
  have hbanks : s.banks = bankRecord? dimms := by
    funext k
    rw [hat.banks k, if_pos k.isLt]
  unfold mvDramIfDetect
  rw [if_neg hclk, hscan, ok_bind]
  dsimp only
  rw [if_neg (not_not.mpr rfl), hbanks, hat.sdramConfig]
  rfl

/-- What can be computed depends on the registers of the controller, which the scan leaves alone. -/
theorem calculable_scan (hat : ScanAt dimms regs 4 s) :
    Calculable s.regs pBankInfo minCas busClk ↔ Calculable regs pBankInfo minCas busClk := by
  constructor
  · rintro ⟨h1, h2, h3, h4, h5, h6, h7⟩
    rw [hat.sdramConfig] at h1 h2 h3 h4 h6 h7
    rw [hat.sdramMode] at h2
    rw [hat.dunitCtrl] at h4
    rw [hat.addrCtrl] at h5
    exact ⟨h1, h2, h3, h4, h5, h6, h7⟩
  · rintro ⟨h1, h2, h3, h4, h5, h6, h7⟩
    rw [← hat.sdramConfig] at h1 h2 h3 h4 h6 h7
    rw [← hat.sdramMode] at h2
    rw [← hat.dunitCtrl] at h4
    rw [← hat.addrCtrl] at h5
    exact ⟨h1, h2, h3, h4, h5, h6, h7⟩

/-- A detection whose scan takes all banks is right when the clock can be used and, where the
registers can be computed, the windows are as large as the banks. -/
theorem runRight_of_scan (hstart : StartWindows regs.cpu) (hclk : busClk ≠ 0)
    (hpassed : PassedTo dimms regs 4) :
    RunRight dimms busClk forcedCl regs ↔ 1000 ≤ busClk.toNat ∧ ∀ minCas,
      minCasCalc regs.sdramConfig (firstInfo dimms) busClk forcedCl = .ok minCas →
      Calculable regs (detectedInfo dimms) (usedLatency minCas) busClk →
      ∀ i, bankOf dimms i ≠ none →
        capacity dimms regs.sdramConfig i = windowBytes dimms regs.sdramConfig i := by
  obtain ⟨s, hscan, hat⟩ := (scanBanks_scanOf hstart).done hpassed
  unfold RunRight
  rw [mvDramIfDetect_of_scan hclk hat hscan, completes_bind, ← minCasCalc_completes]
  constructor
  · rintro ⟨⟨minCas, hcas, -⟩, hlaid⟩
    refine ⟨⟨minCas, hcas⟩, fun minCas' hcas' hcalc => ?_⟩
    obtain ⟨hok, hcpu, hbuf⟩ := prepareRegs_spec s.regs (detectedInfo dimms) (usedLatency minCas')
      busClk
    rw [← laidOut_iff hstart hat hpassed hcpu hbuf]
    refine hlaid _ ?_
    rw [hcas', ok_bind]
    exact congrArg Except.ok (Prod.ext (hok.mpr ((calculable_scan hat).mpr hcalc)) rfl)
  · rintro ⟨⟨minCas, hcas⟩, hsame⟩
    refine ⟨⟨minCas, hcas, completes_pure _⟩, fun regs' hdone => ?_⟩
    rw [hcas, ok_bind] at hdone
    have hprepared := Except.ok.inj hdone
    obtain ⟨hok, hcpu, hbuf⟩ := prepareRegs_spec s.regs (detectedInfo dimms) (usedLatency minCas)
      busClk
    rw [hprepared] at hok hcpu hbuf
    exact (laidOut_iff hstart hat hpassed hcpu hbuf).mpr
      (hsame minCas hcas ((calculable_scan hat).mp (hok.mp rfl)))

/-- A detection that stops at a bank is right when the bank is safe. -/
theorem runRight_of_stop (hstart : StartWindows regs.cpu) (hclk : busClk ≠ 0)
    (hpassed : PassedTo dimms regs i)
    (hstop : ¬ Passes dimms regs.sdramConfig (openedWindow regs.cpu) i) :
    RunRight dimms busClk forcedCl regs ↔ BankSafe dimms regs.sdramConfig i := by
  have hscan := @scanBanks_scanOf dimms regs hstart
  constructor
  · rintro ⟨hcompletes, -⟩
    by_contra hunsafe
    obtain ⟨fault, herror⟩ := hscan.fault i hpassed hunsafe
    unfold mvDramIfDetect at hcompletes
    rw [if_neg hclk, herror] at hcompletes
    exact not_completes_error hcompletes
  · intro hsafe
    obtain ⟨status, s, hstatus, hok⟩ := hscan.refused i hpassed hsafe fun h => hstop ⟨hsafe, h⟩
    have hdetect : mvDramIfDetect dimms busClk forcedCl regs = .ok (status, s.regs) := by
      unfold mvDramIfDetect
      rw [if_neg hclk, hok, ok_bind]
      dsimp only
      rw [if_pos hstatus]
      rfl
    refine ⟨⟨_, hdetect⟩, fun regs' hdone => ?_⟩
    rw [hdetect] at hdone
    exact absurd (congrArg Prod.fst (Except.ok.inj hdone)) hstatus

/-- There is a first bank that the scan does not go on behind, unless all are taken. -/
theorem exists_stop (hnot : ¬ PassedTo dimms regs 4) :
    ∃ i : Fin 4, PassedTo dimms regs i ∧
      ¬ Passes dimms regs.sdramConfig (openedWindow regs.cpu) i := by
  by_contra hall
  push Not at hall
  have hpassed : ∀ n ≤ 4, PassedTo dimms regs n := by
    intro n
    induction n with
    | zero => exact fun _ _ hk => absurd hk (Nat.not_lt_zero _)
    | succ n ih =>
      intro hn
      have hbefore := ih (by omega)
      exact PassedTo.succ (i := ⟨n, by omega⟩) hbefore (hall ⟨n, by omega⟩ hbefore)
  exact hnot (hpassed 4 le_rfl)

/-- The run of the detection is right just when it is safe. -/
theorem runRight_iff (hstart : StartWindows regs.cpu) :
    RunRight dimms busClk forcedCl regs ↔
      (busClk ≠ 0 → RunSafe dimms busClk forcedCl regs) := by
  by_cases hclk : busClk = 0
  · have hdetect : mvDramIfDetect dimms busClk forcedCl regs = .ok (.error, regs) := by
      unfold mvDramIfDetect
      rw [if_pos hclk]
      rfl
    refine ⟨fun _ h => absurd hclk h, fun _ => ⟨⟨_, hdetect⟩, fun regs' hdone => ?_⟩⟩
    rw [hdetect] at hdone
    cases hdone
  · by_cases hpassed : PassedTo dimms regs 4
    · have hwidth : ∀ i, bankOf dimms i ≠ none →
          (capacity dimms regs.sdramConfig i = windowBytes dimms regs.sdramConfig i ↔
            ∀ memoryType data, bankOf dimms i = some (memoryType, data) →
              max 1 (widthRatio regs.sdramConfig data) = firstRatio dimms regs.sdramConfig) := by
        intro i hthere
        obtain ⟨⟨memoryType, data⟩, hbank⟩ := Option.ne_none_iff_exists'.mp hthere
        rw [capacity_eq_iff (hpassed i i.isLt) hbank]
        constructor
        · intro heq _ _ h
          rw [hbank] at h
          cases h
          exact heq
        · exact fun h => h _ _ hbank
      rw [runRight_of_scan hstart hclk hpassed]
      constructor
      · rintro ⟨hclock, hsame⟩ -
        refine ⟨fun i _ => (hpassed i i.isLt).1, fun _ => hclock, ?_⟩
        intro _ minCas hcas hcalc i memoryType data hbank
        have hthere : bankOf dimms i ≠ none := by
          rw [hbank]
          exact Option.some_ne_none _
        exact (hwidth i hthere).mp (hsame minCas hcas hcalc i hthere) _ _ hbank
      · intro hsafe
        obtain ⟨-, hclock, hwidths⟩ := hsafe hclk
        exact ⟨hclock hpassed, fun minCas hcas hcalc i hthere =>
          (hwidth i hthere).mpr (hwidths hpassed minCas hcas hcalc i)⟩
    · obtain ⟨i, hbefore, hstop⟩ := exists_stop hpassed
      rw [runRight_of_stop hstart hclk hbefore hstop]
      constructor
      · intro hsafe _
        refine ⟨fun j hj => ?_, fun h => absurd h hpassed, fun h => absurd h hpassed⟩
        by_contra hunsafe
        have heq : i = j := hbefore.unique hj hstop fun h => hunsafe h.1
        rw [heq] at hsafe
        exact hunsafe hsafe
      · exact fun hsafe => (hsafe hclk).banks i hbefore

/-- The parameters of the banks are read without a fault just when those of the modules can be
computed. -/
theorem reads_iff : (∀ bankNum, Completes (mvDramBankInfoGet dimms bankNum)) ↔
    ∀ dimmNum, ModuleSafe dimms dimmNum := by
  have hread : ∀ bankNum, Completes (mvDramBankInfoGet dimms bankNum) ↔
      ModuleSafe dimms (dimmOf bankNum) := by
    intro bankNum
    constructor
    · rintro ⟨_, hget⟩
      exact (mvDramBankInfoGet_eq_ok.mp hget).1
    · exact fun hmodule => ⟨_, mvDramBankInfoGet_eq_ok.mpr ⟨hmodule, rfl⟩⟩
  constructor
  · intro hreads dimmNum
    match dimmNum with
    | 0 => exact (hread 0).mp (hreads 0)
    | 1 => exact (hread 2).mp (hreads 2)
  · exact fun hmodules bankNum => (hread bankNum).mpr (hmodules _)

/-- The detection of the memory is right just when it is safe: the parameters of the modules can be
computed, and so can the window of the first bank that is not taken; where all banks are taken, the
clock is at least 1 kHz and the modules are as wide as that of bank 0. -/
theorem mvDramIfDetect_right_iff (hstart : StartWindows regs.cpu) :
    DetectionRight dimms busClk forcedCl regs ↔ DetectionSafe dimms busClk forcedCl regs := by
  constructor
  · rintro ⟨hreads, hrun⟩
    exact ⟨reads_iff.mp hreads, (runRight_iff hstart).mp hrun⟩
  · rintro ⟨hmodules, hrun⟩
    exact ⟨reads_iff.mpr hmodules, (runRight_iff hstart).mpr hrun⟩

/-- A DDR2 module of one bank, of devices of 8 bits with 1024 columns. -/
def oneBankModule (rows width banks density : BitVec 8) (i : Fin 128) : BitVec 8 :=
  match i.val with
  | 2 => 8
  | 3 => rows
  | 4 => 10
  | 6 => width
  | 12 => 0x82
  | 13 => 8
  | 17 => banks
  | 18 => 0x38
  | 31 => density
  | _ => 0

/-- A board with one module. -/
def oneModule (data : Spd) (dimmNum : Fin 2) : Option Spd := if dimmNum = 0 then some data else none

/-- The registers behind the first initialisation: bank 0 has a window of 64 MB, and the other
windows are closed. -/
def bootRegs : DramRegs where
  cpu := {
    dram := fun cs => if cs = 0 then ⟨⟨0, 0x03ff⟩, true⟩ else ⟨⟨0, 0⟩, false⟩
    ahb := fun _ => ⟨⟨0, 0⟩, 0, 0, false⟩
    interRegs := 0xf100 }
  sdramConfig := 0x10000
  sdramMode := 0x32
  dunitCtrl := 0
  addrCtrl := 0
  buf := fun _ => 0

theorem bootRegs_startWindows : StartWindows bootRegs.cpu := ⟨by decide, rfl, rfl⟩

/-- A module of two banks of 128 MB on a bus of 32 bits. -/
def smallModule : Fin 2 → Option Spd :=
  oneModule (Function.update (oneBankModule 13 32 4 0x20) 5 1)

/-- A module of 4 GB. -/
def largeModule : Fin 2 → Option Spd := oneModule (oneBankModule 16 64 8 0x04)

section OneModule

variable {data data' : Spd} {memoryType : MemoryType} {dimmNum : Fin 2}

theorem readable_oneModule (hddr2 : data 2 = 8) :
    readable (oneModule data) dimmNum = if dimmNum = 0 then some (.ddr2, data) else none := by
  unfold readable oneModule
  split_ifs
  · rw [Option.bind_some, hddr2]
    rfl
  · rfl

theorem readable_only (hddr2 : data 2 = 8)
    (hread : readable (oneModule data) dimmNum = some (memoryType, data')) :
    memoryType = .ddr2 ∧ data' = data := by
  rw [readable_oneModule hddr2] at hread
  split_ifs at hread
  cases hread
  exact ⟨rfl, rfl⟩

theorem bankOf_oneModule (hddr2 : data 2 = 8) :
    bankOf (oneModule data) 0 = some (.ddr2, data) := by
  unfold bankOf
  rw [readable_oneModule hddr2, show dimmOf 0 = 0 from rfl, if_pos rfl]
  exact if_neg fun h => absurd h.2 (by decide)

theorem bankOf_only (hddr2 : data 2 = 8)
    (hbank : bankOf (oneModule data) i = some (memoryType, data')) :
    memoryType = .ddr2 ∧ data' = data := by
  unfold bankOf at hbank
  split at hbank
  · rename_i hread
    split_ifs at hbank
    cases hbank
    exact readable_only hddr2 hread
  · cases hbank

end OneModule

theorem smallModule_detectionRight : DetectionRight smallModule 200000000 0 bootRegs := by
  have hmodules : ∀ dimmNum, ModuleSafe smallModule dimmNum := by
    intro dimmNum memoryType data hread
    obtain ⟨rfl, rfl⟩ := readable_only rfl hread
    exact ⟨by decide, by decide, by decide, by decide⟩
  have hratio : firstRatio smallModule 0x10000 = 1 :=
    (firstRatio_some (bankOf_oneModule rfl)).trans (by decide)
  refine (mvDramIfDetect_right_iff bootRegs_startWindows).mpr
    ⟨hmodules, fun _ => ⟨?_, ?_, ?_⟩⟩
  · intro i _
    refine ⟨hmodules _, fun memoryType data hbank _ => ?_⟩
    obtain ⟨rfl, rfl⟩ := bankOf_only rfl hbank
    exact ⟨by rw [show bootRegs.sdramConfig = 0x10000 from rfl, hratio]; decide, by decide⟩
  · exact fun _ => by decide
  · intro _ minCas _ _ i memoryType data hbank
    obtain ⟨rfl, rfl⟩ := bankOf_only rfl hbank
    rw [show bootRegs.sdramConfig = 0x10000 from rfl, hratio]
    decide

/-- The size of a bank of 4 GB does not fit a word. -/
theorem largeModule_not_detectionRight : ¬ DetectionRight largeModule 200000000 0 bootRegs := by
  have hpassed : PassedTo largeModule bootRegs (0 : Fin 4) :=
    fun _ hk => absurd hk (Nat.not_lt_zero _)
  have hunsafe : ¬ BankSafe largeModule bootRegs.sdramConfig 0 := by
    intro hsafe
    have hbank : bankOf largeModule 0 = some (.ddr2, oneBankModule 16 64 8 0x04) :=
      bankOf_oneModule rfl
    have hsupported : Supported largeModule .ddr2 (oneBankModule 16 64 8 0x04) := by
      refine ⟨by decide, ?_⟩
      unfold recordsOf
      rw [bankRecord?_some hbank]
      rfl
    have hsize := hsafe.size _ _ hbank hsupported
    exact absurd hsize.2 (by decide)
  exact fun hright => hunsafe ((runRight_of_stop bootRegs_startWindows (by decide) hpassed
    fun h => hunsafe h.1).mp hright.run)

end Mv88fxx81.Dram
