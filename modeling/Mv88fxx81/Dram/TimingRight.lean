import Mathlib.Algebra.Order.Floor.Div
import Mathlib.Data.Finset.Lattice.Fold
import Mathlib.Data.Fintype.Basic
import Mathlib.Order.Lattice.Nat
import Mv88fxx81.Dram.Timing
import Mv88fxx81.Lib.PackedFields

/-!
# What the timing registers hold

Each timing field shall hold the least number of clock cycles that covers the largest requirement
of the banks, and the refresh field an interval no longer than the shortest one required. Two slips
keep the functions from it. The scan for the time from a read to a precharge starts each turn from
the time from a write to a read. And the refresh field is cut down to its two upper bits, while its
other bits keep what the register held.
-/

namespace Mv88fxx81.Dram

open PackedFields

/-! ### Requirements -/

/-- A number of cycles of a clock in MHz that lasts for a time in ns. -/
def Enough (mhz ns n : ℕ) : Prop := mhz * ns ≤ 1000 * n

/-- The least number of cycles. -/
def cyclesNeeded (mhz ns : ℕ) : ℕ := mhz * ns ⌈/⌉ 1000

theorem cyclesNeeded_le_iff {mhz ns n : ℕ} : cyclesNeeded mhz ns ≤ n ↔ Enough mhz ns n :=
  ceilDiv_le_iff_le_mul (by decide)

theorem cyclesNeeded_isLeast (mhz ns : ℕ) : IsLeast {n | Enough mhz ns n} (cyclesNeeded mhz ns) :=
  ⟨cyclesNeeded_le_iff.mp le_rfl, fun _ hn => cyclesNeeded_le_iff.mpr hn⟩

theorem isLeast_iff {mhz ns n : ℕ} : IsLeast {n | Enough mhz ns n} n ↔ n = cyclesNeeded mhz ns :=
  ⟨fun h => h.unique (cyclesNeeded_isLeast mhz ns), fun h => h ▸ cyclesNeeded_isLeast mhz ns⟩

theorem cyclesNeeded_mono {mhz ns ns' : ℕ} (hle : ns ≤ ns') :
    cyclesNeeded mhz ns ≤ cyclesNeeded mhz ns' := by
  rw [cyclesNeeded_le_iff]
  have hmul : mhz * ns ≤ mhz * ns' := Nat.mul_le_mul_left _ hle
  exact hmul.trans (cyclesNeeded_isLeast mhz ns').1

theorem cyclesNeeded_max {mhz a b : ℕ} :
    cyclesNeeded mhz (max a b) = max (cyclesNeeded mhz a) (cyclesNeeded mhz b) :=
  (show Monotone (cyclesNeeded mhz) from fun _ _ hle => cyclesNeeded_mono hle).map_max

/-- A count of cycles that can be written into a field of the given width, less one. -/
def CountFits (mhz ns width : ℕ) : Prop :=
  1 ≤ cyclesNeeded mhz ns ∧ cyclesNeeded mhz ns ≤ 2 ^ width

instance {mhz ns width : ℕ} : Decidable (CountFits mhz ns width) :=
  inferInstanceAs (Decidable (_ ∧ _))

/-- The largest of the banks' values. -/
def largest (banks : Fin 4 → Option DramBankInfo) (value : DramBankInfo → BitVec 32) : ℕ :=
  Finset.univ.sup fun bankNum => (value (recordsOf banks bankNum)).toNat

/-- The timing values of a bank are bytes. -/
structure DramBankInfo.Bytes (bank : DramBankInfo) : Prop where
  precharge : bank.minRowPrechargeTime.toNat < 256
  rowToRow : bank.minRowActiveToRowActive.toNat < 256
  rasToCas : bank.minRasToCasDelay.toNat < 256
  rasPulse : bank.minRasPulseWidth.toNat < 256
  writeRecovery : bank.minWriteRecoveryTime.toNat < 256
  writeToRead : bank.minWriteToReadCmdDelay.toNat < 256
  readToPrecharge : bank.minReadToPrechCmdDelay.toNat < 256
  refreshCommand : bank.minRefreshToActiveCmd.toNat < 256

/-- The largest requirements of the banks, in ns. Some come in quarters, whose part below a
nanosecond is dropped. -/
structure Requirements where
  tRp : ℕ
  tRrd : ℕ
  tRcd : ℕ
  tRas : ℕ
  tWr : ℕ
  tWtr : ℕ
  tRtp : ℕ
  tRfc : ℕ

/-- The requirements of some banks. -/
def requirements (banks : Fin 4 → Option DramBankInfo) : Requirements where
  tRp := largest banks DramBankInfo.minRowPrechargeTime / 4
  tRrd := largest banks DramBankInfo.minRowActiveToRowActive / 4
  tRcd := largest banks DramBankInfo.minRasToCasDelay / 4
  tRas := largest banks DramBankInfo.minRasPulseWidth
  tWr := largest banks DramBankInfo.minWriteRecoveryTime / 4
  tWtr := largest banks DramBankInfo.minWriteToReadCmdDelay / 4
  tRtp := largest banks DramBankInfo.minReadToPrechCmdDelay / 4
  tRfc := largest banks DramBankInfo.minRefreshToActiveCmd

/-- Every requirement can be written into its field. That of a refresh command has five bits. -/
structure Requirements.Fit (req : Requirements) (mhz : ℕ) : Prop where
  tRp : CountFits mhz req.tRp 4
  tRrd : CountFits mhz req.tRrd 4
  tRcd : CountFits mhz req.tRcd 4
  tRas : CountFits mhz req.tRas 4
  tWr : CountFits mhz req.tWr 4
  tWtr : CountFits mhz req.tWtr 4
  tRtp : CountFits mhz req.tRtp 4
  tRfc : CountFits mhz req.tRfc 5

/-- The cycles a field of a timing register stands for. -/
def cyclesAt (word : BitVec 32) (offs width : ℕ) : ℕ := field word offs width + 1

/-- The low register holds what is required, and nothing else. -/
structure LowRight (mhz : ℕ) (req : Requirements) (low : BitVec 32) : Prop where
  tRcd : IsLeast {n | Enough mhz req.tRcd n} (cyclesAt low 4 4)
  tRp : IsLeast {n | Enough mhz req.tRp n} (cyclesAt low 8 4)
  tWr : IsLeast {n | Enough mhz req.tWr n} (cyclesAt low 12 4)
  tWtr : IsLeast {n | Enough mhz req.tWtr n} (cyclesAt low 16 4)
  tRas : IsLeast {n | Enough mhz req.tRas n} (cyclesAt low 20 4)
  tRrd : IsLeast {n | Enough mhz req.tRrd n} (cyclesAt low 24 4)
  tRtp : IsLeast {n | Enough mhz req.tRtp n} (cyclesAt low 28 4)
  unused : field low 0 4 = 0

/-- The high register holds what is required, the constants, and nothing else. -/
structure HighRight (mhz : ℕ) (req : Requirements) (high : BitVec 32) : Prop where
  tRfc : IsLeast {n | Enough mhz req.tRfc n} (field high 0 4 + 16 * field high 8 1 + 1)
  tR2r : cyclesAt high 4 2 = 1
  tR2ww2r : cyclesAt high 6 2 = 1
  tW2w : field high 10 1 = 1
  unused : field high 9 1 = 0 ∧ field high 11 21 = 0

/-- The configuration word without its refresh field. -/
def otherConfig (sdramConfigReg : BitVec 32) (bank : DramBankInfo) (width : BitVec 32) :
    BitVec 32 :=
  let sdramConfig := if bank.registeredAddrAndControlInputs
    then sdramConfigReg ||| (1 : BitVec 32) <<< 17 else sdramConfigReg
  sdramConfig &&& ~~~((3 : BitVec 32) <<< 20) ||| width ||| sdramConfigDv

/-- The refresh field stands for an interval, not longer than any bank requires, and the other bits
are as computed. -/
structure RefreshRight (mhz : ℕ) (sdramConfigReg : BitVec 32)
    (banks : Fin 4 → Option DramBankInfo) (config : BitVec 32) : Prop where
  pos : 0 < field config 0 14
  shortest : ∀ bankNum bank ns, banks bankNum = some bank → refreshInterval? bank = some ns →
    1000 * field config 0 14 ≤ mhz * ns.toNat
  others : ∀ width, deviceField? (recordsOf banks 0) = some width → ∀ bit, 14 ≤ bit →
    config.getLsbD bit = (otherConfig sdramConfigReg (recordsOf banks 0) width).getLsbD bit

/-- The registers for some banks. -/
structure RegistersRight (mhz : ℕ) (sdramConfigReg minCas busClk : BitVec 32)
    (banks : Fin 4 → Option DramBankInfo) : Prop where
  low : LowRight mhz (requirements banks)
    (sdramTimeCtrlLowRegCalc sdramConfigReg (recordsOf banks) minCas busClk)
  high : HighRight mhz (requirements banks)
    (sdramTimeCtrlHighRegCalc sdramConfigReg (recordsOf banks) busClk)
  refresh : ∀ config, sdramConfigRegCalc sdramConfigReg (recordsOf banks 0) busClk = some config →
    RefreshRight mhz sdramConfigReg banks config

/-! ### Clock cycles -/

theorem mvMax_toNat (a b : BitVec 32) : (mvMax a b).toNat = max a.toNat b.toNat := by
  unfold mvMax
  by_cases hlt : b < a
  · rw [if_pos hlt, Nat.max_eq_left (Nat.le_of_lt (BitVec.lt_def.mp hlt))]
  · rw [if_neg hlt, Nat.max_eq_right (Nat.not_lt.mp (fun h => hlt (BitVec.lt_def.mpr h)))]

theorem foldl_mvMax_toNat {ι : Type} [DecidableEq ι] (value : ι → BitVec 32) (l : List ι)
    (start : BitVec 32) :
    (l.foldl (fun timing i => mvMax timing (value i)) start).toNat =
      max start.toNat (l.toFinset.sup fun i => (value i).toNat) := by
  induction l generalizing start with
  | nil => simp
  | cons i l ih =>
    rw [List.foldl_cons, ih, mvMax_toNat, List.toFinset_cons, Finset.sup_insert, max_assoc]

/-- The scan of the banks finds the largest value. -/
theorem scanMax_toNat (banks : Fin 4 → Option DramBankInfo) (value : DramBankInfo → BitVec 32) :
    (scanMax (recordsOf banks) value).toNat = largest banks value := by
  unfold scanMax largest
  rw [foldl_mvMax_toNat (fun bankNum => value (recordsOf banks bankNum)), List.toFinset_finRange]
  simp

/-- The cycles the code counts are the least number. -/
theorem clockCycles_toNat {busClk time : BitVec 32} (hsmall : busClk.toNat * time.toNat < 2 ^ 32) :
    (clockCycles busClk time).toNat = cyclesNeeded busClk.toNat time.toNat := by
  have hmul : (busClk * time).toNat = busClk.toNat * time.toNat := by
    rw [BitVec.toNat_mul, Nat.mod_eq_of_lt hsmall]
  have hdiv : (busClk * time / 1000).toNat = busClk.toNat * time.toNat / 1000 := by
    rw [BitVec.toNat_udiv, hmul]
    rfl
  have hmod : (busClk * time % 1000).toNat = busClk.toNat * time.toNat % 1000 := by
    rw [BitVec.toNat_umod, hmul]
    rfl
  unfold clockCycles cyclesNeeded
  rw [Nat.ceilDiv_eq_add_pred_div]
  generalize busClk.toNat * time.toNat = work at hdiv hmod hsmall ⊢
  by_cases hzero : busClk * time % 1000 = 0
  · rw [if_neg (not_not_intro hzero), BitVec.toNat_add, hdiv]
    rw [hzero] at hmod
    change 0 = work % 1000 at hmod
    change (work / 1000 + 0) % 2 ^ 32 = _
    omega
  · have hne : work % 1000 ≠ 0 := fun h => hzero (BitVec.eq_of_toNat_eq (hmod.trans h))
    rw [if_pos hzero, BitVec.toNat_add, hdiv]
    change (work / 1000 + 1) % 2 ^ 32 = _
    omega

/-- The counts in the registers, for a clock of whole MHz and requirements of a byte. -/
theorem clockCycles_of_byte {mhz ns : ℕ} {busClk time : BitVec 32}
    (hclk : busClk.toNat = mhz * 1000000) (htime : time.toNat = ns) (hns : ns < 256) :
    (clockCycles (busClk / 1000000) time).toNat = cyclesNeeded mhz ns := by
  have hmhz : (busClk / 1000000).toNat = mhz := by
    rw [BitVec.toNat_udiv, hclk]
    exact Nat.mul_div_cancel _ (by decide)
  have hsmall : (busClk / 1000000).toNat * time.toNat < 2 ^ 32 := by
    have hbound : mhz < 4295 := by
      have hlt := busClk.isLt
      omega
    rw [hmhz, htime]
    calc mhz * ns ≤ 4295 * 256 := Nat.mul_le_mul (by omega) (by omega)
      _ < 2 ^ 32 := by decide
  rw [clockCycles_toNat hsmall, hmhz, htime]

theorem ushiftRight_two_toNat (time : BitVec 32) : (time >>> 2).toNat = time.toNat / 4 := by
  rw [BitVec.toNat_ushiftRight, Nat.shiftRight_eq_div_pow]

/-- A count less one, as it is written into a field. -/
theorem sub_one_toNat {t : BitVec 32} (hpos : 1 ≤ t.toNat) : (t - 1).toNat = t.toNat - 1 := by
  have hlt := t.isLt
  rw [BitVec.toNat_sub]
  change (2 ^ 32 - 1 + t.toNat) % 2 ^ 32 = t.toNat - 1
  omega

section Requirements

variable {banks : Fin 4 → Option DramBankInfo}

theorem largest_lt {value : DramBankInfo → BitVec 32}
    (hbytes : ∀ bankNum, (value (recordsOf banks bankNum)).toNat < 256) :
    largest banks value < 256 :=
  (Finset.sup_lt_iff (by decide)).mpr fun bankNum _ => hbytes bankNum

theorem le_largest (value : DramBankInfo → BitVec 32) (bankNum : Fin 4) :
    (value (recordsOf banks bankNum)).toNat ≤ largest banks value :=
  @Finset.le_sup _ _ _ _ _ (fun bankNum => (value (recordsOf banks bankNum)).toNat) _
    (Finset.mem_univ bankNum)

variable {busClk : BitVec 32} {mhz : ℕ}

/-- The cycles of a parameter in quarters of a nanosecond. -/
theorem quarters_cycles (hclk : busClk.toNat = mhz * 1000000) {value : DramBankInfo → BitVec 32}
    (hbytes : ∀ bankNum, (value (recordsOf banks bankNum)).toNat < 256) :
    (clockCycles (busClk / 1000000) (scanMax (recordsOf banks) value >>> 2)).toNat =
      cyclesNeeded mhz (largest banks value / 4) := by
  have hlt := largest_lt hbytes
  refine clockCycles_of_byte hclk ?_ (by omega)
  rw [ushiftRight_two_toNat, scanMax_toNat]

/-- The cycles of a parameter in nanoseconds. -/
theorem nanoseconds_cycles (hclk : busClk.toNat = mhz * 1000000) {value : DramBankInfo → BitVec 32}
    (hbytes : ∀ bankNum, (value (recordsOf banks bankNum)).toNat < 256) :
    (clockCycles (busClk / 1000000) (scanMax (recordsOf banks) value)).toNat =
      cyclesNeeded mhz (largest banks value) :=
  clockCycles_of_byte hclk (scanMax_toNat banks value) (largest_lt hbytes)

end Requirements

/-! ### The scan of DDR2 banks -/

section Scan

variable (pBankInfo : Fin 4 → DramBankInfo) (l : List (Fin 4)) (start : WriteTimings)

theorem scan_tWr :
    (l.foldl (fun (timings : WriteTimings) i => timings.scan (pBankInfo i)) start).tWr =
      l.foldl (fun timing i => mvMax timing (pBankInfo i).minWriteRecoveryTime) start.tWr := by
  induction l generalizing start with
  | nil => rfl
  | cons i l ih => exact ih (start.scan (pBankInfo i))

theorem scan_tWtr :
    (l.foldl (fun (timings : WriteTimings) i => timings.scan (pBankInfo i)) start).tWtr =
      l.foldl (fun timing i => mvMax timing (pBankInfo i).minWriteToReadCmdDelay) start.tWtr := by
  induction l generalizing start with
  | nil => rfl
  | cons i l ih => exact ih (start.scan (pBankInfo i))

/-- Of the times from a read to a precharge only that of the last bank counts, and the times from a
write to a read count too. -/
theorem scan_tRtp (last : Fin 4) :
    ((l ++ [last]).foldl (fun (timings : WriteTimings) i =>
      timings.scan (pBankInfo i)) start).tRtp =
      mvMax ((l ++ [last]).foldl (fun timing i => mvMax timing (pBankInfo i).minWriteToReadCmdDelay)
        start.tWtr) (pBankInfo last).minReadToPrechCmdDelay := by
  rw [← scan_tWtr, List.foldl_append]
  rfl

variable (busClk : BitVec 32)

theorem ddr2Timings_tWr : (ddr2Timings pBankInfo busClk).tWr =
    clockCycles busClk (scanMax pBankInfo DramBankInfo.minWriteRecoveryTime >>> 2) := by
  unfold ddr2Timings scanMax
  rw [← scan_tWr pBankInfo _ ⟨0, 0, 0⟩]

theorem ddr2Timings_tWtr : (ddr2Timings pBankInfo busClk).tWtr =
    clockCycles busClk (scanMax pBankInfo DramBankInfo.minWriteToReadCmdDelay >>> 2) := by
  unfold ddr2Timings scanMax
  rw [← scan_tWtr pBankInfo _ ⟨0, 0, 0⟩]

theorem ddr2Timings_tRtp : (ddr2Timings pBankInfo busClk).tRtp =
    clockCycles busClk (mvMax (scanMax pBankInfo DramBankInfo.minWriteToReadCmdDelay)
      (pBankInfo 3).minReadToPrechCmdDelay >>> 2) := by
  have hscan := scan_tRtp pBankInfo [0, 1, 2] ⟨0, 0, 0⟩ 3
  have hbanks : List.finRange 4 = [0, 1, 2] ++ [3] := by decide
  unfold ddr2Timings scanMax
  rw [hbanks]
  dsimp only
  rw [hscan]

end Scan

/-! ### The low register -/

/-- The fields of the low register. -/
def lowFields (tRp tRrd tRcd tRas : BitVec 32) (timings : WriteTimings) : List (Packed 32) :=
  [⟨tRp - 1, 8, 4⟩, ⟨tRrd - 1, 24, 4⟩, ⟨tRcd - 1, 4, 4⟩, ⟨tRas - 1, 20, 4⟩,
    ⟨timings.tWr - 1, 12, 4⟩, ⟨timings.tWtr - 1, 16, 4⟩, ⟨timings.tRtp - 1, 28, 4⟩]

theorem lowFields_apart {tRp tRrd tRcd tRas : BitVec 32} {timings : WriteTimings} :
    (lowFields tRp tRrd tRcd tRas timings).Pairwise
      fun f g => Apart f.offs f.width g.offs g.width := by
  simp [lowFields, Apart]

/-- A count that fits a field of four bits. -/
def FourBits (t : BitVec 32) : Prop := 1 ≤ t.toNat ∧ t.toNat ≤ 16

theorem FourBits.fits {t : BitVec 32} (ht : FourBits t) (offs : ℕ) (hoffs : offs ≤ 28) :
    Packed.Fits ⟨t - 1, offs, 4⟩ := by
  obtain ⟨hpos, hle⟩ := ht
  refine ⟨?_, ?_⟩
  · change (t - 1).toNat < 2 ^ 4
    rw [sub_one_toNat hpos]
    omega
  · change offs + 4 ≤ 32
    omega

/-- Each count is read back from the low register. -/
theorem cyclesAt_lowFields {tRp tRrd tRcd tRas t : BitVec 32} {timings : WriteTimings} {offs : ℕ}
    (hfits : ∀ f ∈ lowFields tRp tRrd tRcd tRas timings, f.Fits) (ht : 1 ≤ t.toNat)
    (hmem : ⟨t - 1, offs, 4⟩ ∈ lowFields tRp tRrd tRcd tRas timings) :
    cyclesAt (pack (lowFields tRp tRrd tRcd tRas timings)) offs 4 = t.toNat := by
  have hread := field_pack_of_mem hfits lowFields_apart hmem
  unfold cyclesAt
  rw [hread, sub_one_toNat ht]
  omega

theorem sdramTimeCtrlLowRegCalc_ddr2 {sdramConfigReg minCas busClk : BitVec 32}
    {pBankInfo : Fin 4 → DramBankInfo} (hddr2 : isDdr2 sdramConfigReg = true) :
    sdramTimeCtrlLowRegCalc sdramConfigReg pBankInfo minCas busClk =
      pack (lowFields
        (clockCycles (busClk / 1000000) (scanMax pBankInfo DramBankInfo.minRowPrechargeTime >>> 2))
        (clockCycles (busClk / 1000000)
          (scanMax pBankInfo DramBankInfo.minRowActiveToRowActive >>> 2))
        (clockCycles (busClk / 1000000) (scanMax pBankInfo DramBankInfo.minRasToCasDelay >>> 2))
        (clockCycles (busClk / 1000000) (scanMax pBankInfo DramBankInfo.minRasPulseWidth))
        (ddr2Timings pBankInfo (busClk / 1000000))) := by
  unfold sdramTimeCtrlLowRegCalc
  dsimp only
  rw [if_pos hddr2]
  simp only [lowFields, pack, BitVec.or_assoc]
  rw [show (0 : BitVec 32) = 0#32 from rfl, BitVec.or_zero]

/-- The time the code writes for that from a read to a precharge, in ns. -/
def writtenTRtp (banks : Fin 4 → Option DramBankInfo) : ℕ :=
  max (largest banks DramBankInfo.minWriteToReadCmdDelay)
    (recordsOf banks 3).minReadToPrechCmdDelay.toNat / 4

theorem max_div_four (a b : ℕ) : max a b / 4 = max (a / 4) (b / 4) :=
  (show Monotone (· / 4) from fun _ _ hle => Nat.div_le_div_right hle).map_max

section Registers

variable {banks : Fin 4 → Option DramBankInfo} {sdramConfigReg minCas busClk : BitVec 32} {mhz : ℕ}

theorem cyclesNeeded_writtenTRtp : cyclesNeeded mhz (writtenTRtp banks) =
    max (cyclesNeeded mhz (requirements banks).tWtr)
      (cyclesNeeded mhz ((recordsOf banks 3).minReadToPrechCmdDelay.toNat / 4)) := by
  unfold writtenTRtp
  rw [max_div_four, cyclesNeeded_max]
  rfl

theorem last_le_tRtp : cyclesNeeded mhz ((recordsOf banks 3).minReadToPrechCmdDelay.toNat / 4) ≤
    cyclesNeeded mhz (requirements banks).tRtp :=
  cyclesNeeded_mono
    (Nat.div_le_div_right (@le_largest banks DramBankInfo.minReadToPrechCmdDelay 3))

theorem countFits_writtenTRtp (hfit : (requirements banks).Fit mhz) :
    CountFits mhz (writtenTRtp banks) 4 := by
  have hlast := @last_le_tRtp banks mhz
  have htWtr := hfit.tWtr
  have htRtp := hfit.tRtp
  unfold CountFits at htWtr htRtp ⊢
  rw [cyclesNeeded_writtenTRtp]
  omega

/-- What the low register holds for DDR2 banks. -/
theorem low_counts (hddr2 : isDdr2 sdramConfigReg = true) (hclk : busClk.toNat = mhz * 1000000)
    (hbytes : ∀ bankNum, (recordsOf banks bankNum).Bytes) (hfit : (requirements banks).Fit mhz)
    {low : BitVec 32}
    (hlow : low = sdramTimeCtrlLowRegCalc sdramConfigReg (recordsOf banks) minCas busClk) :
    (cyclesAt low 4 4 = cyclesNeeded mhz (requirements banks).tRcd ∧
      cyclesAt low 8 4 = cyclesNeeded mhz (requirements banks).tRp ∧
      cyclesAt low 12 4 = cyclesNeeded mhz (requirements banks).tWr ∧
      cyclesAt low 16 4 = cyclesNeeded mhz (requirements banks).tWtr) ∧
    cyclesAt low 20 4 = cyclesNeeded mhz (requirements banks).tRas ∧
      cyclesAt low 24 4 = cyclesNeeded mhz (requirements banks).tRrd ∧
      cyclesAt low 28 4 = cyclesNeeded mhz (writtenTRtp banks) ∧ field low 0 4 = 0 := by
  rw [sdramTimeCtrlLowRegCalc_ddr2 hddr2] at hlow
  have htRp := quarters_cycles hclk fun i => (hbytes i).precharge
  have htRrd := quarters_cycles hclk fun i => (hbytes i).rowToRow
  have htRcd := quarters_cycles hclk fun i => (hbytes i).rasToCas
  have htRas := nanoseconds_cycles hclk fun i => (hbytes i).rasPulse
  have htWr := quarters_cycles hclk fun i => (hbytes i).writeRecovery
  have htWtr := quarters_cycles hclk fun i => (hbytes i).writeToRead
  have htRtp : (clockCycles (busClk / 1000000)
      (mvMax (scanMax (recordsOf banks) DramBankInfo.minWriteToReadCmdDelay)
        (recordsOf banks 3).minReadToPrechCmdDelay >>> 2)).toNat =
      cyclesNeeded mhz (writtenTRtp banks) := by
    have hlargest := @largest_lt banks _ fun i => (hbytes i).writeToRead
    have hlast := (hbytes 3).readToPrecharge
    refine clockCycles_of_byte hclk ?_ ?_
    · rw [ushiftRight_two_toNat, mvMax_toNat, scanMax_toNat]
      rfl
    · unfold writtenTRtp
      omega
  rw [← ddr2Timings_tRtp] at htRtp
  rw [← ddr2Timings_tWr] at htWr
  rw [← ddr2Timings_tWtr] at htWtr
  have hfour : ∀ {t : BitVec 32} {ns : ℕ}, t.toNat = cyclesNeeded mhz ns → CountFits mhz ns 4 →
      FourBits t := fun heq hcount => ⟨heq ▸ hcount.1, heq ▸ hcount.2⟩
  have h₁ := hfour htRp hfit.tRp
  have h₂ := hfour htRrd hfit.tRrd
  have h₃ := hfour htRcd hfit.tRcd
  have h₄ := hfour htRas hfit.tRas
  have h₅ := hfour htWr hfit.tWr
  have h₆ := hfour htWtr hfit.tWtr
  have h₇ := hfour htRtp (countFits_writtenTRtp hfit)
  have hfits := List.forall_mem_cons.mpr ⟨h₁.fits 8 (by decide),
    List.forall_mem_cons.mpr ⟨h₂.fits 24 (by decide),
    List.forall_mem_cons.mpr ⟨h₃.fits 4 (by decide),
    List.forall_mem_cons.mpr ⟨h₄.fits 20 (by decide),
    List.forall_mem_cons.mpr ⟨h₅.fits 12 (by decide),
    List.forall_mem_cons.mpr ⟨h₆.fits 16 (by decide),
    List.forall_mem_cons.mpr ⟨h₇.fits 28 (by decide), List.forall_mem_nil _⟩⟩⟩⟩⟩⟩⟩
  subst hlow
  refine ⟨⟨?_, ?_, ?_, ?_⟩, ?_, ?_, ?_, ?_⟩
  · exact (cyclesAt_lowFields hfits h₃.1 (by simp [lowFields])).trans htRcd
  · exact (cyclesAt_lowFields hfits h₁.1 (by simp [lowFields])).trans htRp
  · exact (cyclesAt_lowFields hfits h₅.1 (by simp [lowFields])).trans htWr
  · exact (cyclesAt_lowFields hfits h₆.1 (by simp [lowFields])).trans htWtr
  · exact (cyclesAt_lowFields hfits h₄.1 (by simp [lowFields])).trans htRas
  · exact (cyclesAt_lowFields hfits h₂.1 (by simp [lowFields])).trans htRrd
  · exact (cyclesAt_lowFields hfits h₇.1 (by simp [lowFields])).trans htRtp
  · exact field_pack_apart hfits (by simp [lowFields, Apart])

/-- The low register is right when the time written for that from a read to a precharge takes as
many cycles as the one required. -/
theorem lowRight_iff (hddr2 : isDdr2 sdramConfigReg = true) (hclk : busClk.toNat = mhz * 1000000)
    (hbytes : ∀ bankNum, (recordsOf banks bankNum).Bytes) (hfit : (requirements banks).Fit mhz) :
    LowRight mhz (requirements banks)
      (sdramTimeCtrlLowRegCalc sdramConfigReg (recordsOf banks) minCas busClk) ↔
    cyclesNeeded mhz (writtenTRtp banks) = cyclesNeeded mhz (requirements banks).tRtp := by
  obtain ⟨⟨htRcd, htRp, htWr, htWtr⟩, htRas, htRrd, htRtp, hunused⟩ :=
    @low_counts banks sdramConfigReg minCas busClk mhz hddr2 hclk hbytes hfit _ rfl
  constructor
  · intro h
    rw [← htRtp]
    exact isLeast_iff.mp h.tRtp
  · intro h
    exact ⟨isLeast_iff.mpr htRcd, isLeast_iff.mpr htRp, isLeast_iff.mpr htWr,
      isLeast_iff.mpr htWtr, isLeast_iff.mpr htRas, isLeast_iff.mpr htRrd,
      isLeast_iff.mpr (htRtp.trans h), hunused⟩

/-! ### The high register -/

/-- The fields of the high register. -/
def highFields (tRfc : BitVec 32) : List (Packed 32) :=
  [⟨(tRfc - 1) &&& 0xf, 0, 4⟩, ⟨1 - 1, 4, 2⟩, ⟨1 - 1, 6, 2⟩, ⟨(tRfc - 1) >>> 4, 8, 1⟩, ⟨1, 10, 1⟩]

theorem sdramTimeCtrlHighRegCalc_ddr2 {pBankInfo : Fin 4 → DramBankInfo}
    (hddr2 : isDdr2 sdramConfigReg = true) :
    sdramTimeCtrlHighRegCalc sdramConfigReg pBankInfo busClk =
      pack (highFields
        (clockCycles (busClk / 1000000)
          (scanMax pBankInfo DramBankInfo.minRefreshToActiveCmd))) := by
  unfold sdramTimeCtrlHighRegCalc refreshCommandTime
  dsimp only
  rw [if_pos hddr2]
  simp only [highFields, pack, BitVec.or_assoc]
  rw [show (0 : BitVec 32) = 0#32 from rfl, BitVec.or_zero]

/-- The high register is right. -/
theorem highRight (hddr2 : isDdr2 sdramConfigReg = true) (hclk : busClk.toNat = mhz * 1000000)
    (hbytes : ∀ bankNum, (recordsOf banks bankNum).Bytes) (hfit : (requirements banks).Fit mhz) :
    HighRight mhz (requirements banks)
      (sdramTimeCtrlHighRegCalc sdramConfigReg (recordsOf banks) busClk) := by
  rw [sdramTimeCtrlHighRegCalc_ddr2 hddr2]
  have htRfc := nanoseconds_cycles hclk fun i => (hbytes i).refreshCommand
  generalize clockCycles (busClk / 1000000)
    (scanMax (recordsOf banks) DramBankInfo.minRefreshToActiveCmd) = tRfc at htRfc ⊢
  have hcount : CountFits mhz (requirements banks).tRfc 5 := hfit.tRfc
  change tRfc.toNat = cyclesNeeded mhz (requirements banks).tRfc at htRfc
  have hpos : 1 ≤ tRfc.toNat := htRfc ▸ hcount.1
  have hle : tRfc.toNat ≤ 32 := htRfc ▸ hcount.2
  have hlow : ((tRfc - 1) &&& 0xf).toNat = (tRfc.toNat - 1) % 16 := by
    rw [BitVec.toNat_and, sub_one_toNat hpos]
    exact Nat.and_two_pow_sub_one_eq_mod _ 4
  have hext : ((tRfc - 1) >>> 4).toNat = (tRfc.toNat - 1) / 16 := by
    rw [BitVec.toNat_ushiftRight, sub_one_toNat hpos, Nat.shiftRight_eq_div_pow]
  have hfits : ∀ f ∈ highFields tRfc, f.Fits := by
    have hlow' : ((tRfc - 1) &&& 0xf).toNat < 2 ^ 4 := by omega
    have hext' : ((tRfc - 1) >>> 4).toNat < 2 ^ 1 := by omega
    exact List.forall_mem_cons.mpr ⟨⟨hlow', (show 0 + 4 ≤ 32 by decide)⟩,
      List.forall_mem_cons.mpr ⟨⟨by decide, by decide⟩,
      List.forall_mem_cons.mpr ⟨⟨by decide, by decide⟩,
      List.forall_mem_cons.mpr ⟨⟨hext', (show 8 + 1 ≤ 32 by decide)⟩,
      List.forall_mem_cons.mpr ⟨⟨by decide, by decide⟩, List.forall_mem_nil _⟩⟩⟩⟩⟩
  have hpairs : (highFields tRfc).Pairwise fun f g => Apart f.offs f.width g.offs g.width := by
    simp [highFields, Apart]
  have hread := fun f hmem => @field_pack_of_mem 32 f (highFields tRfc) hfits hpairs hmem
  have h₁ := hread ⟨(tRfc - 1) &&& 0xf, 0, 4⟩ (by simp [highFields])
  have h₂ := hread ⟨1 - 1, 4, 2⟩ (by simp [highFields])
  have h₃ := hread ⟨1 - 1, 6, 2⟩ (by simp [highFields])
  have h₄ := hread ⟨(tRfc - 1) >>> 4, 8, 1⟩ (by simp [highFields])
  have h₅ := hread ⟨1, 10, 1⟩ (by simp [highFields])
  dsimp only at h₁ h₂ h₃ h₄ h₅
  refine ⟨isLeast_iff.mpr ?_, ?_, ?_, h₅, ?_, ?_⟩
  · rw [h₁, h₄, hlow, hext, ← htRfc]
    omega
  · unfold cyclesAt
    rw [h₂]
    rfl
  · unfold cyclesAt
    rw [h₃]
    rfl
  · exact field_pack_apart hfits (by simp [highFields, Apart])
  · exact field_pack_apart hfits (by simp [highFields, Apart])

/-! ### The refresh field -/

/-- The clock cycles of a refresh interval, as the code limits them. -/
def refreshCycles (busClk interval : BitVec 32) : BitVec 32 :=
  if sdramRefreshMax < busClk / 1000000 * interval / 1000 then sdramRefreshMax
  else busClk / 1000000 * interval / 1000

theorem refreshInterval_lt {bank : DramBankInfo} {interval : BitVec 32}
    (hsome : refreshInterval? bank = some interval) : interval.toNat ≤ 125000 := by
  unfold refreshInterval? at hsome
  dsimp only at hsome
  split_ifs at hsome
  all_goals
    rw [← Option.some.inj hsome]
    decide

theorem refreshCycles_toNat (hclk : busClk.toNat = mhz * 1000000) {interval : BitVec 32}
    (hle : interval.toNat ≤ 125000) :
    (refreshCycles busClk interval).toNat = min (mhz * interval.toNat / 1000) 0x3000 := by
  have hmhz : (busClk / 1000000).toNat = mhz := by
    rw [BitVec.toNat_udiv, hclk]
    exact Nat.mul_div_cancel _ (by decide)
  have hsmall : mhz * interval.toNat < 2 ^ 32 := by
    have hlt := busClk.isLt
    calc mhz * interval.toNat ≤ 4295 * 125000 := Nat.mul_le_mul (by omega) hle
      _ < 2 ^ 32 := by decide
  have hdiv : (busClk / 1000000 * interval / 1000).toNat = mhz * interval.toNat / 1000 := by
    rw [BitVec.toNat_udiv, BitVec.toNat_mul, hmhz, Nat.mod_eq_of_lt hsmall]
    rfl
  have hmax : sdramRefreshMax.toNat = 0x3000 := rfl
  unfold refreshCycles
  by_cases hlt : sdramRefreshMax < busClk / 1000000 * interval / 1000
  · have hlt' := BitVec.lt_def.mp hlt
    rw [hdiv] at hlt'
    rw [hmax] at hlt'
    rw [if_pos hlt, hmax]
    omega
  · have hlt' := Nat.not_lt.mp fun h => hlt (BitVec.lt_def.mpr h)
    rw [hdiv, hmax] at hlt'
    rw [if_neg hlt, hdiv]
    omega

theorem sdramConfigRegCalc_eq_some {bank : DramBankInfo} {config : BitVec 32} :
    sdramConfigRegCalc sdramConfigReg bank busClk = some config ↔
      ∃ interval width, refreshInterval? bank = some interval ∧ deviceField? bank = some width ∧
        otherConfig (sdramConfigReg &&& ~~~sdramRefreshMax |||
          refreshCycles busClk interval &&& sdramRefreshMax) bank width = config := by
  unfold sdramConfigRegCalc
  dsimp only
  cases hinterval : refreshInterval? bank with
  | none => simp
  | some interval =>
    cases hwidth : deviceField? bank with
    | none => simp
    | some width => simp [otherConfig, refreshCycles]

/-- The bits of the limit of the refresh field: the two upper ones of the field. -/
theorem getLsbD_sdramRefreshMax (bit : ℕ) :
    sdramRefreshMax.getLsbD bit = decide (12 ≤ bit ∧ bit < 14) := by
  by_cases hlt : bit < 32
  · have hall : ∀ i < 32, sdramRefreshMax.getLsbD i = decide (12 ≤ i ∧ i < 14) := by decide
    exact hall bit hlt
  · rw [BitVec.getLsbD_of_ge _ _ (Nat.not_lt.mp hlt)]
    exact (decide_eq_false (by omega)).symm

/-- The other settings leave the refresh field alone. -/
theorem getLsbD_otherConfig {bank : DramBankInfo} {width : BitVec 32}
    (hwidth : deviceField? bank = some width) {word : BitVec 32} {bit : ℕ} (hbit : bit < 14) :
    (otherConfig word bank width).getLsbD bit = word.getLsbD bit := by
  have hdv : ∀ i < 14, sdramConfigDv.getLsbD i = false := by decide
  have hregistered : ∀ i < 14, ((1 : BitVec 32) <<< 17).getLsbD i = false := by decide
  have hmask : ∀ i < 14, ((3 : BitVec 32) <<< 20).getLsbD i = false := by decide
  have h8 : ∀ i < 14, ((2 : BitVec 32) <<< 20).getLsbD i = false := by decide
  have h16 : ∀ i < 14, ((1 : BitVec 32) <<< 20).getLsbD i = false := by decide
  have hfield : width.getLsbD bit = false := by
    unfold deviceField? at hwidth
    split_ifs at hwidth
    · rw [← Option.some.inj hwidth, h8 bit hbit]
    · rw [← Option.some.inj hwidth, h16 bit hbit]
  have hlt : bit < 32 := by omega
  have hpick : (if bank.registeredAddrAndControlInputs then word ||| (1 : BitVec 32) <<< 17
      else word).getLsbD bit = word.getLsbD bit := by
    split_ifs
    · rw [BitVec.getLsbD_or, hregistered bit hbit, Bool.or_false]
    · rfl
  unfold otherConfig
  dsimp only
  rw [BitVec.getLsbD_or, BitVec.getLsbD_or, BitVec.getLsbD_and, BitVec.getLsbD_not, hpick,
    hmask bit hbit, hfield, hdv bit hbit]
  simp [hlt]

/-- The twelve lower bits of the refresh field, which the register keeps. -/
def keptCycles (sdramConfigReg : BitVec 32) : ℕ := sdramConfigReg.toNat % 4096

/-- The cycles of an interval that its two upper bits stand for. -/
def upperCycles (mhz : ℕ) (interval : BitVec 32) : ℕ :=
  4096 * (min (mhz * interval.toNat / 1000) 0x3000 / 4096)

theorem refreshWord_low {word cycles : BitVec 32} {bit : ℕ} (hbit : bit < 12) :
    (word &&& ~~~sdramRefreshMax ||| cycles &&& sdramRefreshMax).getLsbD bit =
      word.getLsbD bit := by
  have hlt : bit < 32 := by omega
  have hmask : sdramRefreshMax.getLsbD bit = false := by
    rw [getLsbD_sdramRefreshMax]
    exact decide_eq_false (by omega)
  rw [BitVec.getLsbD_or, BitVec.getLsbD_and, BitVec.getLsbD_and, BitVec.getLsbD_not, hmask]
  simp [hlt]

theorem refreshWord_high {word cycles : BitVec 32} {bit : ℕ} (hlow : 12 ≤ bit) (hhigh : bit < 14) :
    (word &&& ~~~sdramRefreshMax ||| cycles &&& sdramRefreshMax).getLsbD bit =
      cycles.getLsbD bit := by
  have hmask : sdramRefreshMax.getLsbD bit = true := by
    rw [getLsbD_sdramRefreshMax]
    exact decide_eq_true ⟨hlow, hhigh⟩
  rw [BitVec.getLsbD_or, BitVec.getLsbD_and, BitVec.getLsbD_and, BitVec.getLsbD_not, hmask]
  simp

theorem refreshWord_others {word cycles : BitVec 32} {bit : ℕ} (hbit : 14 ≤ bit) :
    (word &&& ~~~sdramRefreshMax ||| cycles &&& sdramRefreshMax).getLsbD bit =
      word.getLsbD bit := by
  have hmask : sdramRefreshMax.getLsbD bit = false := by
    rw [getLsbD_sdramRefreshMax]
    exact decide_eq_false (by omega)
  rw [BitVec.getLsbD_or, BitVec.getLsbD_and, BitVec.getLsbD_and, BitVec.getLsbD_not, hmask]
  by_cases hlt : bit < 32
  · simp [hlt]
  · rw [BitVec.getLsbD_of_ge _ _ (Nat.not_lt.mp hlt)]
    simp

/-- What `sdramConfigRegCalc` leaves in the refresh field. -/
theorem field_refresh (hclk : busClk.toNat = mhz * 1000000) {bank : DramBankInfo}
    {interval width : BitVec 32} (hinterval : refreshInterval? bank = some interval)
    (hwidth : deviceField? bank = some width) :
    field (otherConfig (sdramConfigReg &&& ~~~sdramRefreshMax |||
      refreshCycles busClk interval &&& sdramRefreshMax) bank width) 0 14 =
    keptCycles sdramConfigReg + upperCycles mhz interval := by
  have hcycles := refreshCycles_toNat hclk (refreshInterval_lt hinterval)
  have hlow := @field_congr 32 _ sdramConfigReg 0 12 fun i _ hi =>
    (getLsbD_otherConfig hwidth (by omega : i < 14)).trans
      (@refreshWord_low sdramConfigReg (refreshCycles busClk interval) i (by omega))
  have hhigh := @field_congr 32 _ (refreshCycles busClk interval) 12 2 fun i hi hi' =>
    (getLsbD_otherConfig hwidth (by omega : i < 14)).trans
      (@refreshWord_high sdramConfigReg (refreshCycles busClk interval) i hi (by omega))
  have hsplit := field_split (otherConfig (sdramConfigReg &&& ~~~sdramRefreshMax |||
    refreshCycles busClk interval &&& sdramRefreshMax) bank width) 0 12 2
  rw [Nat.zero_add, hlow, hhigh, field_eq sdramConfigReg,
    field_eq (refreshCycles busClk interval), hcycles] at hsplit
  rw [show 14 = 12 + 2 from rfl, hsplit]
  unfold keptCycles upperCycles
  omega

/-- The other bits are as computed. -/
theorem others_refresh {bank : DramBankInfo} {cycles width : BitVec 32} {bit : ℕ}
    (hbit : 14 ≤ bit) :
    (otherConfig (sdramConfigReg &&& ~~~sdramRefreshMax ||| cycles &&& sdramRefreshMax) bank
      width).getLsbD bit = (otherConfig sdramConfigReg bank width).getLsbD bit := by
  have hword := @refreshWord_others sdramConfigReg cycles bit hbit
  unfold otherConfig
  dsimp only
  by_cases hreg : bank.registeredAddrAndControlInputs = true
  · rw [if_pos hreg, if_pos hreg]
    simp only [BitVec.getLsbD_or, BitVec.getLsbD_and] at hword ⊢
    rw [hword]
  · rw [if_neg hreg, if_neg hreg]
    simp only [BitVec.getLsbD_or, BitVec.getLsbD_and] at hword ⊢
    rw [hword]

/-! ### When the registers are right -/

/-- The slips do no harm. The time from a write to a read takes no more cycles than that from a
read to a precharge, and it or the last bank's time takes as many. And the bits that the refresh
field keeps make up for those that it loses. -/
structure SlipsHarmless (mhz : ℕ) (sdramConfigReg : BitVec 32)
    (banks : Fin 4 → Option DramBankInfo) : Prop where
  writeToRead : cyclesNeeded mhz (requirements banks).tWtr ≤
    cyclesNeeded mhz (requirements banks).tRtp
  reached : cyclesNeeded mhz (requirements banks).tWtr =
      cyclesNeeded mhz (requirements banks).tRtp ∨
    cyclesNeeded mhz ((recordsOf banks 3).minReadToPrechCmdDelay.toNat / 4) =
      cyclesNeeded mhz (requirements banks).tRtp
  refresh : ∀ interval, refreshInterval? (recordsOf banks 0) = some interval →
    deviceField? (recordsOf banks 0) ≠ none →
    0 < keptCycles sdramConfigReg + upperCycles mhz interval ∧
    ∀ bankNum bank ns, banks bankNum = some bank → refreshInterval? bank = some ns →
      keptCycles sdramConfigReg + upperCycles mhz interval ≤ mhz * ns.toNat / 1000

/-- The refresh field is right just when the bits it keeps make up for those it loses. -/
theorem refreshRight_iff (hclk : busClk.toNat = mhz * 1000000) {interval width : BitVec 32}
    (hinterval : refreshInterval? (recordsOf banks 0) = some interval)
    (hwidth : deviceField? (recordsOf banks 0) = some width) :
    RefreshRight mhz sdramConfigReg banks (otherConfig (sdramConfigReg &&& ~~~sdramRefreshMax |||
      refreshCycles busClk interval &&& sdramRefreshMax) (recordsOf banks 0) width) ↔
    0 < keptCycles sdramConfigReg + upperCycles mhz interval ∧
    ∀ bankNum bank ns, banks bankNum = some bank → refreshInterval? bank = some ns →
      keptCycles sdramConfigReg + upperCycles mhz interval ≤ mhz * ns.toNat / 1000 := by
  have hfield := @field_refresh sdramConfigReg busClk mhz hclk _ _ _ hinterval hwidth
  constructor
  · rintro ⟨hpos, hshortest, -⟩
    rw [hfield] at hpos hshortest
    refine ⟨hpos, fun bankNum bank ns hbank hns => ?_⟩
    have hle := hshortest bankNum bank ns hbank hns
    omega
  · rintro ⟨hpos, hshortest⟩
    refine ⟨hfield ▸ hpos, fun bankNum bank ns hbank hns => ?_, fun width' hwidth' bit hbit => ?_⟩
    · have hle := hshortest bankNum bank ns hbank hns
      rw [hfield]
      omega
    · have hsame : width = width' := Option.some.inj (hwidth.symm.trans hwidth')
      rw [← hsame]
      exact others_refresh hbit

/-- The timing registers are right for DDR2 banks just when the slips do no harm. -/
theorem registersRight_iff (hddr2 : isDdr2 sdramConfigReg = true)
    (hclk : busClk.toNat = mhz * 1000000) (hbytes : ∀ bankNum, (recordsOf banks bankNum).Bytes)
    (hfit : (requirements banks).Fit mhz) :
    RegistersRight mhz sdramConfigReg minCas busClk banks ↔
      SlipsHarmless mhz sdramConfigReg banks := by
  have hlow := @lowRight_iff banks sdramConfigReg minCas busClk mhz hddr2 hclk hbytes hfit
  rw [cyclesNeeded_writtenTRtp] at hlow
  have hlast := @last_le_tRtp banks mhz
  constructor
  · intro h
    have heq := hlow.mp h.low
    refine ⟨by omega, by omega, fun interval hinterval hdevice => ?_⟩
    obtain ⟨width, hwidth⟩ := Option.ne_none_iff_exists'.mp hdevice
    exact (refreshRight_iff hclk hinterval hwidth).mp
      (h.refresh _ (sdramConfigRegCalc_eq_some.mpr ⟨interval, width, hinterval, hwidth, rfl⟩))
  · rintro ⟨hle, hreached, hrefresh⟩
    refine ⟨hlow.mpr ?_, highRight hddr2 hclk hbytes hfit, fun config hconfig => ?_⟩
    · rcases hreached with heq | heq
      · omega
      · omega
    · obtain ⟨interval, width, hinterval, hwidth, rfl⟩ := sdramConfigRegCalc_eq_some.mp hconfig
      exact (refreshRight_iff hclk hinterval hwidth).mpr
        (hrefresh interval hinterval (Option.ne_none_iff_exists'.mpr ⟨width, hwidth⟩))

end Registers

/-- A bank of devices with eight data lines, refreshed every 7.8 us. -/
def smallBank (tRtp : BitVec 32) : DramBankInfo where
  memoryType := .ddr2
  sdramWidth := 8
  refreshInterval := 2
  minRowPrechargeTime := 60
  minRowActiveToRowActive := 30
  minRasToCasDelay := 60
  minRasPulseWidth := 45
  minWriteRecoveryTime := 60
  minWriteToReadCmdDelay := 30
  minReadToPrechCmdDelay := tRtp
  minRefreshToActiveCmd := 105
  size := 128

/-- Banks that differ in the time from a read to a precharge. -/
def smallBanks (tRtps : List (BitVec 32)) (bankNum : Fin 4) : Option DramBankInfo :=
  tRtps[bankNum.val]?.map smallBank

theorem smallBanks_bytes {tRtps : List (BitVec 32)} (hbytes : ∀ tRtp ∈ tRtps, tRtp.toNat < 256)
    (bankNum : Fin 4) : (recordsOf (smallBanks tRtps) bankNum).Bytes := by
  unfold recordsOf smallBanks
  cases hbank : tRtps[bankNum.val]? with
  | none => constructor <;> decide
  | some tRtp =>
    constructor
    case readToPrecharge => exact hbytes tRtp (List.mem_of_getElem? hbank)
    all_goals simp [smallBank]

/-- Registers that fit both banks. -/
theorem smallBank_registersRight :
    RegistersRight 200 0x10600 0x10 200000000 (smallBanks [24, 30]) := by
  refine (registersRight_iff (by decide) (by decide) (smallBanks_bytes (by simp)) ?_).mpr ?_
  · constructor <;> decide
  · refine ⟨by decide, by decide, fun interval hinterval _ => ?_⟩
    have heq : (7800 : BitVec 32) = interval := Option.some.inj hinterval
    subst heq
    refine ⟨by decide, fun bankNum bank ns hbank hns => ?_⟩
    obtain ⟨tRtp, -, rfl⟩ := Option.map_eq_some_iff.mp hbank
    have hns' : (7800 : BitVec 32) = ns := by simpa [refreshInterval?, smallBank] using hns
    subst hns'
    decide

/-- A bank that needs three cycles from a read to a precharge gets two. -/
theorem smallBank_registers_not_right :
    (isDdr2 0x10600 = true ∧ (200000000 : BitVec 32).toNat = 200 * 1000000) ∧
    (∀ bankNum, (recordsOf (smallBanks [48]) bankNum).Bytes) ∧
    (requirements (smallBanks [48])).Fit 200 ∧
    ¬ RegistersRight 200 0x10600 0x10 200000000 (smallBanks [48]) := by
  refine ⟨by decide, smallBanks_bytes (by simp), ?_, fun h => ?_⟩
  · constructor <;> decide
  · exact absurd (isLeast_iff.mp h.low.tRtp) (by decide)

end Mv88fxx81.Dram
