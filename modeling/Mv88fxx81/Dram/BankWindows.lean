import Mv88fxx81.Dram.Detect
import Mv88fxx81.Dram.SpdSafe
import Mv88fxx81.Lib.Contiguous
import Mv88fxx81.Soc.LegalWindows

/-!
# The windows of the banks

The contents of the modules and the window of bank 0 that is open decide which banks the scan
takes, and at which base. The scan faults in a turn just when the parameters of the bank, or the
size of its window, cannot be computed. Behind a turn that takes the bank the windows of the banks
so far are in the registers.
-/

namespace Mv88fxx81.Dram

open CheckedWords Contiguous
open Soc (AddrWin CpuRegs DecRegs DecWin ctrlRegToSize ctrlSizeToReg ctrlWinOverlapTest isNotAlign
  mvCpuIfTargetWinEnable mvCpuIfTargetWinGet mvCtrlAddrDecToReg mvCtrlRegToAddrDec mvDramIfWinGet
  mvDramIfWinSet noSize sdramIfWinOverlap sdramLoop sizeAlignment)

variable {dimms : Fin 2 → Option Spd} {config : BitVec 32} {memoryType firstType : MemoryType}
  {data firstData : Spd} {i : Fin 4}

/-! ### Sizes -/

/-- How many times the width of a module is that of the bus. -/
def widthRatio (config : BitVec 32) (data : Spd) : ℕ :=
  ((data 6).toNat - (data 6).toNat % 16) / (deviceWidth config).toNat

/-- The bytes of a bank of a module. -/
def bankBytes (memoryType : MemoryType) (data : Spd) : ℕ :=
  (spdBankSize memoryType data).toNat * 2 ^ 20

/-- The ratio for the module of bank 0. -/
def firstRatio (dimms : Fin 2 → Option Spd) (config : BitVec 32) : ℕ :=
  ((bankOf dimms 0).map fun content => widthRatio config content.2).getD 0

/-- The bytes of the window of a bank. -/
def windowBytes (dimms : Fin 2 → Option Spd) (config : BitVec 32) (i : Fin 4) : ℕ :=
  ((bankOf dimms i).map fun content =>
    bankBytes content.1 content.2 / firstRatio dimms config).getD 0

/-- The window of a bank. -/
def bankWindow (dimms : Fin 2 → Option Spd) (config : BitVec 32) (i : Fin 4) : AddrWin :=
  ⟨BitVec.ofNat 32 (start (windowBytes dimms config) i),
    BitVec.ofNat 32 (windowBytes dimms config i)⟩

theorem windowBytes_some (hbank : bankOf dimms i = some (memoryType, data)) :
    windowBytes dimms config i = bankBytes memoryType data / firstRatio dimms config := by
  unfold windowBytes
  rw [hbank]
  rfl

theorem windowBytes_none (hbank : bankOf dimms i = none) : windowBytes dimms config i = 0 := by
  unfold windowBytes
  rw [hbank]
  rfl

theorem firstRatio_some (hfirst : bankOf dimms 0 = some (firstType, firstData)) :
    firstRatio dimms config = widthRatio config firstData := by
  unfold firstRatio
  rw [hfirst]
  rfl

theorem deviceWidth_cases : deviceWidth config = 16 ∨ deviceWidth config = 32 := by
  unfold deviceWidth
  split_ifs
  · exact Or.inl rfl
  · exact Or.inr rfl

/-- The width of a module without the bits for error correction. -/
theorem dimmWidth_toNat : ((data 6).setWidth 32 - (data 6).setWidth 32 % 16 : BitVec 32).toNat =
    (data 6).toNat - (data 6).toNat % 16 := by
  have hbyte := (data 6).isLt
  rw [BitVec.toNat_sub, BitVec.toNat_umod, byte_toNat]
  change (2 ^ 32 - (data 6).toNat % 16 + (data 6).toNat) % 2 ^ 32 = _
  omega

theorem widthRatio_toNat :
    (((data 6).setWidth 32 - (data 6).setWidth 32 % 16) / deviceWidth config : BitVec 32).toNat =
      widthRatio config data := by
  rw [BitVec.toNat_udiv, dimmWidth_toNat]
  rfl

/-- The size of a window is computed just when the first module is at least as wide as the bus, and
the bank has less than 4 GB. -/
theorem windowSize_eq_ok {size : BitVec 32} :
    windowSize config (bankRecord firstType firstData) (bankRecord memoryType data) = .ok size ↔
      (widthRatio config firstData ≠ 0 ∧ (spdBankSize memoryType data).toNat < 4096) ∧
      size = BitVec.ofNat 32 (bankBytes memoryType data / widthRatio config firstData) := by
  have hwidth : deviceWidth config ≠ 0 := by
    rcases @deviceWidth_cases config with h | h <;> rw [h] <;> decide
  have hshift : (spdBankSize memoryType data).toNat * 2 ^ 20 < 2 ^ 32 ↔
      (spdBankSize memoryType data).toNat < 4096 := by omega
  have hratio : (((firstData 6).setWidth 32 - (firstData 6).setWidth 32 % 16) /
      deviceWidth config : BitVec 32) ≠ 0 ↔ widthRatio config firstData ≠ 0 := by
    rw [← widthRatio_toNat]
    exact not_congr ⟨fun h => congrArg BitVec.toNat h, fun h => BitVec.eq_of_toNat_eq h⟩
  have hquotient : (spdBankSize memoryType data).toNat < 4096 →
      (spdBankSize memoryType data <<< 20 / (((firstData 6).setWidth 32 -
        (firstData 6).setWidth 32 % 16) / deviceWidth config) : BitVec 32) =
      BitVec.ofNat 32 (bankBytes memoryType data / widthRatio config firstData) := by
    intro hlt
    apply BitVec.eq_of_toNat_eq
    rw [BitVec.toNat_udiv, toNat_shiftLeft_of_fits (hshift.mpr hlt), widthRatio_toNat,
      BitVec.toNat_ofNat]
    refine (Nat.mod_eq_of_lt ?_).symm
    exact Nat.lt_of_le_of_lt (Nat.div_le_self _ _) (hshift.mpr hlt)
  unfold windowSize
  constructor
  · intro hsize
    obtain ⟨ratio, hdiv, hsize⟩ := bind_eq_ok.mp hsize
    obtain ⟨bytes, hbytes, hsize⟩ := bind_eq_ok.mp hsize
    obtain ⟨-, rfl⟩ := div_eq_ok.mp hdiv
    obtain ⟨⟨-, hfits⟩, rfl⟩ := shiftLeft_eq_ok.mp hbytes
    obtain ⟨hne, rfl⟩ := div_eq_ok.mp hsize
    have hlt := hshift.mp hfits
    exact ⟨⟨hratio.mp hne, hlt⟩, hquotient hlt⟩
  · rintro ⟨⟨hne, hlt⟩, rfl⟩
    exact bind_eq_ok.mpr ⟨_, div_eq_ok.mpr ⟨hwidth, rfl⟩,
      bind_eq_ok.mpr ⟨_, shiftLeft_eq_ok.mpr ⟨⟨by decide, hshift.mpr hlt⟩, rfl⟩,
      div_eq_ok.mpr ⟨hratio.mpr hne, hquotient hlt⟩⟩⟩

/-! ### Which banks are taken -/

/-- The type of the module is supported, and its setting for registers is the one of bank 0. -/
structure Supported (dimms : Fin 2 → Option Spd) (memoryType : MemoryType) (data : Spd) :
    Prop where
  notSdram : memoryType ≠ .sdram
  registered : (bankRecord memoryType data).registeredAddrAndControlInputs =
    (recordsOf (bankRecord? dimms) 0).registeredAddrAndControlInputs

/-- The parameters of a bank and the size of its window can be computed. -/
structure BankSafe (dimms : Fin 2 → Option Spd) (config : BitVec 32) (i : Fin 4) : Prop where
  module : ModuleSafe dimms (dimmOf i)
  size : ∀ memoryType data, bankOf dimms i = some (memoryType, data) →
    Supported dimms memoryType data →
    firstRatio dimms config ≠ 0 ∧ (spdBankSize memoryType data).toNat < 4096

/-- A bank that is there gets its window, given the one of bank 0 that is open. Bank 0 is there. -/
structure Taken (dimms : Fin 2 → Option Spd) (config : BitVec 32) (opened : AddrWin) (i : Fin 4) :
    Prop where
  first : i = 0 → bankOf dimms i ≠ none
  supported : ∀ memoryType data, bankOf dimms i = some (memoryType, data) →
    Supported dimms memoryType data
  window : bankOf dimms i ≠ none → (bankWindow dimms config i).WellFormed
  apart : bankOf dimms i ≠ none → i ≠ 0 →
    ctrlWinOverlapTest (bankWindow dimms config i) opened = false

/-- The window of bank 0 is open at address 0, and the windows of the memory can be read. -/
structure StartWindows (r : CpuRegs) : Prop where
  readable : ∀ cs, (mvDramIfWinGet r cs).isSome
  base : (r.dram 0).regs.baseReg = 0
  enable : (r.dram 0).enable = true

/-- The window of bank 0 that is open. -/
def openedWindow (r : CpuRegs) : AddrWin := mvCtrlRegToAddrDec (r.dram 0).regs

/-! ### Where the windows lie -/

section Layout

variable {opened : AddrWin}

/-- The scan goes on behind a bank. -/
def Passes (dimms : Fin 2 → Option Spd) (config : BitVec 32) (opened : AddrWin)
    (i : Fin 4) : Prop :=
  BankSafe dimms config i ∧ Taken dimms config opened i

theorem windowBytes_lt (hsafe : BankSafe dimms config i)
    (hbank : bankOf dimms i = some (memoryType, data))
    (hsupported : Supported dimms memoryType data) :
    windowBytes dimms config i < 2 ^ 32 := by
  obtain ⟨-, hlt⟩ := hsafe.size memoryType data hbank hsupported
  rw [windowBytes_some hbank]
  refine Nat.lt_of_le_of_lt (Nat.div_le_self _ _) ?_
  unfold bankBytes
  omega

/-- The bytes of the window of a bank that is taken. -/
theorem bankWindow_bytes (hpass : Passes dimms config opened i) (hthere : bankOf dimms i ≠ none) :
    (bankWindow dimms config i).bytes = windowBytes dimms config i := by
  obtain ⟨⟨memoryType, data⟩, hbank⟩ := Option.ne_none_iff_exists'.mp hthere
  have hlt := windowBytes_lt hpass.1 hbank (hpass.2.supported _ _ hbank)
  obtain ⟨⟨k, hsize⟩, -⟩ := hpass.2.window hthere
  have hpos : 0 < 2 ^ k := Nat.two_pow_pos k
  have hnat : (bankWindow dimms config i).size.toNat = windowBytes dimms config i := by
    unfold bankWindow
    rw [BitVec.toNat_ofNat, Nat.mod_eq_of_lt hlt]
  unfold AddrWin.bytes
  rw [if_neg, hnat]
  intro hzero
  rw [hzero] at hsize
  change 0 = 65536 * 2 ^ k at hsize
  omega

/-- A window at address 0 is found to overlap with that of bank 0. -/
theorem overlapTest_zero {win : AddrWin} (hbase : win.baseLow = 0) (hopened : opened.baseLow = 0) :
    ctrlWinOverlapTest win opened = true := by
  unfold ctrlWinOverlapTest
  split_ifs
  · rfl
  · rw [hbase, hopened]
    simp only [decide_eq_true_eq]
    exact Or.inr ⟨Nat.le_refl _, Nat.zero_le _⟩

/-- The base of a window does not run over. -/
theorem start_lt (hopened : opened.baseLow = 0)
    (hle : start (windowBytes dimms config) i ≤ 2 ^ 32) (htaken : Taken dimms config opened i)
    (hthere : bankOf dimms i ≠ none) : start (windowBytes dimms config) i < 2 ^ 32 := by
  by_cases hzero : i = 0
  · rw [hzero]
    exact start_zero.trans_lt (by decide)
  · refine Nat.lt_of_le_of_ne hle fun hfull => ?_
    have htest := htaken.apart hthere hzero
    rw [overlapTest_zero _ hopened] at htest
    · cases htest
    · unfold bankWindow
      rw [hfull]
      rfl

theorem bankWindow_zero : (bankWindow dimms config 0).baseLow = 0 := by
  unfold bankWindow
  simp

theorem bankWindow_base (hlt : start (windowBytes dimms config) i < 2 ^ 32) :
    (bankWindow dimms config i).baseLow.toNat = start (windowBytes dimms config) i := by
  unfold bankWindow
  rw [BitVec.toNat_ofNat, Nat.mod_eq_of_lt hlt]

/-- The windows of the banks that are taken end at the last address or before it. -/
theorem start_le {n : ℕ} (hopened : opened.baseLow = 0) (hn : n ≤ 4)
    (hpass : ∀ k : Fin 4, (k : ℕ) < n → Passes dimms config opened k) :
    start (windowBytes dimms config) n ≤ 2 ^ 32 := by
  induction n with
  | zero =>
    rw [start_zero]
    omega
  | succ n ih =>
    have hle := ih (by omega) fun k hk => hpass k (by omega)
    have hlast := hpass ⟨n, by omega⟩ (Nat.lt_succ_self n)
    have hsucc := start_succ (windowBytes dimms config) ⟨n, by omega⟩
    rw [hsucc]
    by_cases hbank : bankOf dimms ⟨n, by omega⟩ = none
    · rw [windowBytes_none hbank]
      exact hle
    · have hfits := (hlast.2.window hbank).fits
      unfold AddrWin.Fits at hfits
      rw [bankWindow_bytes hlast hbank,
        bankWindow_base (start_lt hopened hle hlast.2 hbank)] at hfits
      exact hfits

/-- The addresses of the window of a bank that is taken. -/
theorem bankWindow_addresses (hopened : opened.baseLow = 0)
    (hpass : ∀ k ≤ i, Passes dimms config opened k) (hthere : bankOf dimms i ≠ none) :
    (bankWindow dimms config i).addresses = block (windowBytes dimms config) i := by
  have hlast := hpass i le_rfl
  have hle := start_le hopened (Nat.le_of_lt i.isLt) fun k hk => hpass k (Fin.le_of_lt hk)
  unfold AddrWin.addresses block
  rw [bankWindow_bytes hlast hthere, bankWindow_base (start_lt hopened hle hlast.2 hthere)]

end Layout

/-! ### The windows in the registers -/

section Registers

variable {r : CpuRegs} {cs : Fin 4} {win : AddrWin}

theorem mvDramIfWinGet_of_readable (hread : (mvDramIfWinGet r cs).isSome) :
    mvDramIfWinGet r cs =
      some ⟨mvCtrlRegToAddrDec (r.dram cs).regs, none, (r.dram cs).enable⟩ := by
  unfold mvDramIfWinGet at hread ⊢
  dsimp only at hread ⊢
  split_ifs at hread ⊢
  · cases hread
  · rfl

theorem isSome_mvDramIfWinGet :
    (mvDramIfWinGet r cs).isSome ↔ (mvCtrlRegToAddrDec (r.dram cs).regs).size ≠ noSize := by
  unfold mvDramIfWinGet
  dsimp only
  split_ifs with hsize
  · exact ⟨fun h => (by cases h), fun h => absurd hsize h⟩
  · exact ⟨fun _ => hsize, fun _ => rfl⟩

/-- Where the windows can be read, the loop finds an overlap just when an open window has one. -/
theorem sdramLoop_readable (hread : ∀ cs, (mvDramIfWinGet r cs).isSome) {css : List (Fin 4)} :
    sdramLoop r cs win css = some true ↔ ∃ cs' ∈ css, cs' ≠ cs ∧ (r.dram cs').enable = true ∧
      ctrlWinOverlapTest win (mvCtrlRegToAddrDec (r.dram cs').regs) = true := by
  induction css with
  | nil =>
    constructor
    · intro h
      cases h
    · rintro ⟨_, hmem, -⟩
      cases hmem
  | cons cs' css ih =>
    unfold sdramLoop
    by_cases hsame : cs' = cs
    · rw [if_pos hsame, ih]
      constructor
      · rintro ⟨cs'', hmem, h⟩
        exact ⟨cs'', List.mem_cons_of_mem _ hmem, h⟩
      · rintro ⟨cs'', hmem, hne, h⟩
        rcases List.mem_cons.mp hmem with rfl | hmem
        · exact absurd hsame hne
        · exact ⟨cs'', hmem, hne, h⟩
    · rw [if_neg hsame, mvDramIfWinGet_of_readable (hread cs')]
      dsimp only
      by_cases hhit : (r.dram cs').enable = true ∧
          ctrlWinOverlapTest win (mvCtrlRegToAddrDec (r.dram cs').regs) = true
      · rw [if_neg (not_not.mpr hhit.1), if_pos hhit.2]
        exact ⟨fun _ => ⟨cs', List.mem_cons_self, hsame, hhit⟩, fun _ => rfl⟩
      · have hrest : (if ¬ (r.dram cs').enable = true then sdramLoop r cs win css
            else if ctrlWinOverlapTest win (mvCtrlRegToAddrDec (r.dram cs').regs) = true then
              some true else sdramLoop r cs win css) = sdramLoop r cs win css := by
          split_ifs with hopen htest
          · exact absurd ⟨hopen, htest⟩ hhit
          · rfl
          · rfl
        rw [hrest, ih]
        constructor
        · rintro ⟨cs'', hmem, h⟩
          exact ⟨cs'', List.mem_cons_of_mem _ hmem, h⟩
        · rintro ⟨cs'', hmem, hne, h⟩
          rcases List.mem_cons.mp hmem with rfl | hmem
          · exact absurd h hhit
          · exact ⟨cs'', hmem, hne, h⟩

/-- A window of the memory is taken when it can be written and overlaps with no open window. -/
theorem dramIfWinSetStatus_ok_iff (hread : ∀ cs, (mvDramIfWinGet r cs).isSome) :
    dramIfWinSetStatus r cs win = .ok ↔ win.WellFormed ∧
      ∀ cs', cs' ≠ cs → (r.dram cs').enable = true →
        ctrlWinOverlapTest win (mvCtrlRegToAddrDec (r.dram cs').regs) = false := by
  have hloop : sdramIfWinOverlap r cs win = some true ↔ ¬ ∀ cs', cs' ≠ cs →
      (r.dram cs').enable = true →
      ctrlWinOverlapTest win (mvCtrlRegToAddrDec (r.dram cs').regs) = false := by
    have hall : ∀ cs' : Fin 4, cs' ∈ [0, 1, 2, 3] := by decide
    unfold sdramIfWinOverlap
    rw [sdramLoop_readable hread]
    push Not
    constructor
    · rintro ⟨cs', -, hne, hopen, htest⟩
      exact ⟨cs', hne, hopen, by rw [htest]; decide⟩
    · rintro ⟨cs', hne, hopen, htest⟩
      exact ⟨cs', hall cs', hne, hopen, Bool.eq_true_of_not_eq_false htest⟩
  unfold dramIfWinSetStatus
  by_cases hoverlap : sdramIfWinOverlap r cs win = some true
  · rw [if_pos hoverlap]
    exact ⟨fun h => (by cases h), fun h => absurd h.2 (hloop.mp hoverlap)⟩
  · rw [if_neg hoverlap, Soc.wellFormed_iff]
    have hclear := not_not.mp (mt hloop.mpr hoverlap)
    cases halign : isNotAlign win.baseLow win.size with
    | true =>
      rw [if_pos rfl]
      exact ⟨fun h => (by cases h), fun h => (by cases h.1.1)⟩
    | false =>
      rw [if_neg Bool.false_ne_true]
      cases hregs : mvCtrlAddrDecToReg win with
      | none =>
        rw [if_pos rfl]
        refine ⟨fun h => (by cases h), ?_⟩
        rintro ⟨⟨-, _, h⟩, -⟩
        cases h
      | some regs =>
        rw [if_neg (Option.some_ne_none _)]
        exact ⟨fun _ => ⟨⟨rfl, regs, rfl⟩, hclear⟩, fun _ => rfl⟩

/-- A window that is taken is written to the registers. -/
theorem mvDramIfWinSet_of_ok (hok : dramIfWinSetStatus r cs win = .ok) :
    ∃ regs, mvCtrlAddrDecToReg win = some regs ∧
      mvDramIfWinSet r cs win true =
        { r with dram := Function.update r.dram cs ⟨regs, true⟩ } := by
  unfold dramIfWinSetStatus at hok
  split_ifs at hok with hoverlap halign hregs
  obtain ⟨regs, hregs⟩ := Option.ne_none_iff_exists'.mp hregs
  refine ⟨regs, hregs, ?_⟩
  unfold mvDramIfWinSet
  rw [if_neg hoverlap, if_neg halign, hregs]

end Registers

end Mv88fxx81.Dram
