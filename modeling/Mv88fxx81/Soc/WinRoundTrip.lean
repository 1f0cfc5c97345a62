import Mv88fxx81.Soc.CpuWindows

/-!
# Closing and opening the window of a target

The window of a target is looked for among the windows that are open. A window of
the bridge that has been closed is not found any more, so the call that should open
it again finds either nothing or another window of the target, which is open already.
In no state does a window come back.
-/

namespace Mv88fxx81.Soc

variable {r : CpuRegs} {target target' : Target} {winNum : ℕ}

/-! ### The window of a target -/

/-- The search of a target other than the internal registers. -/
theorem mvAhbToMbusWinTargetGet_openFor (hint : target ≠ .interRegs)
    (hfound : mvAhbToMbusWinTargetGet r target = some winNum) :
    winNum < 8 ∧ r.OpenFor target winNum := by
  unfold mvAhbToMbusWinTargetGet at hfound
  rw [if_neg hint] at hfound
  obtain ⟨hmem, hfor⟩ := findWin_openFor hfound
  exact ⟨List.mem_range.mp hmem, hfor⟩

/-- A window that is found can be read. -/
theorem mvCpuIfTargetWinGet_of_found (hdram : target.dram? = none) (hint : target ≠ .interRegs)
    (hfound : mvAhbToMbusWinTargetGet r target = some winNum) :
    ∃ decWin, mvAhbToMbusWinGet r winNum = some decWin ∧
      mvCpuIfTargetWinGet r target = .ok decWin := by
  obtain ⟨-, decWin, hget, -, -⟩ := mvAhbToMbusWinTargetGet_openFor hint hfound
  refine ⟨decWin, hget, ?_⟩
  unfold mvCpuIfTargetWinGet
  rw [hdram]
  dsimp only
  rw [hfound]
  dsimp only
  rw [hget]

/-- There is no window where the search finds none. -/
theorem mvCpuIfTargetWinGet_of_not_found (hdram : target.dram? = none)
    (hfound : mvAhbToMbusWinTargetGet r target = none) :
    mvCpuIfTargetWinGet r target = .error .noSuch := by
  unfold mvCpuIfTargetWinGet
  rw [hdram]
  dsimp only
  rw [hfound]

/-! ### The two calls -/

/-- A window of the bridge that is found is closed. -/
theorem mvCpuIfTargetWinEnable_false (hdram : target.dram? = none) (hint : target ≠ .interRegs)
    (hfound : mvAhbToMbusWinTargetGet r target = some winNum) :
    mvCpuIfTargetWinEnable r (some target) false = mvAhbToMbusWinEnable r winNum false := by
  obtain ⟨decWin, -, hget⟩ := mvCpuIfTargetWinGet_of_found hdram hint hfound
  have hlt := (mvAhbToMbusWinTargetGet_openFor hint hfound).1
  have hclose : (mvAhbToMbusWinEnable r winNum false).1 = .ok := by
    unfold mvAhbToMbusWinEnable
    rw [dif_pos hlt]
  unfold mvCpuIfTargetWinEnable
  dsimp only
  rw [hget]
  dsimp only
  rw [if_neg (fun h => by cases h.1), hdram]
  dsimp only
  rw [hfound]
  dsimp only
  generalize mvAhbToMbusWinEnable r winNum false = result at hclose ⊢
  obtain ⟨status, r'⟩ := result
  dsimp only at hclose
  rw [hclose]

/-- Without a window that is found nothing is closed, and nothing can be opened. -/
theorem mvCpuIfTargetWinEnable_of_not_found (hdram : target.dram? = none) {enable : Bool}
    (hfound : mvAhbToMbusWinTargetGet r target = none) :
    mvCpuIfTargetWinEnable r (some target) enable = (if enable then .error else .ok, r) := by
  unfold mvCpuIfTargetWinEnable
  dsimp only
  rw [mvCpuIfTargetWinGet_of_not_found hdram hfound]

/-- No window of the bridge is ever opened: the one that is found is open already. -/
theorem mvCpuIfTargetWinEnable_true_regs (hdram : target.dram? = none) :
    (mvCpuIfTargetWinEnable r (some target) true).2 = r := by
  cases hfound : mvAhbToMbusWinTargetGet r target with
  | none => rw [mvCpuIfTargetWinEnable_of_not_found hdram hfound]
  | some winNum =>
    unfold mvCpuIfTargetWinEnable
    dsimp only
    cases mvCpuIfTargetWinGet r target with
    | error status =>
      cases status
      all_goals rfl
    | ok decWin =>
      dsimp only
      by_cases hrefused : (true : Bool) = true ∧ cpuTargetWinOverlap r target decWin.addrWin = true
      · rw [if_pos hrefused]
      · have hsame := mvAhbToMbusWinEnable_true hfound
        rw [if_neg hrefused, hdram]
        dsimp only
        rw [hfound]
        dsimp only
        generalize mvAhbToMbusWinEnable r winNum true = result at hsame ⊢
        obtain ⟨status, r'⟩ := result
        cases status
        all_goals exact hsame

/-! ### The windows of the other targets -/

/-- What is read of a window of the bridge after another one has been closed. -/
theorem mvAhbToMbusWinGet_close (hlt : winNum < 8) {winNum' : ℕ} (hne : winNum' ≠ winNum) :
    mvAhbToMbusWinGet (mvAhbToMbusWinEnable r winNum false).2 winNum' =
      mvAhbToMbusWinGet r winNum' := by
  unfold mvAhbToMbusWinEnable
  rw [dif_pos hlt]
  unfold mvAhbToMbusWinGet
  dsimp only
  by_cases hlt' : winNum' < 8
  · rw [dif_pos hlt', dif_pos hlt', Function.update_of_ne (fun h => hne (congrArg Fin.val h))]
  · rw [dif_neg hlt', dif_neg hlt']

/-- What is read of a window of the bridge that has been closed. -/
theorem mvAhbToMbusWinGet_closed (hlt : winNum < 8) :
    mvAhbToMbusWinGet (mvAhbToMbusWinEnable r winNum false).2 winNum =
      (mvAhbToMbusWinGet r winNum).map fun decWin => { decWin with enable := false } := by
  unfold mvAhbToMbusWinEnable
  rw [dif_pos hlt]
  unfold mvAhbToMbusWinGet
  dsimp only
  rw [dif_pos hlt, dif_pos hlt, Function.update_self]
  dsimp only
  split_ifs
  · rfl
  · rfl

/-! ### Round trips -/

/-- The window of a target is closed and opened again: both calls succeed, the windows that are
open are the ones that have been open before, and in between the windows of the other targets
are as they were. -/
def RoundTrips (r : CpuRegs) (target : Target) : Prop :=
  let closed := mvCpuIfTargetWinEnable r (some target) false
  let opened := mvCpuIfTargetWinEnable closed.2 (some target) true
  closed.1 = .ok ∧ opened.1 = .ok ∧ (∀ i win, opened.2.Opens i win ↔ r.Opens i win) ∧
    ∀ target', target' ≠ target →
      mvCpuIfTargetWinGet closed.2 target' = mvCpuIfTargetWinGet r target'

/-- A window that has been found is not open when it has been closed. -/
theorem mvAhbToMbusWinEnable_false_opens_iff (hlt : winNum < 8) (hfor : r.OpenFor target winNum) :
    ¬ ∀ i win, (mvAhbToMbusWinEnable r winNum false).2.Opens i win ↔ r.Opens i win := by
  intro hsame
  obtain ⟨decWin, hget, henable, -⟩ := hfor
  have hopen : r.Opens (.ahb ⟨winNum, hlt⟩) decWin.addrWin := ⟨decWin, hget, henable, rfl⟩
  have hclosed := (hsame (.ahb ⟨winNum, hlt⟩) decWin.addrWin).mpr hopen
  exact (mvAhbToMbusWinEnable_false_opens hclosed).2 ⟨winNum, hlt⟩ rfl rfl

/-- In no state does the window of a target come back. -/
theorem not_roundTrips (hdram : target.dram? = none) (hint : target ≠ .interRegs) :
    ¬ RoundTrips r target := by
  rintro ⟨-, hopened, hsame, -⟩
  rw [mvCpuIfTargetWinEnable_true_regs hdram] at hsame
  cases hfound : mvAhbToMbusWinTargetGet r target with
  | none =>
    rw [mvCpuIfTargetWinEnable_of_not_found hdram hfound,
      mvCpuIfTargetWinEnable_of_not_found hdram hfound] at hopened
    cases hopened
  | some winNum =>
    obtain ⟨hlt, hfor⟩ := mvAhbToMbusWinTargetGet_openFor hint hfound
    rw [mvCpuIfTargetWinEnable_false hdram hint hfound] at hsame
    exact mvAhbToMbusWinEnable_false_opens_iff hlt hfor hsame

/-- The memory of the first PCI Express port has the first window of the bridge. -/
def pexCpu : CpuRegs where
  dram _ := ⟨⟨0, 0⟩, false⟩
  ahb := Function.update (fun _ => ⟨⟨0, 0⟩, 0, 0, false⟩) 0 ⟨⟨0xe000, 0x07ff⟩, 0x59, 4, true⟩
  interRegs := 0xf100

/-- A window that is open, as it is read. -/
theorem opens_read {i : WinId} {decWin : DecWin} {win : AddrWin} (hread : r.read i = some decWin)
    (hopen : r.Opens i win) : decWin.enable = true ∧ decWin.addrWin = win := by
  obtain ⟨decWin', hread', henable, hwin⟩ := hopen
  rw [hread] at hread'
  obtain rfl := Option.some.inj hread'
  exact ⟨henable, hwin⟩

theorem pexCpu_read_ahb (winNum : Fin 8) (hne : winNum ≠ 0) :
    pexCpu.read (.ahb winNum) = some ⟨⟨0, 0x10000⟩, none, false⟩ := by
  revert hne
  revert winNum
  decide

theorem pexCpu_read_dram (cs : Fin 4) :
    pexCpu.read (.dram cs) = some ⟨⟨0, 0x10000⟩, none, false⟩ := by
  revert cs
  decide

/-- The window of the port is apart from the other open windows. -/
theorem pexCpu_disjoint {i : WinId} {win win' : AddrWin} (hi : i ≠ .ahb 0)
    (hopen : pexCpu.Opens i win) (hopen' : pexCpu.Opens (.ahb 0) win') :
    Disjoint win.addresses win'.addresses := by
  have hread : pexCpu.read (.ahb 0) = some ⟨⟨0xe0000000, 0x08000000⟩, some .pex0Mem, true⟩ := by
    decide
  obtain ⟨-, rfl⟩ := opens_read hread hopen'
  cases i with
  | dram cs =>
    have hclosed := (opens_read (pexCpu_read_dram cs) hopen).1
    cases hclosed
  | ahb winNum =>
    have hne : winNum ≠ 0 := fun h => hi (congrArg WinId.ahb h)
    have hclosed := (opens_read (pexCpu_read_ahb winNum hne) hopen).1
    cases hclosed
  | interRegs =>
    have hread : pexCpu.read .interRegs = some ⟨⟨0xf1000000, 0x100000⟩, some .interRegs, true⟩ := by
      decide
    obtain ⟨-, rfl⟩ := opens_read hread hopen
    unfold AddrWin.addresses
    rw [Set.Ico_disjoint_Ico]
    decide

/-- The window of the port does not come back. -/
theorem pexCpu_not_roundTrips : ¬ RoundTrips pexCpu .pex0Mem :=
  not_roundTrips rfl (by decide)

/-- A window that is open and apart from the other ones does not come back. -/
theorem not_roundTrips_apart :
    ¬ ∀ (r : CpuRegs) (target : Target) (winNum : Fin 8), target.dram? = none →
      target ≠ .interRegs → r.OpenFor target winNum →
      (∀ i win win', i ≠ .ahb winNum → r.Opens i win → r.Opens (.ahb winNum) win' →
        Disjoint win.addresses win'.addresses) →
      RoundTrips r target := by
  intro hall
  have hopen : pexCpu.OpenFor .pex0Mem 0 :=
    ⟨⟨⟨0xe0000000, 0x08000000⟩, some .pex0Mem, true⟩, by decide, rfl, rfl⟩
  obtain ⟨-, hopened, -, -⟩ := hall pexCpu .pex0Mem 0 rfl (by decide) hopen
    fun i win win' hi => pexCpu_disjoint hi
  have hrefused : (mvCpuIfTargetWinEnable
      (mvCpuIfTargetWinEnable pexCpu (some .pex0Mem) false).2 (some .pex0Mem) true).1 = .error := by
    decide
  rw [hrefused] at hopened
  cases hopened

end Mv88fxx81.Soc
