import Mathlib.Data.List.Range
import Mv88fxx81.Soc.LegalWindows
import Mv88fxx81.Soc.WinRoundTrip

/-!
# Setting the window of a target

A call that sets the window of a target should either set it and say so, or leave the
windows as they are. A call for the memory always reports an error. For the bridge the
window that the target has had is closed before the new one is looked at.
-/

namespace Mv88fxx81.Soc

variable {r r' : CpuRegs} {target target' : Target} {winNum : ℕ} {decWin : CpuDecWin}

/-! ### What should hold -/

/-- The number that stands for no window. -/
def noWinNum : ℕ := 0xffffffff

/-- The number that `mvCpuIfTargetWinGet` returns. -/
def targetWinNum (r : CpuRegs) (target : Target) : ℕ :=
  match target.dram? with
  | some _ => noWinNum
  | none => (mvAhbToMbusWinTargetGet r target).getD noWinNum

/-- `mvCpuIfTargetWinGet` with all that it returns. -/
def cpuDecWinGet (r : CpuRegs) (target : Target) : Except MvStatus CpuDecWin :=
  match mvCpuIfTargetWinGet r target with
  | .error status => .error status
  | .ok decWin => .ok ⟨decWin.addrWin, decWin.enable, targetWinNum r target⟩

/-- A request that should be served. The memory has windows of its own, so the number of the
window does not matter for it. -/
def WinSetLegal (r : CpuRegs) : Option Target → CpuDecWin → Prop
  | none, _ => False
  | some target, decWin =>
    (target.dram? = none → decWin.winNum ≤ intRegWin) ∧ Clear r target decWin.addrWin ∧
      decWin.addrWin.WellFormed

/-- The call succeeds for the legal requests, the window is the one that has been asked for when it
succeeds, and no window changes when it fails. -/
def WinSetAtomic (r : CpuRegs) (target : Option Target) (decWin : CpuDecWin) : Prop :=
  let result := mvCpuIfTargetWinSet r target decWin
  (result.1 = .ok ↔ WinSetLegal r target decWin) ∧
    (result.1 = .ok → decWin.enable = true → ∀ t, target = some t →
      cpuDecWinGet result.2 t = .ok decWin) ∧
    (result.1 ≠ .ok → ∀ t, cpuDecWinGet result.2 t = cpuDecWinGet r t)

/-! ### When it holds -/

/-- The search for the window of a target goes on behind a window. -/
def Passes (r : CpuRegs) (target : Target) (winNum : ℕ) : Prop :=
  ∃ decWin, mvAhbToMbusWinGet r winNum = some decWin ∧
    ¬ (decWin.enable = true ∧ decWin.target = some target)

/-- The search finds the window of the request: it passes the ones before it, except for the one
that is closed for it. The window of the internal registers has its number and its size. -/
def FoundFirst (r : CpuRegs) (target : Target) (decWin : CpuDecWin) : Prop :=
  if target = .interRegs then decWin.winNum = intRegWin ∧ decWin.addrWin.size = interRegsSize
  else
    decWin.winNum < 8 ∧ ∀ winNum, winNum < decWin.winNum →
      mvAhbToMbusWinTargetGet r target = some winNum ∨ Passes r target winNum

/-- The window that the target has is the one that the request replaces. -/
def NothingToClose (r : CpuRegs) (target : Target) (decWin : CpuDecWin) : Prop :=
  decWin.enable = true → ∀ winNum, winNum < 8 →
    mvAhbToMbusWinTargetGet r target = some winNum → winNum = decWin.winNum

/-- The requests for which it holds when the test lets them pass. A window of the memory must not
be written at all. -/
def PassedSafe (r : CpuRegs) (target : Target) (decWin : CpuDecWin) : Prop :=
  match target.dram? with
  | some _ => decWin.addrWin.WellFormed → ¬ NotInside r target decWin.addrWin ∧
      cpuDecWinGet r target = .ok ⟨decWin.addrWin, decWin.enable, noWinNum⟩
  | none =>
    (decWin.winNum ≤ intRegWin ∧ decWin.addrWin.WellFormed →
      NotInside r target decWin.addrWin ∧ (decWin.enable = true → FoundFirst r target decWin)) ∧
    (¬ (decWin.winNum ≤ intRegWin ∧ decWin.addrWin.WellFormed) → NothingToClose r target decWin)

/-- The requests for which it holds. -/
def WinSetSafe (r : CpuRegs) : Option Target → CpuDecWin → Prop
  | none, _ => True
  | some target, decWin =>
    (WinSetLegal r (some target) decWin → Comparable r target) ∧
      (cpuTargetWinOverlap r target decWin.addrWin = false → PassedSafe r target decWin)

/-! ### Requests that the test refuses -/

theorem winSetAtomic_none : WinSetAtomic r none decWin := by
  refine ⟨⟨fun hok => ?_, fun hlegal => ?_⟩, fun hok => ?_, fun _ _ => rfl⟩
  · cases hok
  · exact absurd hlegal (fun h => h)
  · cases hok

/-- A request that the test refuses changes nothing. -/
theorem winSetAtomic_of_refused (htest : cpuTargetWinOverlap r target decWin.addrWin = true) :
    WinSetAtomic r (some target) decWin ↔ ¬ WinSetLegal r (some target) decWin := by
  unfold WinSetAtomic mvCpuIfTargetWinSet
  dsimp only
  rw [if_pos htest]
  constructor
  · rintro ⟨hiff, -, -⟩ hlegal
    cases hiff.mpr hlegal
  · intro hlegal
    refine ⟨⟨fun hok => ?_, fun h => absurd h hlegal⟩, fun hok => ?_, fun _ _ => rfl⟩
    · cases hok
    · cases hok

/-- A legal request is refused when the other windows cannot be compared with it. -/
theorem winSetLegal_refused (htest : cpuTargetWinOverlap r target decWin.addrWin = true) :
    ¬ WinSetLegal r (some target) decWin ↔
      (WinSetLegal r (some target) decWin → Comparable r target) := by
  constructor
  · intro hlegal h
    exact absurd h hlegal
  · intro hcomp hlegal
    have hpass := test_of_clear hlegal.2.2 hlegal.2.1 (hcomp hlegal)
    rw [htest] at hpass
    cases hpass

/-- A request that passes the test is legal when its numbers are and it lies in no other window. -/
theorem winSetLegal_iff (htest : cpuTargetWinOverlap r target decWin.addrWin = false) :
    WinSetLegal r (some target) decWin ↔ (target.dram? = none → decWin.winNum ≤ intRegWin) ∧
      NotInside r target decWin.addrWin ∧ decWin.addrWin.WellFormed := by
  unfold WinSetLegal
  dsimp only
  rw [clear_iff_notInside htest]

/-! ### Requests for the memory -/

theorem ofDram_dram? {cs : Fin 4} (htarget : target.dram? = some cs) :
    Target.ofDram cs = target := by
  cases target
  all_goals cases htarget
  all_goals rfl

/-- No other window of the memory is in the way of a window that has passed the test. -/
theorem sdramLoop_of_test {cs : Fin 4} {win : AddrWin} (htarget : target.dram? = some cs)
    (htest : cpuTargetWinOverlap r target win = false) (css : List (Fin 4)) :
    sdramLoop r cs win css = some false := by
  induction css with
  | nil => rfl
  | cons cs' css ih =>
    unfold sdramLoop
    by_cases hcs : cs' = cs
    · rw [if_pos hcs]
      exact ih
    · rw [if_neg hcs]
      have hne : Target.ofDram cs' ≠ target := by
        intro heq
        have hdram := dram?_ofDram cs'
        rw [heq, htarget] at hdram
        exact hcs (Option.some.inj hdram).symm
      obtain ⟨herror, hok⟩ := cpuTargetWinOverlap_eq_false_iff.mp htest _ hne
      unfold mvCpuIfTargetWinGet at herror hok
      rw [dram?_ofDram] at herror hok
      dsimp only at herror hok
      cases hget : mvDramIfWinGet r cs' with
      | none =>
        rw [hget] at herror
        cases herror .error rfl
      | some decWin' =>
        rw [hget] at hok
        dsimp only
        cases henable : decWin'.enable with
        | false =>
          rw [if_pos (by decide)]
          exact ih
        | true =>
          have hpass := hok decWin' rfl henable
          rw [if_neg (by decide), hpass, if_neg Bool.false_ne_true]
          exact ih

/-- The window of the memory is written when it is well formed. -/
theorem mvDramIfWinSet_of_test {cs : Fin 4} {win : AddrWin} (enable : Bool)
    (htarget : target.dram? = some cs) (htest : cpuTargetWinOverlap r target win = false)
    (hform : win.WellFormed) :
    ∃ regs, mvCtrlRegToAddrDec regs = win ∧ win.size ≠ noSize ∧ mvDramIfWinSet r cs win enable =
      { r with dram := Function.update r.dram cs ⟨regs, enable⟩ } := by
  obtain ⟨halign, regs, hregs⟩ := wellFormed_iff.mp hform
  obtain ⟨hback, hsize⟩ := mvCtrlRegToAddrDec_of_written halign hregs
  refine ⟨regs, hback, hsize, ?_⟩
  have hloop : sdramIfWinOverlap r cs win = some false := sdramLoop_of_test htarget htest _
  unfold mvDramIfWinSet
  rw [hloop, if_neg (by decide), halign, if_neg Bool.false_ne_true, hregs]

/-- A window that is not well formed is not written. -/
theorem mvDramIfWinSet_of_not_wellFormed {cs : Fin 4} {win : AddrWin} (enable : Bool)
    (hform : ¬ win.WellFormed) : mvDramIfWinSet r cs win enable = r := by
  unfold mvDramIfWinSet
  by_cases hoverlap : sdramIfWinOverlap r cs win = some true
  · rw [if_pos hoverlap]
  · rw [if_neg hoverlap]
    by_cases halign : isNotAlign win.baseLow win.size = true
    · rw [if_pos halign]
    · rw [if_neg halign]
      cases hregs : mvCtrlAddrDecToReg win with
      | none => rfl
      | some regs =>
        have halign' := Bool.eq_false_iff.mpr halign
        exact absurd (wellFormed_iff.mpr ⟨halign', regs, hregs⟩) hform

/-- The windows after one of the memory has been written. -/
theorem cpuDecWinGet_update_dram {cs : Fin 4} {regs : DecRegs} {win : AddrWin} {enable : Bool}
    (htarget : target.dram? = some cs) (hback : mvCtrlRegToAddrDec regs = win)
    (hsize : win.size ≠ noSize) (target' : Target) :
    cpuDecWinGet { r with dram := Function.update r.dram cs ⟨regs, enable⟩ } target' =
      if target' = target then .ok ⟨win, enable, noWinNum⟩ else cpuDecWinGet r target' := by
  unfold cpuDecWinGet mvCpuIfTargetWinGet targetWinNum
  by_cases heq : target' = target
  · rw [if_pos heq, heq, htarget]
    unfold mvDramIfWinGet
    dsimp only
    rw [Function.update_self]
    dsimp only
    rw [hback, if_neg hsize]
  · rw [if_neg heq]
    cases htarget' : target'.dram? with
    | none => rfl
    | some cs' =>
      have hcs : cs' ≠ cs := by
        intro hcs
        rw [hcs] at htarget'
        exact heq ((ofDram_dram? htarget').symm.trans (ofDram_dram? htarget))
      unfold mvDramIfWinGet
      dsimp only
      rw [Function.update_of_ne hcs]

/-- A request for the memory reports an error, whether the window is written or not. -/
theorem winSetAtomic_dram {cs : Fin 4} (htarget : target.dram? = some cs)
    (htest : cpuTargetWinOverlap r target decWin.addrWin = false) :
    WinSetAtomic r (some target) decWin ↔
      (decWin.addrWin.WellFormed → ¬ NotInside r target decWin.addrWin ∧
        cpuDecWinGet r target = .ok ⟨decWin.addrWin, decWin.enable, noWinNum⟩) := by
  have hnum : target.dram? = none → decWin.winNum ≤ intRegWin := by
    intro hnone
    rw [htarget] at hnone
    cases hnone
  unfold WinSetAtomic
  rw [winSetLegal_iff htest]
  unfold mvCpuIfTargetWinSet
  dsimp only
  rw [if_neg (Bool.eq_false_iff.mp htest), htarget]
  dsimp only
  by_cases hform : decWin.addrWin.WellFormed
  · obtain ⟨regs, hback, hsize, hset⟩ :=
      mvDramIfWinSet_of_test decWin.enable htarget htest hform
    rw [hset]
    constructor
    · rintro ⟨hiff, -, hsame⟩ _
      constructor
      · intro hinside
        rw [htarget] at hnum
        cases hiff.mpr ⟨hnum, hinside, hform⟩
      · have hget := hsame (by decide) target
        rw [cpuDecWinGet_update_dram htarget hback hsize, if_pos rfl] at hget
        exact hget.symm
    · intro h
      obtain ⟨hinside, hget⟩ := h hform
      refine ⟨⟨fun hok => ?_, fun hlegal => absurd hlegal.2.1 hinside⟩, fun hok => ?_,
        fun _ target' => ?_⟩
      · cases hok
      · cases hok
      · rw [cpuDecWinGet_update_dram htarget hback hsize]
        by_cases heq : target' = target
        · rw [if_pos heq, heq, hget]
        · rw [if_neg heq]
  · rw [mvDramIfWinSet_of_not_wellFormed _ hform]
    constructor
    · intro _ h
      exact absurd h hform
    · intro _
      refine ⟨⟨fun hok => ?_, fun hlegal => absurd hlegal.2.2 hform⟩, fun hok => ?_, fun _ _ => rfl⟩
      · cases hok
      · cases hok

/-! ### Requests for the bridge -/

/-- The windows when the one that the target has had is closed. -/
def closeExisting (r : CpuRegs) (target : Target) (decWin : CpuDecWin) : CpuRegs :=
  match mvAhbToMbusWinTargetGet r target with
  | none => r
  | some existing =>
    if existing ≠ decWin.winNum ∧ decWin.enable then (mvAhbToMbusWinEnable r existing false).2
    else r

/-- Either no window is closed, or the one that the target has had. -/
theorem closeExisting_cases :
    NothingToClose r target decWin ∧ closeExisting r target decWin = r ∨
      ∃ existing, existing < 8 ∧ mvAhbToMbusWinTargetGet r target = some existing ∧
        existing ≠ decWin.winNum ∧ decWin.enable = true ∧
        closeExisting r target decWin = (mvAhbToMbusWinEnable r existing false).2 := by
  unfold closeExisting NothingToClose
  cases hfound : mvAhbToMbusWinTargetGet r target with
  | none =>
    refine Or.inl ⟨fun _ winNum _ hsome => ?_, rfl⟩
    cases hsome
  | some existing =>
    dsimp only
    by_cases hclose : existing ≠ decWin.winNum ∧ decWin.enable = true
    · rw [if_pos hclose]
      by_cases hlt : existing < 8
      · exact Or.inr ⟨existing, hlt, rfl, hclose.1, hclose.2, rfl⟩
      · refine Or.inl ⟨fun _ winNum hlt' hsome => ?_, ?_⟩
        · rw [Option.some.inj hsome] at hlt
          exact absurd hlt' hlt
        · unfold mvAhbToMbusWinEnable
          rw [dif_neg hlt]
          by_cases hint : existing = intRegWin
          · rw [if_pos hint]
          · rw [if_neg hint]
    · rw [if_neg hclose]
      refine Or.inl ⟨fun henable winNum _ hsome => ?_, rfl⟩
      obtain rfl := Option.some.inj hsome
      by_contra hne
      exact hclose ⟨hne, henable⟩

/-- A request for the bridge that passes the test. -/
theorem mvCpuIfTargetWinSet_bridge (htarget : target.dram? = none)
    (htest : cpuTargetWinOverlap r target decWin.addrWin = false) :
    mvCpuIfTargetWinSet r (some target) decWin =
      match mvAhbToMbusWinSet (closeExisting r target decWin) decWin.winNum decWin.addrWin
          decWin.enable target with
      | (.ok, r) => (.ok, r)
      | (_, r) => (.error, r) := by
  unfold mvCpuIfTargetWinSet
  dsimp only
  rw [if_neg (Bool.eq_false_iff.mp htest), htarget]
  rfl

/-- A number or a window that is not legal is refused. -/
theorem mvAhbToMbusWinSet_refused {win : AddrWin} {enable : Bool}
    (hlegal : ¬ (winNum ≤ intRegWin ∧ win.WellFormed)) :
    mvAhbToMbusWinSet r winNum win enable target = (.error, r) := by
  unfold mvAhbToMbusWinSet
  by_cases hnum : 8 < winNum
  · rw [if_pos hnum]
  · rw [if_neg hnum]
    by_cases halign : isNotAlign win.baseLow win.size = true
    · rw [if_pos halign]
    · rw [if_neg halign]
      cases hregs : mvCtrlAddrDecToReg win with
      | none => rfl
      | some regs =>
        refine absurd ⟨Nat.le_of_not_lt hnum, wellFormed_iff.mpr ⟨?_, regs, hregs⟩⟩ hlegal
        exact Bool.eq_false_iff.mpr halign

/-- A window of the bridge as it is written. -/
def ahbWindow (target : Target) (regs : DecRegs) (enable : Bool) : AhbWindow :=
  ⟨regs, (mvCtrlAttribGet target).attrib ||| (mvCtrlAttribGet target).targetId >>> 4,
    (mvCtrlAttribGet target).targetId.setWidth 4, enable⟩

/-- A legal number and a legal window are written. -/
theorem mvAhbToMbusWinSet_served {win : AddrWin} (r : CpuRegs) (enable : Bool) (target : Target)
    (hnum : winNum ≤ intRegWin) (hform : win.WellFormed) :
    ∃ regs, mvCtrlRegToAddrDec regs = win ∧ win.size ≠ noSize ∧
      mvAhbToMbusWinSet r winNum win enable target =
        (.ok, if h : winNum < 8 then
          { r with ahb := Function.update r.ahb ⟨winNum, h⟩ (ahbWindow target regs enable) }
        else { r with interRegs := regs.baseReg }) := by
  obtain ⟨halign, regs, hregs⟩ := wellFormed_iff.mp hform
  obtain ⟨hback, hsize⟩ := mvCtrlRegToAddrDec_of_written halign hregs
  refine ⟨regs, hback, hsize, ?_⟩
  have hnum' : ¬ 8 < winNum := Nat.not_lt.mpr hnum
  unfold mvAhbToMbusWinSet
  rw [if_neg hnum', halign, if_neg Bool.false_ne_true, hregs]
  dsimp only
  by_cases hlt : winNum < 8
  · rw [dif_pos hlt, dif_pos hlt]
    rfl
  · rw [dif_neg hlt, dif_neg hlt]

/-- The number that is returned is the one of the search. -/
theorem found_of_cpuDecWinGet (htarget : target.dram? = none)
    (hget : cpuDecWinGet r target = .ok decWin) :
    mvAhbToMbusWinTargetGet r target = some decWin.winNum := by
  unfold cpuDecWinGet mvCpuIfTargetWinGet targetWinNum at hget
  rw [htarget] at hget
  dsimp only at hget
  cases hfound : mvAhbToMbusWinTargetGet r target with
  | none =>
    rw [hfound] at hget
    cases hget
  | some winNum =>
    rw [hfound] at hget
    dsimp only at hget
    cases hread : mvAhbToMbusWinGet r winNum with
    | none =>
      rw [hread] at hget
      cases hget
    | some decWin' =>
      rw [hread] at hget
      rw [← Except.ok.inj hget]
      rfl

/-- A window that has been closed is not open for any target. -/
theorem not_openFor_closed (hlt : winNum < 8) :
    ¬ (mvAhbToMbusWinEnable r winNum false).2.OpenFor target winNum := by
  rintro ⟨decWin, hget, henable, -⟩
  rw [mvAhbToMbusWinGet_closed hlt, Option.map_eq_some_iff] at hget
  obtain ⟨decWin', -, rfl⟩ := hget
  cases henable

/-- Only the window of the internal registers is found for them. -/
theorem ne_interRegs_of_found (hlt : winNum < 8)
    (hfound : mvAhbToMbusWinTargetGet r target = some winNum) : target ≠ .interRegs := by
  intro hint
  unfold mvAhbToMbusWinTargetGet at hfound
  rw [if_pos hint] at hfound
  have hnum := Option.some.inj hfound
  unfold intRegWin at hnum
  omega

/-- A request that is refused has closed the window of the target unless there is nothing to
close. -/
theorem winSetAtomic_refused (htarget : target.dram? = none)
    (htest : cpuTargetWinOverlap r target decWin.addrWin = false)
    (hlegal : ¬ (decWin.winNum ≤ intRegWin ∧ decWin.addrWin.WellFormed)) :
    WinSetAtomic r (some target) decWin ↔ NothingToClose r target decWin := by
  unfold WinSetAtomic
  rw [winSetLegal_iff htest, mvCpuIfTargetWinSet_bridge htarget htest,
    mvAhbToMbusWinSet_refused hlegal]
  dsimp only
  constructor
  · rintro ⟨-, -, hsame⟩
    rcases closeExisting_cases with ⟨hnothing, -⟩ | ⟨existing, hlt, hfound, -, -, hclosed⟩
    · exact hnothing
    · have hint := ne_interRegs_of_found hlt hfound
      have hget := hsame (by decide) target
      obtain ⟨decWin', -, hbefore⟩ := mvCpuIfTargetWinGet_of_found htarget hint hfound
      have hbefore' : cpuDecWinGet r target = .ok ⟨decWin'.addrWin, decWin'.enable, existing⟩ := by
        unfold cpuDecWinGet targetWinNum
        rw [hbefore, htarget]
        dsimp only
        rw [hfound]
        rfl
      rw [hclosed, hbefore'] at hget
      have hfound' := found_of_cpuDecWinGet htarget hget
      exact absurd (mvAhbToMbusWinTargetGet_openFor hint hfound').2 (not_openFor_closed hlt)
  · intro hnothing
    have hkept : closeExisting r target decWin = r := by
      rcases closeExisting_cases with ⟨-, hkept⟩ | ⟨existing, hlt, hfound, hne, henable, -⟩
      · exact hkept
      · exact absurd (hnothing henable existing hlt hfound) hne
    rw [hkept]
    refine ⟨⟨fun hok => ?_, fun h => ?_⟩, fun hok => ?_, fun _ _ => rfl⟩
    · cases hok
    · exact absurd ⟨h.1 htarget, h.2.2⟩ hlegal
    · cases hok

/-! ### Requests that are served -/

/-- The search finds the first window that it does not pass. -/
theorem findWin_range'_iff (first len : ℕ) :
    findWin r target (List.range' first len) = some winNum ↔
      first ≤ winNum ∧ winNum < first + len ∧ r.OpenFor target winNum ∧
        ∀ winNum', first ≤ winNum' → winNum' < winNum → Passes r target winNum' := by
  induction len generalizing first with
  | zero =>
    constructor
    · intro hfind
      cases hfind
    · rintro ⟨hle, hlt, -⟩
      omega
  | succ len ih =>
    rw [List.range'_succ]
    unfold findWin
    constructor
    · intro hfind
      cases hget : mvAhbToMbusWinGet r first with
      | none =>
        rw [hget] at hfind
        cases hfind
      | some decWin =>
        rw [hget] at hfind
        dsimp only at hfind
        by_cases hopen : decWin.enable = true ∧ decWin.target = some target
        · rw [if_pos hopen] at hfind
          obtain rfl := Option.some.inj hfind
          refine ⟨le_refl _, by omega, ⟨decWin, hget, hopen.1, hopen.2⟩, fun _ hle hlt => ?_⟩
          omega
        · rw [if_neg hopen] at hfind
          obtain ⟨hle, hlt, hfor, hpasses⟩ := (ih (first + 1)).mp hfind
          refine ⟨by omega, by omega, hfor, fun winNum' hle' hlt' => ?_⟩
          by_cases hfirst : winNum' = first
          · rw [hfirst]
            exact ⟨decWin, hget, hopen⟩
          · exact hpasses winNum' (by omega) hlt'
    · rintro ⟨hle, hlt, hfor, hpasses⟩
      by_cases hfirst : first = winNum
      · obtain ⟨decWin, hget, henable, htarget⟩ := hfor
        rw [hfirst, hget]
        dsimp only
        rw [if_pos ⟨henable, htarget⟩]
      · obtain ⟨decWin, hget, hnot⟩ := hpasses first (le_refl _) (by omega)
        rw [hget]
        dsimp only
        rw [if_neg hnot]
        exact (ih (first + 1)).mpr ⟨by omega, by omega, hfor,
          fun winNum' hle' hlt' => hpasses winNum' (by omega) hlt'⟩

theorem mvAhbToMbusWinTargetGet_iff (hint : target ≠ .interRegs) :
    mvAhbToMbusWinTargetGet r target = some winNum ↔
      winNum < 8 ∧ r.OpenFor target winNum ∧
        ∀ winNum', winNum' < winNum → Passes r target winNum' := by
  unfold mvAhbToMbusWinTargetGet
  rw [if_neg hint, List.range_eq_range', findWin_range'_iff]
  constructor
  · rintro ⟨-, hlt, hfor, hpasses⟩
    exact ⟨by omega, hfor, fun winNum' => hpasses winNum' (Nat.zero_le _)⟩
  · rintro ⟨hlt, hfor, hpasses⟩
    exact ⟨Nat.zero_le _, by omega, hfor, fun winNum' _ => hpasses winNum'⟩

/-- The search also passes the window that is closed for the request. -/
theorem passes_closeExisting (hint : target ≠ .interRegs) (henable : decWin.enable = true)
    (hne : winNum ≠ decWin.winNum) :
    Passes (closeExisting r target decWin) target winNum ↔
      mvAhbToMbusWinTargetGet r target = some winNum ∨ Passes r target winNum := by
  rcases closeExisting_cases with ⟨hnothing, hkept⟩ | ⟨existing, hlt, hfound, -, -, hclosed⟩
  · rw [hkept]
    constructor
    · exact Or.inr
    · rintro (hfound | hpasses)
      · have hlt := (mvAhbToMbusWinTargetGet_openFor hint hfound).1
        exact absurd (hnothing henable winNum hlt hfound) hne
      · exact hpasses
  · rw [hclosed, hfound]
    unfold Passes
    by_cases heq : winNum = existing
    · constructor
      · intro _
        rw [heq]
        exact Or.inl rfl
      · intro _
        obtain ⟨-, decWin', hget, -, -⟩ := mvAhbToMbusWinTargetGet_openFor hint hfound
        rw [heq, mvAhbToMbusWinGet_closed hlt, hget]
        exact ⟨_, rfl, fun h => by cases h.1⟩
    · rw [mvAhbToMbusWinGet_close hlt heq]
      constructor
      · exact Or.inr
      · rintro (hsome | hpasses)
        · exact absurd (Option.some.inj hsome).symm heq
        · exact hpasses

/-- The attributes that are written are the ones of the target. -/
theorem mvCtrlTargetGet_written (hint : target ≠ .interRegs) (regs : DecRegs) (enable : Bool) :
    mvCtrlTargetGet ⟨(ahbWindow target regs enable).attrib,
      (ahbWindow target regs enable).targetId.setWidth 8⟩ = some target := by
  cases target
  case interRegs => exact absurd rfl hint
  all_goals rfl

/-- What is read of a window of the bridge that has been written. -/
theorem mvAhbToMbusWinGet_written (hint : target ≠ .interRegs) {regs : DecRegs} {win : AddrWin}
    {enable : Bool} (hback : mvCtrlRegToAddrDec regs = win) (hsize : win.size ≠ noSize)
    (hlt : winNum < 8) :
    mvAhbToMbusWinGet { r with
      ahb := Function.update r.ahb ⟨winNum, hlt⟩ (ahbWindow target regs enable) } winNum =
        some ⟨win, some target, enable⟩ := by
  have hdecode := mvCtrlTargetGet_written hint regs enable
  unfold mvAhbToMbusWinGet
  rw [dif_pos hlt]
  dsimp only
  rw [Function.update_self, hdecode]
  unfold ahbWindow
  dsimp only
  rw [hback, if_neg hsize]

/-- What is read of the other windows. -/
theorem mvAhbToMbusWinGet_unwritten {window : AhbWindow} (hlt : winNum < 8) {winNum' : ℕ}
    (hne : winNum' ≠ winNum) :
    mvAhbToMbusWinGet { r with ahb := Function.update r.ahb ⟨winNum, hlt⟩ window } winNum' =
      mvAhbToMbusWinGet r winNum' := by
  unfold mvAhbToMbusWinGet
  dsimp only
  by_cases hlt' : winNum' < 8
  · rw [dif_pos hlt', dif_pos hlt', Function.update_of_ne (fun h => hne (congrArg Fin.val h))]
  · rw [dif_neg hlt', dif_neg hlt']

/-- The window of the internal registers as it is returned. -/
theorem cpuDecWinGet_interRegs :
    cpuDecWinGet r .interRegs =
      .ok ⟨⟨r.interRegs.setWidth 32 <<< 16, interRegsSize⟩, true, intRegWin⟩ := rfl

/-- A window that has been written is returned when the search finds it first. -/
theorem cpuDecWinGet_written (htarget : target.dram? = none) (hint : target ≠ .interRegs)
    {regs : DecRegs} (henable : decWin.enable = true)
    (hback : mvCtrlRegToAddrDec regs = decWin.addrWin) (hsize : decWin.addrWin.size ≠ noSize)
    (hlt : decWin.winNum < 8) :
    cpuDecWinGet { closeExisting r target decWin with
      ahb := Function.update (closeExisting r target decWin).ahb ⟨decWin.winNum, hlt⟩
        (ahbWindow target regs true) } target = .ok decWin ↔
      ∀ winNum, winNum < decWin.winNum →
        mvAhbToMbusWinTargetGet r target = some winNum ∨ Passes r target winNum := by
  have hwritten := @mvAhbToMbusWinGet_written (closeExisting r target decWin) target decWin.winNum
    hint regs decWin.addrWin true hback hsize hlt
  have hothers : ∀ winNum, winNum < decWin.winNum →
      (Passes { closeExisting r target decWin with
        ahb := Function.update (closeExisting r target decWin).ahb ⟨decWin.winNum, hlt⟩
          (ahbWindow target regs true) } target winNum ↔
        mvAhbToMbusWinTargetGet r target = some winNum ∨ Passes r target winNum) := by
    intro winNum hbefore
    rw [← passes_closeExisting hint henable (Nat.ne_of_lt hbefore)]
    unfold Passes
    rw [mvAhbToMbusWinGet_unwritten hlt (Nat.ne_of_lt hbefore)]
  constructor
  · intro hget winNum hbefore
    have hfound := found_of_cpuDecWinGet htarget hget
    obtain ⟨-, -, hpasses⟩ := (mvAhbToMbusWinTargetGet_iff hint).mp hfound
    exact (hothers winNum hbefore).mp (hpasses winNum hbefore)
  · intro hall
    have hfound := (mvAhbToMbusWinTargetGet_iff hint).mpr ⟨hlt, ⟨_, hwritten, rfl, rfl⟩,
      fun winNum hbefore => (hothers winNum hbefore).mpr (hall winNum hbefore)⟩
    unfold cpuDecWinGet mvCpuIfTargetWinGet targetWinNum
    rw [htarget]
    dsimp only
    rw [hfound]
    dsimp only [Option.getD_some]
    rw [hwritten]
    dsimp only
    rw [← henable]

/-- What is returned after a request that has been served. -/
theorem cpuDecWinGet_served (htarget : target.dram? = none) {regs : DecRegs}
    (henable : decWin.enable = true) (hback : mvCtrlRegToAddrDec regs = decWin.addrWin)
    (hsize : decWin.addrWin.size ≠ noSize) :
    cpuDecWinGet (if h : decWin.winNum < 8 then
      { closeExisting r target decWin with
        ahb := Function.update (closeExisting r target decWin).ahb ⟨decWin.winNum, h⟩
          (ahbWindow target regs true) }
      else { closeExisting r target decWin with interRegs := regs.baseReg }) target = .ok decWin ↔
      FoundFirst r target decWin := by
  unfold FoundFirst
  by_cases hint : target = .interRegs
  · rw [if_pos hint, hint, cpuDecWinGet_interRegs]
    constructor
    · intro hget
      have hwin := Except.ok.inj hget
      rw [← hwin]
      exact ⟨rfl, rfl⟩
    · rintro ⟨hwin, hone⟩
      have hnot : ¬ decWin.winNum < 8 := by
        rw [hwin]
        decide
      have hbase : regs.baseReg.setWidth 32 <<< 16 = decWin.addrWin.baseLow :=
        congrArg AddrWin.baseLow hback
      rw [dif_neg hnot, hbase, ← hone, ← henable, ← hwin]
  · rw [if_neg hint]
    by_cases hlt : decWin.winNum < 8
    · rw [dif_pos hlt, cpuDecWinGet_written htarget hint henable hback hsize hlt]
      exact ⟨fun hall => ⟨hlt, hall⟩, fun h => h.2⟩
    · constructor
      · intro hget
        have hfound := found_of_cpuDecWinGet htarget hget
        exact absurd (mvAhbToMbusWinTargetGet_openFor hint hfound).1 hlt
      · intro h
        exact absurd h.1 hlt

/-- A request that is served is legal when it lies in no other window, and it is the one that is
returned when the search finds it. -/
theorem winSetAtomic_served (htarget : target.dram? = none)
    (htest : cpuTargetWinOverlap r target decWin.addrWin = false)
    (hlegal : decWin.winNum ≤ intRegWin ∧ decWin.addrWin.WellFormed) :
    WinSetAtomic r (some target) decWin ↔
      NotInside r target decWin.addrWin ∧ (decWin.enable = true → FoundFirst r target decWin) := by
  obtain ⟨hnum, hform⟩ := hlegal
  obtain ⟨regs, hback, hsize, hset⟩ := mvAhbToMbusWinSet_served
    (closeExisting r target decWin) decWin.enable target hnum hform
  unfold WinSetAtomic
  rw [winSetLegal_iff htest, mvCpuIfTargetWinSet_bridge htarget htest, hset]
  dsimp only
  constructor
  · rintro ⟨hiff, hget, -⟩
    refine ⟨(hiff.mp rfl).2.1, fun henable => ?_⟩
    have hwin := hget rfl henable target rfl
    rw [henable] at hwin
    exact (cpuDecWinGet_served htarget henable hback hsize).mp hwin
  · rintro ⟨hinside, hfirst⟩
    refine ⟨⟨fun _ => ⟨fun _ => hnum, hinside, hform⟩, fun _ => rfl⟩, fun _ henable t ht => ?_,
      fun hne => absurd rfl hne⟩
    rw [← Option.some.inj ht, henable]
    exact (cpuDecWinGet_served htarget henable hback hsize).mpr (hfirst henable)

/-! ### All requests -/

/-- The requests that the test lets pass. -/
theorem winSetAtomic_passed (htest : cpuTargetWinOverlap r target decWin.addrWin = false) :
    WinSetAtomic r (some target) decWin ↔ PassedSafe r target decWin := by
  unfold PassedSafe
  cases htarget : target.dram? with
  | some cs => exact winSetAtomic_dram htarget htest
  | none =>
    dsimp only
    by_cases hlegal : decWin.winNum ≤ intRegWin ∧ decWin.addrWin.WellFormed
    · rw [winSetAtomic_served htarget htest hlegal]
      exact ⟨fun h => ⟨fun _ => h, fun hnot => absurd hlegal hnot⟩, fun h => h.1 hlegal⟩
    · rw [winSetAtomic_refused htarget htest hlegal]
      exact ⟨fun h => ⟨fun hyes => absurd hyes hlegal, fun _ => h⟩, fun h => h.2 hlegal⟩

/-- Setting a window is all or nothing for the requests that are safe, and for no other one. -/
theorem winSetAtomic_iff (r : CpuRegs) (target : Option Target) (decWin : CpuDecWin) :
    WinSetAtomic r target decWin ↔ WinSetSafe r target decWin := by
  cases target with
  | none => exact ⟨fun _ => trivial, fun _ => winSetAtomic_none⟩
  | some target =>
    by_cases htest : cpuTargetWinOverlap r target decWin.addrWin = true
    · rw [winSetAtomic_of_refused htest, winSetLegal_refused htest]
      constructor
      · intro hcomp
        refine ⟨hcomp, fun hpass => ?_⟩
        rw [htest] at hpass
        cases hpass
      · exact fun h => h.1
    · rw [Bool.not_eq_true] at htest
      rw [winSetAtomic_passed htest]
      constructor
      · exact fun hsafe => ⟨fun _ => comparable_of_test htest, fun _ => hsafe⟩
      · exact fun h => h.2 htest

/-- A second window for the port, with a base that is no multiple of the size. -/
def misalignedWin : CpuDecWin := ⟨⟨0xd0010000, 0x08000000⟩, true, 1⟩

/-- The request is refused, and the window of the port is gone. -/
theorem not_winSetAtomic_all :
    ¬ ∀ (r : CpuRegs) (target : Option Target) (decWin : CpuDecWin),
      WinSetAtomic r target decWin := by
  intro hall
  obtain ⟨-, -, hsame⟩ := hall pexCpu (some .pex0Mem) misalignedWin
  have hrefused : (mvCpuIfTargetWinSet pexCpu (some .pex0Mem) misalignedWin).1 = .error := by
    decide
  have hlost : cpuDecWinGet (mvCpuIfTargetWinSet pexCpu (some .pex0Mem) misalignedWin).2 .pex0Mem =
      .error .noSuch := by
    decide
  have hbefore : cpuDecWinGet pexCpu .pex0Mem = .ok ⟨⟨0xe0000000, 0x08000000⟩, true, 0⟩ := by
    decide
  have hget := hsame (by rw [hrefused]; decide) .pex0Mem
  rw [hlost, hbefore] at hget
  cases hget

end Mv88fxx81.Soc
