import Mv88fxx81.Lib.Run
import Mv88fxx81.Soc.Overlap

/-!
# The windows of the processor stay apart

The windows of the processor stay apart as long as no window is opened inside the
one of another target, the test sees every window that is open, and the window of
the internal registers is set as one.
-/

namespace Mv88fxx81.Soc

open TransitionSystem

variable {r r' : CpuRegs} {target : Target} {win win' : AddrWin} {decWin : DecWin}

/-! ### The windows that are open -/

/-- The windows of the processor. -/
inductive WinId
  | dram (cs : Fin 4)
  | ahb (winNum : Fin 8)
  | interRegs
  deriving DecidableEq, Repr

/-- What is read of a window of the processor. -/
def CpuRegs.read (r : CpuRegs) : WinId → Option DecWin
  | .dram cs => mvDramIfWinGet r cs
  | .ahb winNum => mvAhbToMbusWinGet r winNum
  | .interRegs => mvAhbToMbusWinGet r intRegWin

/-- A window that can be read and is enabled. -/
def CpuRegs.Opens (r : CpuRegs) (i : WinId) (win : AddrWin) : Prop :=
  ∃ decWin, r.read i = some decWin ∧ decWin.enable = true ∧ decWin.addrWin = win

/-- The windows that are open are apart. -/
def CpuRegs.WindowsDisjoint (r : CpuRegs) : Prop := Apart r.Opens

/-- The target of each window of the memory. -/
def Target.ofDram : Fin 4 → Target
  | 0 => .sdramCs0
  | 1 => .sdramCs1
  | 2 => .sdramCs2
  | 3 => .sdramCs3

theorem dram?_ofDram (cs : Fin 4) : (Target.ofDram cs).dram? = some cs := by
  match cs with
  | 0 => rfl
  | 1 => rfl
  | 2 => rfl
  | 3 => rfl

/-- A window that is open is the one that is found for its target, and the target is not the
memory. -/
def Found (r : CpuRegs) (winNum : Fin 8) : Prop :=
  ∀ decWin, mvAhbToMbusWinGet r winNum = some decWin → decWin.enable = true →
    ∃ target, decWin.target = some target ∧ target.dram? = none ∧
      mvAhbToMbusWinTargetGet r target = some winNum.val

/-- The test sees every window that is open. -/
def CpuRegs.Visible (r : CpuRegs) : Prop := ∀ winNum, Found r winNum

/-- A window does not lie inside the one of another target. -/
def NotInside (r : CpuRegs) (target : Target) (win : AddrWin) : Prop :=
  ∀ target' decWin, target' ≠ target → mvCpuIfTargetWinGet r target' = .ok decWin →
    decWin.enable = true → ¬ win.Inside decWin.addrWin

theorem mem_all (target : Target) : target ∈ Target.all := by
  cases target
  all_goals decide

/-- A window that the test lets pass is apart from the windows of the other targets. -/
theorem cpuTargetWinOverlap_disjoint (htest : cpuTargetWinOverlap r target win = false)
    (hinside : NotInside r target win) {target' : Target} (hne : target' ≠ target)
    (hget : mvCpuIfTargetWinGet r target' = .ok decWin) (henable : decWin.enable = true) :
    Disjoint win.addresses decWin.addrWin.addresses := by
  unfold cpuTargetWinOverlap at htest
  rw [List.any_eq_false] at htest
  have htarget := htest target' (mem_all target')
  rw [if_neg hne, hget] at htarget
  dsimp only at htarget
  rw [henable, Bool.true_and, Bool.not_eq_true] at htarget
  exact ctrlWinOverlapTest_disjoint htarget (hinside target' decWin hne hget henable)

/-- The target through which the test sees a window. -/
def SeenThrough (r : CpuRegs) (target : Target) : WinId → Prop
  | .dram cs => target.dram? = some cs
  | .ahb winNum => target.dram? = none ∧ mvAhbToMbusWinTargetGet r target = some winNum.val
  | .interRegs => target = .interRegs

/-- The test sees a window that is open. -/
theorem opens_seenThrough {i : WinId} (hvisible : r.Visible) (hopen : r.Opens i win) :
    ∃ target decWin, SeenThrough r target i ∧ mvCpuIfTargetWinGet r target = .ok decWin ∧
      decWin.enable = true ∧ decWin.addrWin = win := by
  obtain ⟨decWin, hread, henable, hwin⟩ := hopen
  cases i with
  | dram cs =>
    refine ⟨Target.ofDram cs, decWin, dram?_ofDram cs, ?_, henable, hwin⟩
    have hread' : mvDramIfWinGet r cs = some decWin := hread
    unfold mvCpuIfTargetWinGet
    rw [dram?_ofDram]
    dsimp only
    rw [hread']
  | ahb winNum =>
    have hread' : mvAhbToMbusWinGet r winNum = some decWin := hread
    obtain ⟨target, -, hdram, hfound⟩ := hvisible winNum decWin hread' henable
    refine ⟨target, decWin, ⟨hdram, hfound⟩, ?_, henable, hwin⟩
    unfold mvCpuIfTargetWinGet
    rw [hdram]
    dsimp only
    rw [hfound]
    dsimp only
    rw [hread']
  | interRegs =>
    have hread' : mvAhbToMbusWinGet r intRegWin = some decWin := hread
    refine ⟨.interRegs, decWin, rfl, ?_, henable, hwin⟩
    have hdram : Target.dram? .interRegs = none := rfl
    have hfound : mvAhbToMbusWinTargetGet r .interRegs = some intRegWin := rfl
    unfold mvCpuIfTargetWinGet
    rw [hdram]
    dsimp only
    rw [hfound]
    dsimp only
    rw [hread']

/-- A window that the test lets pass is apart from every window that is open and not seen through
its own target. -/
theorem opens_disjoint {i : WinId} (hvisible : r.Visible) (hinside : NotInside r target win)
    (htest : cpuTargetWinOverlap r target win = false) (hopen : r.Opens i win')
    (hother : ¬ SeenThrough r target i) : Disjoint win.addresses win'.addresses := by
  obtain ⟨target', decWin, hseen, hget, henable, hwin⟩ := opens_seenThrough hvisible hopen
  have hne : target' ≠ target := by
    intro heq
    rw [heq] at hseen
    exact hother hseen
  rw [← hwin]
  exact cpuTargetWinOverlap_disjoint htest hinside hne hget henable

/-! ### Changes of the registers -/

theorem read_update_dram (r : CpuRegs) {cs : Fin 4} (window : DramWindow) {i : WinId}
    (hi : i ≠ .dram cs) :
    CpuRegs.read { r with dram := Function.update r.dram cs window } i = r.read i := by
  cases i with
  | dram cs' =>
    have hcs : cs' ≠ cs := fun h => hi (congrArg WinId.dram h)
    unfold CpuRegs.read mvDramIfWinGet
    dsimp only
    rw [Function.update_of_ne hcs]
  | ahb winNum => rfl
  | interRegs => rfl

theorem read_update_ahb (r : CpuRegs) {winNum : Fin 8} (window : AhbWindow) {i : WinId}
    (hi : i ≠ .ahb winNum) :
    CpuRegs.read { r with ahb := Function.update r.ahb winNum window } i = r.read i := by
  cases i with
  | dram cs => rfl
  | ahb winNum' =>
    have hnum : winNum' ≠ winNum := fun h => hi (congrArg WinId.ahb h)
    unfold CpuRegs.read mvAhbToMbusWinGet
    dsimp only
    rw [dif_pos winNum'.isLt, dif_pos winNum'.isLt, Function.update_of_ne hnum]
  | interRegs => rfl

theorem read_update_interRegs (r : CpuRegs) (base : BitVec 16) {i : WinId} (hi : i ≠ .interRegs) :
    CpuRegs.read { r with interRegs := base } i = r.read i := by
  cases i with
  | dram cs => rfl
  | ahb winNum =>
    unfold CpuRegs.read mvAhbToMbusWinGet
    dsimp only
    rw [dif_pos winNum.isLt, dif_pos winNum.isLt]
  | interRegs => exact absurd rfl hi

theorem opens_of_read {i : WinId} (hread : r'.read i = r.read i) (hopen : r'.Opens i win) :
    r.Opens i win := by
  unfold CpuRegs.Opens at hopen ⊢
  rw [hread] at hopen
  exact hopen

/-- A window of the memory that is closed. -/
theorem disable_dram_opens {cs : Fin 4} {window : DramWindow} (hwindow : window.enable = false)
    {i : WinId} (hopen : CpuRegs.Opens { r with dram := Function.update r.dram cs window } i win) :
    r.Opens i win := by
  by_cases hi : i = .dram cs
  · subst hi
    obtain ⟨decWin, hread, henable, -⟩ := hopen
    unfold CpuRegs.read mvDramIfWinGet at hread
    dsimp only at hread
    rw [Function.update_self] at hread
    split_ifs at hread
    rw [← Option.some.inj hread] at henable
    dsimp only at henable
    rw [hwindow] at henable
    cases henable
  · exact opens_of_read (read_update_dram r window hi) hopen

/-- A window of the bridge that is closed. -/
theorem disable_ahb_opens {winNum : Fin 8} {window : AhbWindow} (hwindow : window.enable = false)
    {i : WinId}
    (hopen : CpuRegs.Opens { r with ahb := Function.update r.ahb winNum window } i win) :
    r.Opens i win ∧ i ≠ .ahb winNum := by
  by_cases hi : i = .ahb winNum
  · subst hi
    obtain ⟨decWin, hread, henable, -⟩ := hopen
    unfold CpuRegs.read mvAhbToMbusWinGet at hread
    dsimp only at hread
    rw [dif_pos winNum.isLt, Function.update_self] at hread
    split_ifs at hread
    rw [← Option.some.inj hread] at henable
    dsimp only at henable
    rw [hwindow] at henable
    cases henable
  · exact ⟨opens_of_read (read_update_ahb r window hi) hopen, hi⟩

/-- `mvAhbToMbusWinEnable` closes a window. -/
theorem mvAhbToMbusWinEnable_false_opens {winNum : ℕ} {i : WinId}
    (hopen : (mvAhbToMbusWinEnable r winNum false).2.Opens i win) :
    r.Opens i win ∧ ∀ w : Fin 8, i = .ahb w → w.val ≠ winNum := by
  unfold mvAhbToMbusWinEnable at hopen
  by_cases hlt : winNum < 8
  · rw [dif_pos hlt] at hopen
    obtain ⟨hbefore, hne⟩ := disable_ahb_opens (by rfl) hopen
    refine ⟨hbefore, fun w hw hval => hne ?_⟩
    rw [hw]
    exact congrArg WinId.ahb (Fin.ext hval)
  · rw [dif_neg hlt] at hopen
    have hsame : r.Opens i win := by
      by_cases hint : winNum = intRegWin
      · rw [if_pos hint] at hopen
        exact hopen
      · rw [if_neg hint] at hopen
        exact hopen
    refine ⟨hsame, fun w _ hval => ?_⟩
    have hltw := w.isLt
    omega

/-- A window of the memory that has been written. -/
theorem update_dram_opens {cs : Fin 4} {regs : DecRegs} {enable : Bool}
    (hregs : mvCtrlRegToAddrDec regs = win)
    (hopen : CpuRegs.Opens { r with dram := Function.update r.dram cs ⟨regs, enable⟩ }
      (.dram cs) win') :
    win' = win := by
  obtain ⟨decWin, hread, -, hwin⟩ := hopen
  unfold CpuRegs.read mvDramIfWinGet at hread
  dsimp only at hread
  rw [Function.update_self] at hread
  split_ifs at hread
  rw [← hwin, ← Option.some.inj hread]
  exact hregs

/-- A window of the bridge that has been written. -/
theorem update_ahb_opens {winNum : Fin 8} {window : AhbWindow}
    (hregs : mvCtrlRegToAddrDec window.regs = win)
    (hopen : CpuRegs.Opens { r with ahb := Function.update r.ahb winNum window }
      (.ahb winNum) win') :
    win' = win := by
  obtain ⟨decWin, hread, -, hwin⟩ := hopen
  unfold CpuRegs.read mvAhbToMbusWinGet at hread
  dsimp only at hread
  rw [dif_pos winNum.isLt, Function.update_self] at hread
  split_ifs at hread
  rw [← hwin, ← Option.some.inj hread]
  exact hregs

/-- The window of the internal registers has its own size. -/
theorem update_interRegs_opens {base : BitVec 16}
    (hopen : CpuRegs.Opens { r with interRegs := base } .interRegs win') :
    win' = ⟨base.setWidth 32 <<< 16, interRegsSize⟩ := by
  obtain ⟨decWin, hread, -, hwin⟩ := hopen
  rw [← hwin, ← Option.some.inj hread]

/-! ### Calls -/

/-- The registers when the window that the target has had is closed. -/
theorem existing_opens {decWin : CpuDecWin} {i : WinId} {existing : Option ℕ}
    (hopen : CpuRegs.Opens (match existing with
      | none => r
      | some existing =>
        if existing ≠ decWin.winNum ∧ decWin.enable then (mvAhbToMbusWinEnable r existing false).2
        else r) i win) :
    r.Opens i win ∧ (decWin.enable = true → ∀ w : Fin 8, i = .ahb w → existing = some w.val →
      w.val = decWin.winNum) := by
  cases existing with
  | none => exact ⟨hopen, fun _ _ _ hfalse => (by cases hfalse)⟩
  | some existing =>
    dsimp only at hopen
    by_cases hclose : existing ≠ decWin.winNum ∧ decWin.enable = true
    · rw [if_pos hclose] at hopen
      obtain ⟨hbefore, hne⟩ := mvAhbToMbusWinEnable_false_opens hopen
      refine ⟨hbefore, fun _ w hw hval => ?_⟩
      exact absurd (Option.some.inj hval).symm (hne w hw)
    · rw [if_neg hclose] at hopen
      refine ⟨hopen, fun henable w _ hval => ?_⟩
      rw [← Option.some.inj hval]
      by_contra hne
      exact hclose ⟨hne, henable⟩

/-- The window of the internal registers is only set as one, with its size. -/
def IntRegKept (target : Target) (decWin : CpuDecWin) : Prop :=
  (target = .interRegs → decWin.enable = true → decWin.winNum = intRegWin) ∧
    (decWin.winNum = intRegWin →
      interRegsSize ≤ decWin.addrWin.size ∧ (decWin.enable = true ∨ target = .interRegs))

/-- The call opens a window. -/
def OpensWindow (target : Target) (decWin : CpuDecWin) : Prop :=
  decWin.enable = true ∨ target.dram? = none ∧ decWin.winNum = intRegWin

/-- The condition on a call of `mvCpuIfTargetWinSet`. -/
def WinSetOk (r : CpuRegs) (target : Target) (decWin : CpuDecWin) : Prop :=
  OpensWindow target decWin → r.Visible ∧ NotInside r target decWin.addrWin ∧
    (target.dram? = none → IntRegKept target decWin)

/-- The memory is only seen through its own windows. -/
theorem seenThrough_dram {cs : Fin 4} {i : WinId} (htarget : target.dram? = some cs)
    (hseen : SeenThrough r target i) : i = .dram cs := by
  cases i with
  | dram cs' =>
    have hcs : target.dram? = some cs' := hseen
    rw [htarget] at hcs
    rw [Option.some.inj hcs]
  | ahb winNum =>
    have hnone := hseen.1
    rw [htarget] at hnone
    cases hnone
  | interRegs =>
    have hinter : target = .interRegs := hseen
    rw [hinter] at htarget
    cases htarget

/-- A window of the memory is set. -/
theorem mvDramIfWinSet_disjoint {cs : Fin 4} {enable : Bool} (h : r.WindowsDisjoint)
    (htarget : target.dram? = some cs) (htest : cpuTargetWinOverlap r target win = false)
    (hok : enable = true → r.Visible ∧ NotInside r target win) :
    (mvDramIfWinSet r cs win enable).WindowsDisjoint := by
  unfold mvDramIfWinSet
  by_cases hoverlap : sdramIfWinOverlap r cs win = some true
  · rw [if_pos hoverlap]
    exact h
  · rw [if_neg hoverlap]
    by_cases halign : isNotAlign win.baseLow win.size = true
    · rw [if_pos halign]
      exact h
    · rw [if_neg halign]
      cases hregs : mvCtrlAddrDecToReg win with
      | none => exact h
      | some regs =>
        have hback := (mvCtrlRegToAddrDec_of_written (Bool.eq_false_iff.mpr halign) hregs).1
        dsimp only
        cases enable with
        | false => exact Apart.mono h fun i win hopen => disable_dram_opens rfl hopen
        | true =>
          obtain ⟨hvisible, hinside⟩ := hok rfl
          refine @Apart.open win _ _ _ h (.dram cs) ?_ ?_
          · intro j win' hj hopen
            have hbefore := opens_of_read (read_update_dram r _ hj) hopen
            refine ⟨hbefore, opens_disjoint hvisible hinside htest hbefore fun hseen => hj ?_⟩
            exact seenThrough_dram htarget hseen
          · intro win' hopen
            rw [update_dram_opens hback hopen]

/-- The window of the internal registers lies in the window that has been tested. -/
theorem interRegs_subset {regs : DecRegs} (hback : mvCtrlRegToAddrDec regs = win)
    (hsize : interRegsSize ≤ win.size) :
    AddrWin.addresses ⟨regs.baseReg.setWidth 32 <<< 16, interRegsSize⟩ ⊆ win.addresses := by
  have hbase : win.baseLow = regs.baseReg.setWidth 32 <<< 16 := by
    rw [← hback]
    rfl
  have hle : interRegsSize.toNat ≤ win.bytes := by
    rw [BitVec.le_def] at hsize
    unfold AddrWin.bytes
    split_ifs
    · exact interRegsSize.isLt.le
    · exact hsize
  unfold AddrWin.addresses
  rw [hbase]
  refine Set.Ico_subset_Ico le_rfl (Nat.add_le_add_left ?_ _)
  exact hle

section

variable {decWin : CpuDecWin} {r₁ : CpuRegs}

/-- The windows that stay open when the one that the target has had is closed. -/
def StaysOpen (r r₁ : CpuRegs) (target : Target) (decWin : CpuDecWin) : Prop :=
  ∀ i win, r₁.Opens i win → r.Opens i win ∧ (decWin.enable = true →
    ∀ w : Fin 8, i = .ahb w → mvAhbToMbusWinTargetGet r target = some w.val →
      w.val = decWin.winNum)

/-- A window of the bridge is set. -/
theorem setAhb_disjoint {window : AhbWindow} {winNum : Fin 8} (h : r.WindowsDisjoint)
    (hbefore : StaysOpen r r₁ target decWin) (htarget : target.dram? = none)
    (htest : cpuTargetWinOverlap r target decWin.addrWin = false) (hok : WinSetOk r target decWin)
    (hback : mvCtrlRegToAddrDec window.regs = decWin.addrWin)
    (hwindow : window.enable = decWin.enable) (hwinNum : winNum.val = decWin.winNum) :
    CpuRegs.WindowsDisjoint { r₁ with ahb := Function.update r₁.ahb winNum window } := by
  have hsame : r₁.WindowsDisjoint := Apart.mono h fun i win hopen => (hbefore i win hopen).1
  cases henable : decWin.enable with
  | false =>
    rw [henable] at hwindow
    exact Apart.mono hsame fun i win hopen => (disable_ahb_opens hwindow hopen).1
  | true =>
    obtain ⟨hvisible, hinside, hint⟩ := hok (Or.inl henable)
    refine @Apart.open decWin.addrWin _ _ _ hsame (.ahb winNum) ?_ ?_
    · intro j win' hj hopen
      have hopen₁ := opens_of_read (read_update_ahb r₁ window hj) hopen
      obtain ⟨hopen₀, hexisting⟩ := hbefore j win' hopen₁
      refine ⟨hopen₁, opens_disjoint hvisible hinside htest hopen₀ fun hseen => ?_⟩
      cases j with
      | dram cs =>
        have hcs : target.dram? = some cs := hseen
        rw [htarget] at hcs
        cases hcs
      | ahb w =>
        have hval := hexisting henable w rfl hseen.2
        exact hj (congrArg WinId.ahb (Fin.ext (hval.trans hwinNum.symm)))
      | interRegs =>
        have hwin := (hint htarget).1 hseen henable
        have hlt := winNum.isLt
        unfold intRegWin at hwin
        omega
    · intro win' hopen
      rw [update_ahb_opens hback hopen]

/-- The window of the internal registers is set. -/
theorem setInterRegs_disjoint {regs : DecRegs} (h : r.WindowsDisjoint)
    (hbefore : StaysOpen r r₁ target decWin) (htarget : target.dram? = none)
    (htest : cpuTargetWinOverlap r target decWin.addrWin = false) (hok : WinSetOk r target decWin)
    (hback : mvCtrlRegToAddrDec regs = decWin.addrWin) (hwin : decWin.winNum = intRegWin) :
    CpuRegs.WindowsDisjoint { r₁ with interRegs := regs.baseReg } := by
  have hsame : r₁.WindowsDisjoint := Apart.mono h fun i win hopen => (hbefore i win hopen).1
  obtain ⟨hvisible, hinside, hint⟩ := hok (Or.inr ⟨htarget, hwin⟩)
  obtain ⟨hsize, hclosed⟩ := (hint htarget).2 hwin
  refine @Apart.open decWin.addrWin _ _ _ hsame (.interRegs) ?_ ?_
  · intro j win' hj hopen
    have hopen₁ := opens_of_read (read_update_interRegs r₁ regs.baseReg hj) hopen
    obtain ⟨hopen₀, hexisting⟩ := hbefore j win' hopen₁
    refine ⟨hopen₁, opens_disjoint hvisible hinside htest hopen₀ fun hseen => ?_⟩
    cases j with
    | dram cs =>
      have hcs : target.dram? = some cs := hseen
      rw [htarget] at hcs
      cases hcs
    | ahb w =>
      have hlt := w.isLt
      unfold intRegWin at hwin
      rcases hclosed with hclosed | hclosed
      · have hval := hexisting hclosed w rfl hseen.2
        omega
      · have hval := hseen.2
        rw [hclosed] at hval
        have hnum : 8 = w.val := Option.some.inj hval
        omega
    | interRegs => exact hj rfl
  · intro win' hopen
    rw [update_interRegs_opens hopen]
    exact interRegs_subset hback hsize

theorem mvAhbToMbusWinSet_disjoint (h : r.WindowsDisjoint) (hbefore : StaysOpen r r₁ target decWin)
    (htarget : target.dram? = none)
    (htest : cpuTargetWinOverlap r target decWin.addrWin = false) (hok : WinSetOk r target decWin) :
    (mvAhbToMbusWinSet r₁ decWin.winNum decWin.addrWin decWin.enable target).2.WindowsDisjoint := by
  have hsame : r₁.WindowsDisjoint := Apart.mono h fun i win hopen => (hbefore i win hopen).1
  unfold mvAhbToMbusWinSet
  by_cases hnum : 8 < decWin.winNum
  · rw [if_pos hnum]
    exact hsame
  · rw [if_neg hnum]
    by_cases halign : isNotAlign decWin.addrWin.baseLow decWin.addrWin.size = true
    · rw [if_pos halign]
      exact hsame
    · rw [if_neg halign]
      cases hregs : mvCtrlAddrDecToReg decWin.addrWin with
      | none => exact hsame
      | some regs =>
        have hback := (mvCtrlRegToAddrDec_of_written (Bool.eq_false_iff.mpr halign) hregs).1
        dsimp only
        by_cases hlt : decWin.winNum < 8
        · rw [dif_pos hlt]
          exact setAhb_disjoint h hbefore htarget htest hok hback rfl rfl
        · rw [dif_neg hlt]
          have hwin : decWin.winNum = intRegWin := by
            unfold intRegWin
            omega
          exact setInterRegs_disjoint h hbefore htarget htest hok hback hwin

end

/-- `mvCpuIfTargetWinSet` keeps the windows apart. -/
theorem mvCpuIfTargetWinSet_disjoint {decWin : CpuDecWin} (h : r.WindowsDisjoint)
    (hok : WinSetOk r target decWin) :
    (mvCpuIfTargetWinSet r (some target) decWin).2.WindowsDisjoint := by
  unfold mvCpuIfTargetWinSet
  dsimp only
  by_cases htest : cpuTargetWinOverlap r target decWin.addrWin = true
  · rw [if_pos htest]
    exact h
  · rw [if_neg htest]
    rw [Bool.not_eq_true] at htest
    cases htarget : target.dram? with
    | some cs =>
      refine mvDramIfWinSet_disjoint h htarget htest fun henable => ?_
      obtain ⟨hvisible, hinside, -⟩ := hok (Or.inl henable)
      exact ⟨hvisible, hinside⟩
    | none =>
      have hset := mvAhbToMbusWinSet_disjoint h (fun i win hopen => existing_opens hopen) htarget
        htest hok
      dsimp only
      generalize mvAhbToMbusWinSet _ decWin.winNum decWin.addrWin decWin.enable target = result
        at hset ⊢
      obtain ⟨status, r'⟩ := result
      cases status with
      | ok => exact hset
      | error => exact hset
      | badParam => exact hset
      | noSuch => exact hset
      | notSupported => exact hset

/-- The condition on a call of `mvCpuIfTargetWinEnable`. -/
def WinEnableOk (r : CpuRegs) (target : Target) (enable : Bool) : Prop :=
  enable = true → target.dram?.isSome = true → r.Visible ∧
    ∀ decWin, mvCpuIfTargetWinGet r target = .ok decWin → NotInside r target decWin.addrWin

/-- A window of the memory is enabled or disabled. -/
theorem mvDramIfWinEnable_disjoint {cs : Fin 4} {enable : Bool} (h : r.WindowsDisjoint)
    (htarget : target.dram? = some cs) (hget : mvCpuIfTargetWinGet r target = .ok decWin)
    (htest : enable = true → cpuTargetWinOverlap r target decWin.addrWin = false)
    (hok : WinEnableOk r target enable) :
    (mvDramIfWinEnable r cs enable).2.WindowsDisjoint := by
  unfold mvDramIfWinEnable
  cases enable with
  | false => exact Apart.mono h fun i win hopen => disable_dram_opens rfl hopen
  | true =>
    obtain ⟨hvisible, hinside⟩ := hok rfl (by rw [htarget]; rfl)
    have hread : mvDramIfWinGet r cs = some decWin := by
      unfold mvCpuIfTargetWinGet at hget
      rw [htarget] at hget
      dsimp only at hget
      cases hread : mvDramIfWinGet r cs with
      | none =>
        rw [hread] at hget
        cases hget
      | some decWin' =>
        rw [hread] at hget
        rw [Except.ok.inj hget]
    have hregs : mvCtrlRegToAddrDec (r.dram cs).regs = decWin.addrWin := by
      unfold mvDramIfWinGet at hread
      dsimp only at hread
      split_ifs at hread
      rw [← Option.some.inj hread]
    rw [if_pos rfl, hread]
    dsimp only
    by_cases hoverlap : sdramIfWinOverlap r cs decWin.addrWin = some false
    · rw [if_pos hoverlap]
      refine @Apart.open decWin.addrWin _ _ _ h (.dram cs) ?_ ?_
      · intro j win' hj hopen
        have hbefore := opens_of_read (read_update_dram r _ hj) hopen
        refine ⟨hbefore, opens_disjoint hvisible (hinside decWin hget) (htest rfl) hbefore
          fun hseen => hj ?_⟩
        exact seenThrough_dram htarget hseen
      · intro win' hopen
        rw [update_dram_opens hregs hopen]
    · rw [if_neg hoverlap]
      exact h

/-- A window of the bridge that is open for a target. -/
def CpuRegs.OpenFor (r : CpuRegs) (target : Target) (winNum : ℕ) : Prop :=
  ∃ decWin, mvAhbToMbusWinGet r winNum = some decWin ∧ decWin.enable = true ∧
    decWin.target = some target

/-- The search finds a window that is open for the target. -/
theorem findWin_openFor {winNums : List ℕ} {winNum : ℕ}
    (hfind : findWin r target winNums = some winNum) :
    winNum ∈ winNums ∧ r.OpenFor target winNum := by
  induction winNums with
  | nil => cases hfind
  | cons winNum' winNums ih =>
    unfold findWin at hfind
    cases hget : mvAhbToMbusWinGet r winNum' with
    | none =>
      rw [hget] at hfind
      cases hfind
    | some decWin =>
      rw [hget] at hfind
      dsimp only at hfind
      by_cases hopen : decWin.enable = true ∧ decWin.target = some target
      · rw [if_pos hopen] at hfind
        obtain rfl := Option.some.inj hfind
        exact ⟨List.mem_cons_self, decWin, hget, hopen.1, hopen.2⟩
      · rw [if_neg hopen] at hfind
        obtain ⟨hmem, hfor⟩ := ih hfind
        exact ⟨List.mem_cons_of_mem _ hmem, hfor⟩

/-- A window of the bridge that is found for a target is open already. -/
theorem mvAhbToMbusWinEnable_true {winNum : ℕ}
    (hfound : mvAhbToMbusWinTargetGet r target = some winNum) :
    (mvAhbToMbusWinEnable r winNum true).2 = r := by
  unfold mvAhbToMbusWinEnable
  by_cases hlt : winNum < 8
  · rw [dif_pos hlt]
    have hopen : (r.ahb ⟨winNum, hlt⟩).enable = true := by
      unfold mvAhbToMbusWinTargetGet at hfound
      split_ifs at hfound
      · have hnum := Option.some.inj hfound
        unfold intRegWin at hnum
        omega
      · obtain ⟨-, decWin, hget, henable, -⟩ := findWin_openFor hfound
        unfold mvAhbToMbusWinGet at hget
        rw [dif_pos hlt] at hget
        dsimp only at hget
        split_ifs at hget
        rw [← Option.some.inj hget] at henable
        exact henable
    have hsame : Function.update r.ahb ⟨winNum, hlt⟩ { r.ahb ⟨winNum, hlt⟩ with enable := true } =
        r.ahb := by
      rw [← hopen]
      exact Function.update_eq_self _ _
    dsimp only
    rw [hsame]
  · rw [dif_neg hlt]
    by_cases hint : winNum = intRegWin
    · rw [if_pos hint]
    · rw [if_neg hint]

/-- `mvCpuIfTargetWinEnable` keeps the windows apart. -/
theorem mvCpuIfTargetWinEnable_disjoint {enable : Bool} (h : r.WindowsDisjoint)
    (hok : WinEnableOk r target enable) :
    (mvCpuIfTargetWinEnable r (some target) enable).2.WindowsDisjoint := by
  unfold mvCpuIfTargetWinEnable
  dsimp only
  cases hget : mvCpuIfTargetWinGet r target with
  | error status =>
    cases status with
    | ok => exact h
    | error => exact h
    | badParam => exact h
    | noSuch => exact h
    | notSupported => exact h
  | ok decWin =>
    dsimp only
    by_cases hrefused : enable = true ∧ cpuTargetWinOverlap r target decWin.addrWin = true
    · rw [if_pos hrefused]
      exact h
    · rw [if_neg hrefused]
      cases htarget : target.dram? with
      | some cs =>
        have hset := mvDramIfWinEnable_disjoint h htarget hget
          (fun henable => Bool.eq_false_iff.mpr fun htest => hrefused ⟨henable, htest⟩) hok
        dsimp only
        generalize mvDramIfWinEnable r cs enable = result at hset ⊢
        obtain ⟨status, r'⟩ := result
        cases status with
        | ok => exact hset
        | error => exact hset
        | badParam => exact hset
        | noSuch => exact hset
        | notSupported => exact hset
      | none =>
        dsimp only
        cases hfound : mvAhbToMbusWinTargetGet r target with
        | none => exact h
        | some winNum =>
          have hset : (mvAhbToMbusWinEnable r winNum enable).2.WindowsDisjoint := by
            cases enable with
            | false => exact Apart.mono h fun i win hopen =>
                (mvAhbToMbusWinEnable_false_opens hopen).1
            | true =>
              rw [mvAhbToMbusWinEnable_true hfound]
              exact h
          dsimp only
          generalize mvAhbToMbusWinEnable r winNum enable = result at hset ⊢
          obtain ⟨status, r'⟩ := result
          cases status with
          | ok => exact hset
          | error => exact hset
          | badParam => exact hset
          | noSuch => exact hset
          | notSupported => exact hset

/-! ### Runs -/

/-- The calls of the interface of the processor. -/
inductive CpuCall
  | winSet (target : Option Target) (decWin : CpuDecWin)
  | winEnable (target : Option Target) (enable : Bool)
  deriving DecidableEq, Repr

/-- One call. -/
def cpuStep (r : CpuRegs) : CpuCall → Option (MvStatus × CpuRegs)
  | .winSet target decWin => some (mvCpuIfTargetWinSet r target decWin)
  | .winEnable target enable => some (mvCpuIfTargetWinEnable r target enable)

/-- The condition on a call. -/
def CpuCallOk (r : CpuRegs) : CpuCall → Prop
  | .winSet (some target) decWin => WinSetOk r target decWin
  | .winEnable (some target) enable => WinEnableOk r target enable
  | .winSet none _ => True
  | .winEnable none _ => True

instance (r : CpuRegs) (winNum : Fin 8) : Decidable (Found r winNum) :=
  decidable_of_iff ((mvAhbToMbusWinGet r winNum).all (fun decWin => !decWin.enable ||
      decWin.target.any fun target => decide (target.dram? = none ∧
        mvAhbToMbusWinTargetGet r target = some winNum.val)) = true) (by
    simp only [Found, Option.all_eq_true, Bool.or_eq_true, Bool.not_eq_true', Option.any_eq_true,
      decide_eq_true_iff, ← Bool.not_eq_true, or_iff_not_imp_left, not_not])

instance (r : CpuRegs) : Decidable r.Visible :=
  inferInstanceAs (Decidable (∀ winNum, Found r winNum))

/-- The window of a target is not around another one. -/
def notAround (win : AddrWin) : Except MvStatus DecWin → Bool
  | .ok decWin => !decWin.enable || !decide (win.Inside decWin.addrWin)
  | .error _ => true

instance (r : CpuRegs) (target : Target) (win : AddrWin) : Decidable (NotInside r target win) :=
  decidable_of_iff ((Target.all.all fun target' => decide (target' = target) ||
      notAround win (mvCpuIfTargetWinGet r target')) = true) (by
    rw [List.all_eq_true]
    constructor
    · intro hall target' decWin hne hget henable hinside
      have htarget := hall target' (mem_all target')
      rw [hget] at htarget
      simp [notAround, hne, henable, hinside] at htarget
    · intro hnot target' _
      by_cases hne : target' = target
      · simp [hne]
      · cases hget : mvCpuIfTargetWinGet r target' with
        | error status => simp [notAround]
        | ok decWin =>
          have hinside := hnot target' decWin hne hget
          cases henable : decWin.enable with
          | false => simp [notAround, henable]
          | true => simp [notAround, henable, hinside henable])

instance (target : Target) (decWin : CpuDecWin) : Decidable (IntRegKept target decWin) :=
  inferInstanceAs (Decidable ((_ = _ → _ → _ = _) ∧ (_ = _ → _ ≤ _ ∧ (_ ∨ _))))

instance (target : Target) (decWin : CpuDecWin) : Decidable (OpensWindow target decWin) :=
  inferInstanceAs (Decidable (_ ∨ _ ∧ _ = _))

instance (r : CpuRegs) (target : Target) (decWin : CpuDecWin) :
    Decidable (WinSetOk r target decWin) :=
  inferInstanceAs (Decidable (OpensWindow target decWin → r.Visible ∧ _ ∧ (_ → _)))

/-- The window of a target is not inside another one. -/
def notInsideAny (r : CpuRegs) (target : Target) : Except MvStatus DecWin → Bool
  | .ok decWin => decide (NotInside r target decWin.addrWin)
  | .error _ => true

instance (r : CpuRegs) (target : Target) (enable : Bool) :
    Decidable (WinEnableOk r target enable) :=
  decidable_of_iff (enable = true → target.dram?.isSome = true → r.Visible ∧
      notInsideAny r target (mvCpuIfTargetWinGet r target) = true) (by
    unfold WinEnableOk
    cases mvCpuIfTargetWinGet r target with
    | ok decWin => simp [notInsideAny]
    | error status => simp [notInsideAny])

instance (r : CpuRegs) : (call : CpuCall) → Decidable (CpuCallOk r call)
  | .winSet (some target) decWin => inferInstanceAs (Decidable (WinSetOk r target decWin))
  | .winEnable (some target) enable => inferInstanceAs (Decidable (WinEnableOk r target enable))
  | .winSet none _ => inferInstanceAs (Decidable True)
  | .winEnable none _ => inferInstanceAs (Decidable True)

/-- The windows of the processor stay apart along every run of calls that meet the condition. -/
theorem cpuRun_disjoint {calls : List (CpuCall × MvStatus)} (h : r.WindowsDisjoint)
    (hrun : Run cpuStep CpuCallOk r calls r') : r'.WindowsDisjoint := by
  refine Run.invariant (I := fun _ r => r.WindowsDisjoint) h ?_ hrun
  intro calls r call status r' h hok hstep
  cases call with
  | winSet target decWin =>
    obtain rfl : (mvCpuIfTargetWinSet r target decWin).2 = r' :=
      congrArg Prod.snd (Option.some.inj hstep)
    cases target with
    | none => exact h
    | some target => exact mvCpuIfTargetWinSet_disjoint h hok
  | winEnable target enable =>
    obtain rfl : (mvCpuIfTargetWinEnable r target enable).2 = r' :=
      congrArg Prod.snd (Option.some.inj hstep)
    cases target with
    | none => exact h
    | some target => exact mvCpuIfTargetWinEnable_disjoint h hok

end Mv88fxx81.Soc
