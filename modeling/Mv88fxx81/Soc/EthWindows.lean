import Mv88fxx81.Soc.CpuWindows

/-!
# The windows of the Ethernet unit

The Ethernet unit has windows of its own, which are compared by their numbers. They
stay apart as long as no window is opened inside another one.
-/

namespace Mv88fxx81.Soc

open TransitionSystem

/-- The registers of a window of the Ethernet unit. -/
structure EthWindow where
  regs : DecRegs
  attrib : BitVec 8
  targetId : BitVec 4
  deriving DecidableEq, Repr

/-- The registers of the windows. A bit of `ETH_BASE_ADDR_ENABLE_REG` disables its window. -/
structure EthRegs where
  windows : Fin 6 → EthWindow
  baseAddrEnableReg : Fin 6 → Bool

/-- `mvEthWinGet`, which reads an invalid size as well. -/
def mvEthWinGet (r : EthRegs) (winNum : Fin 6) : DecWin :=
  let window := r.windows winNum
  ⟨mvCtrlRegToAddrDec window.regs,
    mvCtrlTargetGet ⟨window.attrib, window.targetId.setWidth 8⟩,
    !r.baseAddrEnableReg winNum⟩

/-- `ethWinOverlapDetect`. -/
def ethWinOverlapDetect (r : EthRegs) (winNum : Fin 6) (win : AddrWin) : Bool :=
  (List.finRange 6).any fun winNumIndex =>
    if winNumIndex = winNum then false
    else if r.baseAddrEnableReg winNumIndex then false
    else ctrlWinOverlapTest win (mvEthWinGet r winNumIndex).addrWin

/-- Enable or disable a window. -/
def EthRegs.setEnable (r : EthRegs) (winNum : Fin 6) (enable : Bool) : EthRegs :=
  { r with baseAddrEnableReg := Function.update r.baseAddrEnableReg winNum (!enable) }

/-- Write the registers of a window. -/
def EthRegs.write (r : EthRegs) (winNum : Fin 6) (window : EthWindow) : EthRegs :=
  { r with windows := Function.update r.windows winNum window }

/-- `mvEthWinEnable`. -/
def mvEthWinEnable (r : EthRegs) (winNum : ℕ) (enable : Bool) : MvStatus × EthRegs :=
  if h : winNum < 6 then
    if enable then
      if ethWinOverlapDetect r ⟨winNum, h⟩ (mvEthWinGet r ⟨winNum, h⟩).addrWin then (.error, r)
      else (.ok, r.setEnable ⟨winNum, h⟩ true)
    else (.ok, r.setEnable ⟨winNum, h⟩ false)
  else (.error, r)

/-- `MV_ETH_DEC_WIN`. -/
structure EthDecWin where
  addrWin : AddrWin
  target : Target
  enable : Bool
  deriving DecidableEq, Repr

/-- `mvEthWinSet`. -/
def mvEthWinSet (r : EthRegs) (winNum : ℕ) (decWin : EthDecWin) : MvStatus × EthRegs :=
  if h : winNum < 6 then
    if ethWinOverlapDetect r ⟨winNum, h⟩ decWin.addrWin then (.error, r)
    else if isNotAlign decWin.addrWin.baseLow decWin.addrWin.size then (.error, r)
    else
      match mvCtrlAddrDecToReg decWin.addrWin with
      | none => (.error, r)
      | some regs =>
        let targetAttribs := mvCtrlAttribGet decWin.target
        let r := (mvEthWinEnable r winNum false).2
        let window : EthWindow := ⟨regs, targetAttribs.attrib, targetAttribs.targetId.setWidth 4⟩
        let r := r.write ⟨winNum, h⟩ window
        (.ok, if decWin.enable then (mvEthWinEnable r winNum true).2 else r)
  else (.badParam, r)

variable {r r' : EthRegs} {win win' : AddrWin}

/-- A window with a valid size that is enabled. -/
def EthRegs.Opens (r : EthRegs) (i : Fin 6) (win : AddrWin) : Prop :=
  (mvEthWinGet r i).enable = true ∧ (mvEthWinGet r i).addrWin = win ∧ win.size ≠ noSize

/-- The windows that are open are apart. -/
def EthRegs.WindowsDisjoint (r : EthRegs) : Prop := Apart r.Opens

/-- A window does not lie inside another one. -/
def EthNotInside (r : EthRegs) (winNum : Fin 6) (win : AddrWin) : Prop :=
  ∀ i, i ≠ winNum → (mvEthWinGet r i).enable = true → ¬ win.Inside (mvEthWinGet r i).addrWin

/-- A window that the test lets pass is apart from the others. -/
theorem ethWinOverlapDetect_disjoint {winNum i : Fin 6}
    (htest : ethWinOverlapDetect r winNum win = false) (hinside : EthNotInside r winNum win)
    (hi : i ≠ winNum) (hopen : r.Opens i win') : Disjoint win.addresses win'.addresses := by
  obtain ⟨henable, hwin, -⟩ := hopen
  have hclosed : r.baseAddrEnableReg i = false := by
    have hnot : (!r.baseAddrEnableReg i) = true := henable
    rwa [Bool.not_eq_true'] at hnot
  unfold ethWinOverlapDetect at htest
  rw [List.any_eq_false] at htest
  have hpass := htest i (List.mem_finRange i)
  rw [if_neg hi, hclosed, if_neg (by simp), Bool.not_eq_true] at hpass
  rw [← hwin]
  exact ctrlWinOverlapTest_disjoint hpass (hinside i hi henable)

/-- A window is disabled. -/
theorem setEnable_false_opens {winNum i : Fin 6} (hopen : (r.setEnable winNum false).Opens i win) :
    r.Opens i win ∧ i ≠ winNum := by
  unfold EthRegs.Opens mvEthWinGet EthRegs.setEnable at hopen
  dsimp only at hopen
  by_cases hi : i = winNum
  · rw [hi, Function.update_self] at hopen
    cases hopen.1
  · rw [Function.update_of_ne hi] at hopen
    exact ⟨hopen, hi⟩

/-- A window is enabled. -/
theorem setEnable_true_opens {winNum i : Fin 6} (hi : i ≠ winNum)
    (hopen : (r.setEnable winNum true).Opens i win) : r.Opens i win := by
  unfold EthRegs.Opens mvEthWinGet EthRegs.setEnable at hopen
  dsimp only at hopen
  rw [Function.update_of_ne hi] at hopen
  exact hopen

/-- `mvEthWinEnable` keeps the windows apart. -/
theorem mvEthWinEnable_disjoint {winNum : ℕ} {enable : Bool} (h : r.WindowsDisjoint)
    (hok : enable = true → ∀ hlt : winNum < 6,
      EthNotInside r ⟨winNum, hlt⟩ (mvEthWinGet r ⟨winNum, hlt⟩).addrWin) :
    (mvEthWinEnable r winNum enable).2.WindowsDisjoint := by
  unfold mvEthWinEnable
  by_cases hlt : winNum < 6
  · rw [dif_pos hlt]
    cases enable with
    | false => exact Apart.mono h fun i win hopen => (setEnable_false_opens hopen).1
    | true =>
      rw [if_pos rfl]
      by_cases htest : ethWinOverlapDetect r ⟨winNum, hlt⟩
          (mvEthWinGet r ⟨winNum, hlt⟩).addrWin = true
      · rw [if_pos htest]
        exact h
      · rw [if_neg htest]
        rw [Bool.not_eq_true] at htest
        refine @Apart.open (mvEthWinGet r ⟨winNum, hlt⟩).addrWin _ _ _ h ⟨winNum, hlt⟩ ?_ ?_
        · intro j win' hj hopen
          have hbefore := setEnable_true_opens hj hopen
          exact ⟨hbefore, ethWinOverlapDetect_disjoint htest (hok rfl hlt) hj hbefore⟩
        · intro win' hopen
          rw [← hopen.2.1]
          exact subset_rfl
  · rw [dif_neg hlt]
    exact h

/-- The other windows when one is closed and written. -/
theorem mvEthWinGet_write_of_ne {winNum i : Fin 6} {window : EthWindow} (hi : i ≠ winNum) :
    mvEthWinGet ((r.setEnable winNum false).write winNum window) i = mvEthWinGet r i := by
  unfold mvEthWinGet EthRegs.write EthRegs.setEnable
  dsimp only
  rw [Function.update_of_ne hi, Function.update_of_ne hi]

/-- A window that is closed and written. -/
theorem mvEthWinGet_write_self {winNum : Fin 6} {window : EthWindow} :
    (mvEthWinGet ((r.setEnable winNum false).write winNum window) winNum).enable = false ∧
      (mvEthWinGet ((r.setEnable winNum false).write winNum window) winNum).addrWin =
        mvCtrlRegToAddrDec window.regs := by
  unfold mvEthWinGet EthRegs.write EthRegs.setEnable
  dsimp only
  rw [Function.update_self, Function.update_self]
  exact ⟨rfl, rfl⟩

/-- No window is opened when one is closed and written. -/
theorem write_opens {winNum i : Fin 6} {window : EthWindow}
    (hopen : ((r.setEnable winNum false).write winNum window).Opens i win) : r.Opens i win := by
  unfold EthRegs.Opens at hopen
  by_cases hi : i = winNum
  · rw [hi, mvEthWinGet_write_self.1] at hopen
    cases hopen.1
  · rw [mvEthWinGet_write_of_ne hi] at hopen
    exact hopen

/-- `mvEthWinSet` keeps the windows apart. -/
theorem mvEthWinSet_disjoint {winNum : ℕ} {decWin : EthDecWin} (h : r.WindowsDisjoint)
    (hok : decWin.enable = true → ∀ hlt : winNum < 6,
      EthNotInside r ⟨winNum, hlt⟩ decWin.addrWin) :
    (mvEthWinSet r winNum decWin).2.WindowsDisjoint := by
  unfold mvEthWinSet
  by_cases hlt : winNum < 6
  · rw [dif_pos hlt]
    by_cases htest : ethWinOverlapDetect r ⟨winNum, hlt⟩ decWin.addrWin = true
    · rw [if_pos htest]
      exact h
    · rw [if_neg htest]
      by_cases halign : isNotAlign decWin.addrWin.baseLow decWin.addrWin.size = true
      · rw [if_pos halign]
        exact h
      · rw [if_neg halign]
        cases hregs : mvCtrlAddrDecToReg decWin.addrWin with
        | none => exact h
        | some regs =>
          have hback := (mvCtrlRegToAddrDec_of_written (Bool.eq_false_iff.mpr halign) hregs).1
          have hclosed : (mvEthWinEnable r winNum false).2 = r.setEnable ⟨winNum, hlt⟩ false := by
            unfold mvEthWinEnable
            rw [dif_pos hlt]
            rfl
          dsimp only
          rw [hclosed]
          cases henable : decWin.enable with
          | false => exact Apart.mono h fun i win => write_opens
          | true =>
            refine mvEthWinEnable_disjoint (Apart.mono h fun i win => write_opens) ?_
            intro _ hlt' i hi hopen
            rw [mvEthWinGet_write_of_ne hi] at hopen ⊢
            rw [mvEthWinGet_write_self.2, hback]
            exact hok henable hlt i hi hopen
  · rw [dif_neg hlt]
    exact h

/-! ### Runs -/

/-- The calls for the windows of the Ethernet unit. -/
inductive EthCall
  | winSet (winNum : ℕ) (decWin : EthDecWin)
  | winEnable (winNum : ℕ) (enable : Bool)
  deriving DecidableEq, Repr

/-- One call. -/
def ethStep (r : EthRegs) : EthCall → Option (MvStatus × EthRegs)
  | .winSet winNum decWin => some (mvEthWinSet r winNum decWin)
  | .winEnable winNum enable => some (mvEthWinEnable r winNum enable)

/-- The condition on a call: no window is opened inside another one. -/
def EthCallOk (r : EthRegs) : EthCall → Prop
  | .winSet winNum decWin => decWin.enable = true → ∀ hlt : winNum < 6,
      EthNotInside r ⟨winNum, hlt⟩ decWin.addrWin
  | .winEnable winNum enable => enable = true → ∀ hlt : winNum < 6,
      EthNotInside r ⟨winNum, hlt⟩ (mvEthWinGet r ⟨winNum, hlt⟩).addrWin

instance (r : EthRegs) (winNum : Fin 6) (win : AddrWin) : Decidable (EthNotInside r winNum win) :=
  inferInstanceAs (Decidable (∀ i : Fin 6, i ≠ winNum → _ = true → ¬ win.Inside _))

instance (r : EthRegs) : (call : EthCall) → Decidable (EthCallOk r call)
  | .winSet winNum decWin => inferInstanceAs (Decidable (_ → ∀ hlt : winNum < 6,
      EthNotInside r ⟨winNum, hlt⟩ decWin.addrWin))
  | .winEnable winNum _ => inferInstanceAs (Decidable (_ → ∀ hlt : winNum < 6,
      EthNotInside r ⟨winNum, hlt⟩ (mvEthWinGet r ⟨winNum, hlt⟩).addrWin))

/-- The windows of the Ethernet unit stay apart along every run of calls that meet the
condition. -/
theorem ethRun_disjoint {calls : List (EthCall × MvStatus)} (h : r.WindowsDisjoint)
    (hrun : Run ethStep EthCallOk r calls r') : r'.WindowsDisjoint := by
  refine Run.invariant (I := fun _ r => r.WindowsDisjoint) h ?_ hrun
  intro calls r call status r' h hok hstep
  cases call with
  | winSet winNum decWin =>
    obtain rfl : (mvEthWinSet r winNum decWin).2 = r' := congrArg Prod.snd (Option.some.inj hstep)
    exact mvEthWinSet_disjoint h hok
  | winEnable winNum enable =>
    obtain rfl : (mvEthWinEnable r winNum enable).2 = r' :=
      congrArg Prod.snd (Option.some.inj hstep)
    exact mvEthWinEnable_disjoint h hok

/-- The windows of the processor and those of the Ethernet unit stay apart along all runs of calls
that meet the conditions. -/
theorem runs_windowsDisjoint (cpu cpu' : CpuRegs) (cpuCalls : List (CpuCall × MvStatus))
    (eth eth' : EthRegs) (ethCalls : List (EthCall × MvStatus)) :
    (cpu.WindowsDisjoint → Run cpuStep CpuCallOk cpu cpuCalls cpu' → cpu'.WindowsDisjoint) ∧
      (eth.WindowsDisjoint → Run ethStep EthCallOk eth ethCalls eth' → eth'.WindowsDisjoint) :=
  ⟨cpuRun_disjoint, ethRun_disjoint⟩

/-- Only the window of the internal registers is open. -/
def closedCpu : CpuRegs :=
  ⟨fun _ => ⟨⟨0, 0⟩, false⟩, fun _ => ⟨⟨0, 0⟩, 0, 0, false⟩, 0xf100⟩

theorem closedCpu_disjoint : closedCpu.WindowsDisjoint := by
  have hopen : ∀ i win, closedCpu.Opens i win → i = .interRegs := by
    rintro i win ⟨decWin, hread, henable, -⟩
    cases i with
    | dram cs =>
      unfold CpuRegs.read mvDramIfWinGet at hread
      dsimp only at hread
      split_ifs at hread
      rw [← Option.some.inj hread] at henable
      cases henable
    | ahb winNum =>
      unfold CpuRegs.read mvAhbToMbusWinGet at hread
      dsimp only at hread
      rw [dif_pos winNum.isLt] at hread
      split_ifs at hread
      rw [← Option.some.inj hread] at henable
      cases henable
    | interRegs => rfl
  intro i j win win' hij hi hj
  exact absurd ((hopen i win hi).trans (hopen j win' hj).symm) hij

/-- No window is open. -/
def closedEth : EthRegs := ⟨fun _ => ⟨⟨0, 0⟩, 0, 0⟩, fun _ => true⟩

theorem closedEth_disjoint : closedEth.WindowsDisjoint := by
  intro i j win win' _ hi
  cases hi.1

/-- The first 256 MB of the memory, and a window behind them. -/
def apartCalls : List CpuCall :=
  [.winSet (some .sdramCs0) ⟨⟨0, 0x10000000⟩, true, 0⟩,
    .winSet (some .pex0Mem) ⟨⟨0xe0000000, 0x08000000⟩, true, 0⟩]

/-- Two windows that are adjacent. -/
def adjacentCalls : List EthCall :=
  [.winSet 0 ⟨⟨0, 0x10000000⟩, .sdramCs0, true⟩,
    .winSet 1 ⟨⟨0x10000000, 0x10000000⟩, .sdramCs1, true⟩]

theorem apartCalls_disjoint :
    (∃ calls r, exec cpuStep CpuCallOk closedCpu apartCalls = some (calls, r) ∧
      r.WindowsDisjoint) ∧
    ∃ calls r, exec ethStep EthCallOk closedEth adjacentCalls = some (calls, r) ∧
      r.WindowsDisjoint := by
  constructor
  · have hend : (exec cpuStep CpuCallOk closedCpu apartCalls).isSome = true := by
      decide
    obtain ⟨⟨calls, r⟩, hexec⟩ := Option.isSome_iff_exists.mp hend
    exact ⟨calls, r, hexec,
      (runs_windowsDisjoint closedCpu r calls closedEth closedEth []).1 closedCpu_disjoint
        (Run.of_exec _ hexec)⟩
  · have hend : (exec ethStep EthCallOk closedEth adjacentCalls).isSome = true := by
      decide
    obtain ⟨⟨calls, r⟩, hexec⟩ := Option.isSome_iff_exists.mp hend
    exact ⟨calls, r, hexec,
      (runs_windowsDisjoint closedCpu closedCpu [] closedEth r calls).2 closedEth_disjoint
        (Run.of_exec _ hexec)⟩

/-- A window is opened in the middle of the memory. -/
def insideCalls : List CpuCall :=
  [.winSet (some .sdramCs0) ⟨⟨0, 0x10000000⟩, true, 0⟩,
    .winSet (some .pex0Mem) ⟨⟨0x04000000, 0x04000000⟩, true, 0⟩]

/-- A window is opened in the middle of another one. -/
def insideEthCalls : List EthCall :=
  [.winSet 0 ⟨⟨0, 0x10000000⟩, .sdramCs0, true⟩,
    .winSet 1 ⟨⟨0x04000000, 0x04000000⟩, .pex0Mem, true⟩]

/-- The addresses of the inner window belong to both. -/
theorem inside_not_disjoint :
    ¬ Disjoint (AddrWin.addresses ⟨0, 0x10000000⟩)
      (AddrWin.addresses ⟨0x04000000, 0x04000000⟩) := by
  rw [Set.not_disjoint_iff]
  exact ⟨0x04000000, ⟨by decide, by decide⟩, ⟨by decide, by decide⟩⟩

/-- Neither the windows of the processor nor those of the Ethernet unit stay apart. -/
theorem insideCalls_overlap :
    (¬ ∀ (r r' : CpuRegs) (calls : List (CpuCall × MvStatus)), r.WindowsDisjoint →
        Run cpuStep (fun _ _ => True) r calls r' → r'.WindowsDisjoint) ∧
      ¬ ∀ (r r' : EthRegs) (calls : List (EthCall × MvStatus)), r.WindowsDisjoint →
        Run ethStep (fun _ _ => True) r calls r' → r'.WindowsDisjoint := by
  constructor
  · intro hall
    have hend : (exec cpuStep (fun _ _ => True) closedCpu insideCalls).map
        (fun result => (result.2.read (.dram 0), result.2.read (.ahb 0))) =
          some (some ⟨⟨0, 0x10000000⟩, none, true⟩,
            some ⟨⟨0x04000000, 0x04000000⟩, some .pex0Mem, true⟩) := by
      decide
    rw [Option.map_eq_some_iff] at hend
    obtain ⟨⟨calls, r⟩, hexec, hend⟩ := hend
    simp only [Prod.mk.injEq] at hend
    exact inside_not_disjoint (hall closedCpu r calls closedCpu_disjoint (Run.of_exec _ hexec)
      (.dram 0) (.ahb 0) _ _ (by simp) ⟨_, hend.1, rfl, rfl⟩ ⟨_, hend.2, rfl, rfl⟩)
  · intro hall
    have hend : (exec ethStep (fun _ _ => True) closedEth insideEthCalls).map
        (fun result => (mvEthWinGet result.2 0, mvEthWinGet result.2 1)) =
          some (⟨⟨0, 0x10000000⟩, some .sdramCs0, true⟩,
            ⟨⟨0x04000000, 0x04000000⟩, some .pex0Mem, true⟩) := by
      decide
    rw [Option.map_eq_some_iff] at hend
    obtain ⟨⟨calls, r⟩, hexec, hend⟩ := hend
    simp only [Prod.mk.injEq] at hend
    have hfirst : r.Opens 0 ⟨0, 0x10000000⟩ := by
      unfold EthRegs.Opens
      rw [hend.1]
      exact ⟨rfl, rfl, by decide⟩
    have hsecond : r.Opens 1 ⟨0x04000000, 0x04000000⟩ := by
      unfold EthRegs.Opens
      rw [hend.2]
      exact ⟨rfl, rfl, by decide⟩
    exact inside_not_disjoint (hall closedEth r calls closedEth_disjoint (Run.of_exec _ hexec) 0 1
      _ _ (by decide) hfirst hsecond)

end Mv88fxx81.Soc
