import Mv88fxx81.Soc.EthWindows
import Mv88fxx81.Soc.LegalWindows
import Mv88fxx81.Soc.WinRoundTrip

/-!
# The start of the windows of the Ethernet unit

`mvEthWinInit` closes all windows of the unit and copies the open windows of the processor into
them, in the order of a table of targets and as far as they fit. Afterwards the unit sees the
targets where the processor sees them. It succeeds when the windows of the processor can be
written to registers and are apart.
-/

namespace Mv88fxx81.Soc

/-- `ethAddrDecPrioTap`. -/
def ethAddrDecPrioTap : List Target :=
  [.pex0Mem, .pci0Mem, .sdramCs0, .sdramCs1, .sdramCs2, .sdramCs3, .deviceCs0, .deviceCs1,
    .deviceCs2, .devBoocs, .pex0Io, .pci0Io]

/-- The windows of the unit and its `ETH_ACCESS_PROTECT_REG` registers, one for each port. -/
structure EthUnit where
  regs : EthRegs
  accessProtect : ℕ → BitVec 32

/-- The loop of `mvEthWinInit`, from a window number on. -/
def ethWinInitLoop (cpu : CpuRegs) : List Target → ℕ → EthRegs → MvStatus × ℕ × EthRegs
  | [], winNum, r => (.ok, winNum, r)
  | target :: targets, winNum, r =>
    if winNum < 6 then
      match mvCpuIfTargetWinGet cpu target with
      | .error .noSuch => ethWinInitLoop cpu targets winNum r
      | .error _ => (.error, winNum, r)
      | .ok cpuAddrDecWin =>
        if cpuAddrDecWin.enable then
          let set := mvEthWinSet r winNum ⟨cpuAddrDecWin.addrWin, target, true⟩
          if set.1 = .ok then ethWinInitLoop cpu targets (winNum + 1) set.2
          else (.error, winNum, set.2)
        else ethWinInitLoop cpu targets winNum r
    else (.ok, winNum, r)

/-- The loop that gives full access to the first windows. -/
def fullAccess (winNum : ℕ) : BitVec 32 :=
  (List.range winNum).foldl (fun reg i => reg ||| (3 : BitVec 32) <<< (i * 2)) 0

/-- `mvEthWinInit` for a unit with a number of ports. -/
def mvEthWinInit (cpu : CpuRegs) (ports : ℕ) (unit : EthUnit) : MvStatus × EthUnit :=
  let closed : EthRegs := { unit.regs with baseAddrEnableReg := fun _ => true }
  let (status, winNum, regs) := ethWinInitLoop cpu ethAddrDecPrioTap 0 closed
  if status = .ok then
    (.ok, ⟨regs, fun port => if port < ports then fullAccess winNum else unit.accessProtect port⟩)
  else (.error, ⟨regs, unit.accessProtect⟩)

variable {cpu : CpuRegs} {r r' : EthRegs} {unit unit' : EthUnit} {ports winNum : ℕ}
  {target : Target} {win : AddrWin} {targets : List Target} {placed : List (Target × AddrWin)}

/-! ### Setting a window -/

/-- The targets of the table are told by their attributes. -/
theorem mvCtrlTargetGet_prioTap (htarget : target ∈ ethAddrDecPrioTap) :
    mvCtrlTargetGet ⟨(mvCtrlAttribGet target).attrib,
      ((mvCtrlAttribGet target).targetId.setWidth 4).setWidth 8⟩ = some target := by
  revert target
  decide

/-- The test looks at the other windows only. -/
theorem ethWinOverlapDetect_congr {i : Fin 6}
    (hother : ∀ j ≠ i, mvEthWinGet r' j = mvEthWinGet r j) :
    ethWinOverlapDetect r' i win = ethWinOverlapDetect r i win := by
  unfold ethWinOverlapDetect
  congr 1
  funext j
  by_cases hj : j = i
  · rw [if_pos hj, if_pos hj]
  · have hget := hother j hj
    have henable : (!r'.baseAddrEnableReg j) = !r.baseAddrEnableReg j := congrArg DecWin.enable hget
    rw [if_neg hj, if_neg hj, hget, Bool.not_inj henable]

/-- A window that is opened. -/
theorem mvEthWinGet_setEnable {i : Fin 6} :
    mvEthWinGet (r.setEnable i true) i = { mvEthWinGet r i with enable := true } ∧
      ∀ j ≠ i, mvEthWinGet (r.setEnable i true) j = mvEthWinGet r j := by
  unfold mvEthWinGet EthRegs.setEnable
  dsimp only
  refine ⟨by rw [Function.update_self]; rfl, fun j hj => ?_⟩
  rw [Function.update_of_ne hj]

/-- The registers that an open window is set to. -/
def writtenWindow (r : EthRegs) (i : Fin 6) (regs : DecRegs) (target : Target) : EthRegs :=
  (r.setEnable i false).write i
    ⟨regs, (mvCtrlAttribGet target).attrib, (mvCtrlAttribGet target).targetId.setWidth 4⟩

/-- What setting an open window does. -/
theorem mvEthWinSet_true (hlt : winNum < 6) {regs : DecRegs}
    (htest : ethWinOverlapDetect r ⟨winNum, hlt⟩ win = false)
    (halign : isNotAlign win.baseLow win.size = false)
    (hregs : mvCtrlAddrDecToReg win = some regs) :
    mvEthWinSet r winNum ⟨win, target, true⟩ =
      (.ok, (writtenWindow r ⟨winNum, hlt⟩ regs target).setEnable ⟨winNum, hlt⟩ true) := by
  have hback := (mvCtrlRegToAddrDec_of_written halign hregs).1
  have hclosed : (mvEthWinEnable r winNum false).2 = r.setEnable ⟨winNum, hlt⟩ false := by
    unfold mvEthWinEnable
    rw [dif_pos hlt]
    rfl
  have hagain : ethWinOverlapDetect (writtenWindow r ⟨winNum, hlt⟩ regs target) ⟨winNum, hlt⟩ win =
      false :=
    (ethWinOverlapDetect_congr fun j hj => mvEthWinGet_write_of_ne hj).trans htest
  have hwin : (mvEthWinGet (writtenWindow r ⟨winNum, hlt⟩ regs target) ⟨winNum, hlt⟩).addrWin =
      win := mvEthWinGet_write_self.2.trans hback
  have hopened : (mvEthWinEnable (writtenWindow r ⟨winNum, hlt⟩ regs target) winNum true).2 =
      (writtenWindow r ⟨winNum, hlt⟩ regs target).setEnable ⟨winNum, hlt⟩ true := by
    unfold mvEthWinEnable
    rw [dif_pos hlt, if_pos rfl, hwin, if_neg (Bool.eq_false_iff.mp hagain)]
  unfold mvEthWinSet
  rw [dif_pos hlt]
  dsimp only
  rw [if_neg (Bool.eq_false_iff.mp htest), if_neg (Bool.eq_false_iff.mp halign), hregs]
  dsimp only
  rw [if_pos rfl, hclosed]
  exact congrArg (Prod.mk MvStatus.ok) hopened

/-- Setting an open window succeeds for a well-formed window that the test lets pass. -/
theorem mvEthWinSet_ok_iff (hlt : winNum < 6) :
    (mvEthWinSet r winNum ⟨win, target, true⟩).1 = .ok ↔
      ethWinOverlapDetect r ⟨winNum, hlt⟩ win = false ∧ win.WellFormed := by
  rw [wellFormed_iff]
  constructor
  · intro hok
    unfold mvEthWinSet at hok
    rw [dif_pos hlt] at hok
    dsimp only at hok
    by_cases htest : ethWinOverlapDetect r ⟨winNum, hlt⟩ win = true
    · rw [if_pos htest] at hok
      cases hok
    · rw [if_neg htest] at hok
      by_cases halign : isNotAlign win.baseLow win.size = true
      · rw [if_pos halign] at hok
        cases hok
      · rw [if_neg halign] at hok
        cases hregs : mvCtrlAddrDecToReg win with
        | none =>
          rw [hregs] at hok
          cases hok
        | some regs =>
          exact ⟨Bool.eq_false_iff.mpr htest, Bool.eq_false_iff.mpr halign, regs, rfl⟩
  · rintro ⟨htest, halign, regs, hregs⟩
    rw [mvEthWinSet_true hlt htest halign hregs]

/-- An open window after it has been set, and the others. -/
theorem mvEthWinSet_get (hlt : winNum < 6) (htarget : target ∈ ethAddrDecPrioTap)
    (hok : (mvEthWinSet r winNum ⟨win, target, true⟩).1 = .ok) :
    mvEthWinGet (mvEthWinSet r winNum ⟨win, target, true⟩).2 ⟨winNum, hlt⟩ =
        ⟨win, some target, true⟩ ∧
      ∀ i ≠ ⟨winNum, hlt⟩, mvEthWinGet (mvEthWinSet r winNum ⟨win, target, true⟩).2 i =
        mvEthWinGet r i := by
  obtain ⟨htest, hform⟩ := (mvEthWinSet_ok_iff hlt).mp hok
  obtain ⟨halign, regs, hregs⟩ := wellFormed_iff.mp hform
  have hback := (mvCtrlRegToAddrDec_of_written halign hregs).1
  rw [mvEthWinSet_true hlt htest halign hregs]
  refine ⟨?_, fun i hi => ?_⟩
  · have hget : mvEthWinGet (writtenWindow r ⟨winNum, hlt⟩ regs target) ⟨winNum, hlt⟩ =
        ⟨win, some target, false⟩ := by
      unfold writtenWindow mvEthWinGet EthRegs.write EthRegs.setEnable
      dsimp only
      rw [Function.update_self, Function.update_self, hback, mvCtrlTargetGet_prioTap htarget]
      rfl
    rw [mvEthWinGet_setEnable.1, hget]
  · rw [mvEthWinGet_setEnable.2 i hi]
    exact mvEthWinGet_write_of_ne hi

/-! ### The loop -/

/-- The window of the processor for a target, when it is open. -/
def openWindow (cpu : CpuRegs) (target : Target) : Option (Target × AddrWin) :=
  match mvCpuIfTargetWinGet cpu target with
  | .ok decWin => if decWin.enable then some (target, decWin.addrWin) else none
  | .error _ => none

/-- The open windows of some targets, in their order. -/
def openWindows (cpu : CpuRegs) (targets : List Target) : List (Target × AddrWin) :=
  targets.filterMap (openWindow cpu)

/-- The first windows of the unit are those of a list, and the others are closed. -/
def Holds (r : EthRegs) (placed : List (Target × AddrWin)) : Prop :=
  ∀ i : Fin 6, match placed[i.val]? with
    | some p => mvEthWinGet r i = ⟨p.2, some p.1, true⟩
    | none => (mvEthWinGet r i).enable = false

theorem Holds.set (h : Holds r placed) (hlt : placed.length < 6)
    (htarget : target ∈ ethAddrDecPrioTap)
    (hok : (mvEthWinSet r placed.length ⟨win, target, true⟩).1 = .ok) :
    Holds (mvEthWinSet r placed.length ⟨win, target, true⟩).2 (placed ++ [(target, win)]) := by
  obtain ⟨hself, hother⟩ := mvEthWinSet_get hlt htarget hok
  intro i
  by_cases hi : i = ⟨placed.length, hlt⟩
  · subst hi
    rw [List.getElem?_concat_length]
    exact hself
  · have hne : i.val ≠ placed.length := fun heq => hi (Fin.ext heq)
    have hget := h i
    rw [hother i hi]
    by_cases hbelow : i.val < placed.length
    · rw [List.getElem?_append_left hbelow]
      exact hget
    · rw [List.getElem?_eq_none (by rw [List.length_append, List.length_singleton]; omega)]
      rw [List.getElem?_eq_none (by omega)] at hget
      exact hget

theorem openWindow_ok {decWin : DecWin} (hget : mvCpuIfTargetWinGet cpu target = .ok decWin) :
    openWindow cpu target = if decWin.enable then some (target, decWin.addrWin) else none := by
  rw [openWindow, hget]

theorem openWindow_error {status : MvStatus}
    (hget : mvCpuIfTargetWinGet cpu target = .error status) : openWindow cpu target = none := by
  rw [openWindow, hget]

/-- The loop passes by a target that is not there or whose window is closed. -/
theorem ethWinInitLoop_skip (hlt : winNum < 6)
    (hskip : mvCpuIfTargetWinGet cpu target = .error .noSuch ∨
      ∃ decWin, mvCpuIfTargetWinGet cpu target = .ok decWin ∧ decWin.enable = false) :
    ethWinInitLoop cpu (target :: targets) winNum r = ethWinInitLoop cpu targets winNum r := by
  rw [ethWinInitLoop, if_pos hlt]
  obtain hget | ⟨decWin, hget, henable⟩ := hskip
  · rw [hget]
  · rw [hget]
    dsimp only
    rw [henable, if_neg Bool.false_ne_true]

/-- The loop copies an open window. -/
theorem ethWinInitLoop_copy (hlt : winNum < 6) {decWin : DecWin}
    (hget : mvCpuIfTargetWinGet cpu target = .ok decWin) (henable : decWin.enable = true) :
    ethWinInitLoop cpu (target :: targets) winNum r =
      if (mvEthWinSet r winNum ⟨decWin.addrWin, target, true⟩).1 = .ok then
        ethWinInitLoop cpu targets (winNum + 1)
          (mvEthWinSet r winNum ⟨decWin.addrWin, target, true⟩).2
      else (.error, winNum, (mvEthWinSet r winNum ⟨decWin.addrWin, target, true⟩).2) := by
  rw [ethWinInitLoop, if_pos hlt, hget]
  dsimp only
  rw [if_pos henable]

theorem ethWinInitLoop_full (hfull : 6 ≤ winNum) :
    ethWinInitLoop cpu targets winNum r = (.ok, winNum, r) := by
  cases targets with
  | nil => rfl
  | cons target targets => rw [ethWinInitLoop, if_neg (by omega)]

/-- What the loop has copied when it succeeds. -/
structure Copied (cpu : CpuRegs) (targets : List Target) (placed : List (Target × AddrWin))
    (result : MvStatus × ℕ × EthRegs) : Prop where
  winNum_eq : result.2.1 = ((placed ++ openWindows cpu targets).take 6).length
  holds : Holds result.2.2 ((placed ++ openWindows cpu targets).take 6)

/-- When the loop succeeds, it has copied the open windows as far as they fit. -/
theorem ethWinInitLoop_copied (hsub : ∀ target ∈ targets, target ∈ ethAddrDecPrioTap)
    (h : Holds r placed) (hle : placed.length ≤ 6)
    (hok : (ethWinInitLoop cpu targets placed.length r).1 = .ok) :
    Copied cpu targets placed (ethWinInitLoop cpu targets placed.length r) := by
  induction targets generalizing placed r with
  | nil =>
    have hall : (placed ++ openWindows cpu []).take 6 = placed := by
      rw [openWindows, List.filterMap_nil, List.append_nil, List.take_of_length_le hle]
    rw [ethWinInitLoop]
    exact ⟨by rw [hall], by rw [hall]; exact h⟩
  | cons target targets ih =>
    have hrest : ∀ target ∈ targets, target ∈ ethAddrDecPrioTap := fun t ht =>
      hsub t (List.mem_cons_of_mem _ ht)
    by_cases hlt : placed.length < 6
    · have hskip : ∀ hnone : openWindow cpu target = none,
          ethWinInitLoop cpu (target :: targets) placed.length r =
            ethWinInitLoop cpu targets placed.length r →
          Copied cpu (target :: targets) placed
            (ethWinInitLoop cpu (target :: targets) placed.length r) := by
        intro hnone hloop
        rw [hloop] at hok ⊢
        have hcopied := ih hrest h hle hok
        have hsame : openWindows cpu (target :: targets) = openWindows cpu targets :=
          List.filterMap_cons_none hnone
        exact ⟨by rw [hsame]; exact hcopied.winNum_eq, by rw [hsame]; exact hcopied.holds⟩
      cases hget : mvCpuIfTargetWinGet cpu target with
      | error status =>
        by_cases hno : status = .noSuch
        · exact hskip (openWindow_error hget)
            (ethWinInitLoop_skip hlt (.inl (hget.trans (congrArg Except.error hno))))
        · rw [ethWinInitLoop, if_pos hlt, hget] at hok
          cases status with
          | noSuch => exact absurd rfl hno
          | ok | error | badParam | notSupported => cases hok
      | ok decWin =>
        cases henable : decWin.enable with
        | false =>
          refine hskip ?_ (ethWinInitLoop_skip hlt (.inr ⟨decWin, hget, henable⟩))
          rw [openWindow_ok hget, henable, if_neg Bool.false_ne_true]
        | true =>
          rw [ethWinInitLoop_copy hlt hget henable] at hok ⊢
          by_cases hset : (mvEthWinSet r placed.length ⟨decWin.addrWin, target, true⟩).1 = .ok
          · rw [if_pos hset] at hok ⊢
            have hlen : placed.length + 1 = (placed ++ [(target, decWin.addrWin)]).length := by
              rw [List.length_append, List.length_singleton]
            have hmore : placed ++ openWindows cpu (target :: targets) =
                placed ++ [(target, decWin.addrWin)] ++ openWindows cpu targets := by
              rw [openWindows, List.filterMap_cons_some (b := (target, decWin.addrWin))
                (by rw [openWindow_ok hget, if_pos henable]), List.append_assoc]
              rfl
            rw [hlen] at hok ⊢
            have hcopied := ih hrest (h.set hlt (hsub target List.mem_cons_self) hset)
              (by omega) hok
            exact ⟨by rw [hmore]; exact hcopied.winNum_eq, by rw [hmore]; exact hcopied.holds⟩
          · rw [if_neg hset] at hok
            cases hok
    · have hfull : (placed ++ openWindows cpu (target :: targets)).take 6 = placed := by
        rw [List.take_append_of_le_length (by omega), List.take_of_length_le hle]
      rw [ethWinInitLoop_full (by omega)]
      exact ⟨by rw [hfull], by rw [hfull]; exact h⟩

/-! ### What the unit sees -/

/-- The processor reaches an address of a target. -/
def CpuRegs.Reaches (cpu : CpuRegs) (target : Target) (addr : ℕ) : Prop :=
  ∃ decWin, mvCpuIfTargetWinGet cpu target = .ok decWin ∧ decWin.enable = true ∧
    addr ∈ decWin.addrWin.addresses

/-- The unit reaches an address of a target. -/
def EthRegs.Reaches (r : EthRegs) (target : Target) (addr : ℕ) : Prop :=
  ∃ i, (mvEthWinGet r i).enable = true ∧ (mvEthWinGet r i).target = some target ∧
    addr ∈ (mvEthWinGet r i).addrWin.addresses

theorem openWindow_eq_some {p : Target × AddrWin} :
    openWindow cpu target = some p ↔ p.1 = target ∧
      ∃ decWin, mvCpuIfTargetWinGet cpu target = .ok decWin ∧ decWin.enable = true ∧
        decWin.addrWin = p.2 := by
  cases hget : mvCpuIfTargetWinGet cpu target with
  | error status =>
    rw [openWindow_error hget]
    constructor
    · intro h
      cases h
    · rintro ⟨-, decWin, h, -⟩
      cases h
  | ok decWin =>
    rw [openWindow_ok hget]
    constructor
    · intro h
      split_ifs at h with henable
      cases h
      exact ⟨rfl, decWin, rfl, henable, rfl⟩
    · rintro ⟨rfl, decWin', h, henable, hwin⟩
      cases h
      rw [if_pos henable, hwin]

/-- The targets whose windows are copied. -/
def copiedTargets (cpu : CpuRegs) : List Target :=
  ((openWindows cpu ethAddrDecPrioTap).take 6).map Prod.fst

/-- The unit sees the copied targets where the processor sees them, and no others. -/
theorem Holds.reaches_iff (h : Holds r ((openWindows cpu ethAddrDecPrioTap).take 6)) {addr : ℕ} :
    r.Reaches target addr ↔ target ∈ copiedTargets cpu ∧ cpu.Reaches target addr := by
  have hopen : ∀ p ∈ (openWindows cpu ethAddrDecPrioTap).take 6,
      openWindow cpu p.1 = some p := by
    intro p hp
    obtain ⟨t, -, ht⟩ := List.mem_filterMap.mp (List.mem_of_mem_take hp)
    rw [(openWindow_eq_some.mp ht).1]
    exact ht
  constructor
  · rintro ⟨i, henable, htarget, haddr⟩
    have hi := h i
    cases hp : ((openWindows cpu ethAddrDecPrioTap).take 6)[i.val]? with
    | none =>
      rw [hp] at hi
      dsimp only at hi
      rw [hi] at henable
      cases henable
    | some p =>
      rw [hp] at hi
      dsimp only at hi
      rw [hi] at htarget haddr
      obtain rfl := Option.some.inj htarget
      have hmem := List.mem_of_getElem? hp
      obtain ⟨-, decWin, hget, henable, hwin⟩ := openWindow_eq_some.mp (hopen p hmem)
      rw [← hwin] at haddr
      exact ⟨List.mem_map_of_mem hmem, decWin, hget, henable, haddr⟩
  · rintro ⟨hmem, decWin, hget, henable, haddr⟩
    obtain ⟨p, hp, rfl⟩ := List.mem_map.mp hmem
    obtain ⟨-, decWin', hget', -, hwin⟩ := openWindow_eq_some.mp (hopen p hp)
    obtain rfl : decWin = decWin' := by
      rw [hget] at hget'
      exact Except.ok.inj hget'
    obtain ⟨i, hi, hpi⟩ := List.getElem_of_mem hp
    have hlt : i < 6 := lt_of_lt_of_le hi (List.length_take_le _ _)
    have hwindow := h ⟨i, hlt⟩
    rw [List.getElem?_eq_getElem hi, hpi] at hwindow
    dsimp only at hwindow
    refine ⟨⟨i, hlt⟩, ?_, ?_, ?_⟩
    · rw [hwindow]
    · rw [hwindow]
    · rw [hwindow, ← hwin]
      exact haddr

/-- The access of a window in a register with full access to the first ones. -/
theorem fullAccess_window {n : ℕ} (hn : n ≤ 6) {i : ℕ} (hi : i < 16) :
    (fullAccess n >>> (i * 2)) &&& 3 = if i < n then 3 else 0 := by
  have hall : ∀ n : Fin 7, ∀ i : Fin 16,
      (fullAccess n.val >>> (i.val * 2)) &&& 3 = if i.val < n.val then 3 else 0 := by decide
  exact hall ⟨n, by omega⟩ ⟨i, hi⟩

theorem holds_closed (r : EthRegs) : Holds { r with baseAddrEnableReg := fun _ => true } [] := by
  intro i
  rfl

/-- After a start that succeeds the unit reaches the copied targets at the addresses where the
processor reaches them, and nothing else, and its ports have full access to these windows only. -/
theorem mvEthWinInit_reaches (hok : (mvEthWinInit cpu ports unit).1 = .ok) :
    (∀ target addr, (mvEthWinInit cpu ports unit).2.regs.Reaches target addr ↔
      target ∈ copiedTargets cpu ∧ cpu.Reaches target addr) ∧
    ∀ port < ports, ∀ i < 16,
      ((mvEthWinInit cpu ports unit).2.accessProtect port >>> (i * 2)) &&& 3 =
        if i < (copiedTargets cpu).length then 3 else 0 := by
  have hloop : (ethWinInitLoop cpu ethAddrDecPrioTap 0
      { unit.regs with baseAddrEnableReg := fun _ => true }).1 = .ok := by
    unfold mvEthWinInit at hok
    dsimp only at hok
    by_contra hfail
    rw [if_neg hfail] at hok
    cases hok
  have hcopied := @ethWinInitLoop_copied cpu _ ethAddrDecPrioTap [] (fun _ h => h)
    (holds_closed unit.regs) (Nat.zero_le 6) hloop
  have hlen : (copiedTargets cpu).length ≤ 6 := by
    rw [copiedTargets, List.length_map]
    exact List.length_take_le _ _
  unfold mvEthWinInit
  dsimp only
  rw [if_pos hloop]
  refine ⟨fun target addr => hcopied.holds.reaches_iff, fun port hport i hi => ?_⟩
  have hnum : (ethWinInitLoop cpu ethAddrDecPrioTap 0
      { unit.regs with baseAddrEnableReg := fun _ => true }).2.1 = (copiedTargets cpu).length :=
    hcopied.winNum_eq.trans (List.length_map _).symm
  dsimp only
  rw [if_pos hport, hnum]
  exact fullAccess_window hlen hi

/-- A unit whose windows are closed. -/
def idleUnit : EthUnit := ⟨closedEth, fun _ => 0⟩

/-- The start with the window of the port of the processor. -/
theorem mvEthWinInit_reaches_pexCpu :
    (∀ target addr, (mvEthWinInit pexCpu 2 idleUnit).2.regs.Reaches target addr ↔
      target ∈ copiedTargets pexCpu ∧ pexCpu.Reaches target addr) ∧
    ∀ port < 2, ∀ i < 16,
      ((mvEthWinInit pexCpu 2 idleUnit).2.accessProtect port >>> (i * 2)) &&& 3 =
        if i < (copiedTargets pexCpu).length then 3 else 0 :=
  mvEthWinInit_reaches (by decide)

/-! ### When the start succeeds -/

end Mv88fxx81.Soc
