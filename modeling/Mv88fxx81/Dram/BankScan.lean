import Mv88fxx81.Dram.BankWindows

/-!
# The scan of the banks

A turn of the scan faults, fails or takes its bank, and what it does follows from the contents of
the modules and the window of bank 0 that is open. The same holds of the whole scan.
-/

namespace Mv88fxx81.Dram

open CheckedWords Contiguous
open Soc (AddrWin CpuRegs DecRegs ctrlSizeToReg ctrlWinOverlapTest isNotAlign mvCpuIfTargetWinEnable
  mvCpuIfTargetWinGet mvCtrlAddrDecToReg mvCtrlRegToAddrDec mvDramIfWinGet mvDramIfWinSet noSize
  sizeAlignment)

variable {dimms : Fin 2 → Option Spd} {regs : DramRegs} {i : Fin 4} {s : Scan} {n : ℕ}

/-- The state of the scan behind the first `n` banks, which it has taken. -/
structure ScanAt (dimms : Fin 2 → Option Spd) (regs : DramRegs) (n : ℕ) (s : Scan) : Prop where
  banks : ∀ k : Fin 4, s.banks k = if (k : ℕ) < n then bankRecord? dimms k else none
  base : s.base = BitVec.ofNat 32 (start (windowBytes dimms regs.sdramConfig) n)
  sdramConfig : s.regs.sdramConfig = regs.sdramConfig
  sdramMode : s.regs.sdramMode = regs.sdramMode
  dunitCtrl : s.regs.dunitCtrl = regs.dunitCtrl
  addrCtrl : s.regs.addrCtrl = regs.addrCtrl
  first : 0 < n → s.regs.buf 0 =
    ctrlSizeToReg (bankWindow dimms regs.sdramConfig 0).size sizeAlignment <<< 16 ||| 1
  opened : s.regs.cpu.dram 0 = regs.cpu.dram 0
  taken : ∀ k : Fin 4, (k : ℕ) < n → k ≠ 0 → bankOf dimms k ≠ none → ∃ decRegs,
    mvCtrlAddrDecToReg (bankWindow dimms regs.sdramConfig k) = some decRegs ∧
    s.regs.cpu.dram k = ⟨decRegs, true⟩
  closed : ∀ k : Fin 4, k ≠ 0 → (n ≤ k ∨ bankOf dimms k = none) →
    s.regs.cpu.dram k = ⟨(regs.cpu.dram k).regs, false⟩

/-- The banks so far are taken. -/
def PassedTo (dimms : Fin 2 → Option Spd) (regs : DramRegs) (n : ℕ) : Prop :=
  ∀ k : Fin 4, (k : ℕ) < n → Passes dimms regs.sdramConfig (openedWindow regs.cpu) k

/-! ### The windows before a turn -/

theorem openedWindow_base (hstart : StartWindows regs.cpu) :
    (openedWindow regs.cpu).baseLow = 0 := by
  unfold openedWindow mvCtrlRegToAddrDec
  rw [hstart.base]
  rfl

/-- The window of a bank that is taken, as it is read back. -/
theorem ScanAt.taken_window (hat : ScanAt dimms regs n s) (hpassed : PassedTo dimms regs n)
    {k : Fin 4} (hk : (k : ℕ) < n) (hne : k ≠ 0) (hthere : bankOf dimms k ≠ none) :
    mvCtrlRegToAddrDec (s.regs.cpu.dram k).regs = bankWindow dimms regs.sdramConfig k ∧
      (s.regs.cpu.dram k).enable = true ∧
      (bankWindow dimms regs.sdramConfig k).size ≠ noSize := by
  obtain ⟨decRegs, hregs, hdram⟩ := hat.taken k hk hne hthere
  obtain ⟨halign, -⟩ := Soc.wellFormed_iff.mp ((hpassed k hk).2.window hthere)
  obtain ⟨hback, hsize⟩ := Soc.mvCtrlRegToAddrDec_of_written halign hregs
  rw [hdram]
  exact ⟨hback, rfl, hsize⟩

theorem ScanAt.readable (hstart : StartWindows regs.cpu) (hat : ScanAt dimms regs n s)
    (hpassed : PassedTo dimms regs n) (k : Fin 4) : (mvDramIfWinGet s.regs.cpu k).isSome := by
  rw [isSome_mvDramIfWinGet]
  have hread := isSome_mvDramIfWinGet.mp (hstart.readable k)
  by_cases hzero : k = 0
  · rw [hzero, hat.opened]
    rwa [hzero] at hread
  · by_cases htaken : (k : ℕ) < n ∧ bankOf dimms k ≠ none
    · obtain ⟨hback, -, hsize⟩ := hat.taken_window hpassed htaken.1 hzero htaken.2
      rwa [hback]
    · rw [hat.closed k hzero]
      · exact hread
      · by_cases hk : (k : ℕ) < n
        · exact Or.inr (not_not.mp fun hthere => htaken ⟨hk, hthere⟩)
        · exact Or.inl (Nat.not_lt.mp hk)

/-- A window of the right form is apart from those of the banks before it. What is left is the test
against the window of bank 0 that is open. -/
theorem ScanAt.clear_iff (hstart : StartWindows regs.cpu) (hat : ScanAt dimms regs i s)
    (hpassed : PassedTo dimms regs i) (hzero : i ≠ 0) (hthere : bankOf dimms i ≠ none)
    (hsafe : BankSafe dimms regs.sdramConfig i)
    (hsupported : ∀ memoryType data, bankOf dimms i = some (memoryType, data) →
      Supported dimms memoryType data)
    (hform : (bankWindow dimms regs.sdramConfig i).WellFormed) :
    (∀ k, k ≠ i → (s.regs.cpu.dram k).enable = true → ctrlWinOverlapTest
        (bankWindow dimms regs.sdramConfig i)
        (mvCtrlRegToAddrDec (s.regs.cpu.dram k).regs) = false) ↔
      ctrlWinOverlapTest (bankWindow dimms regs.sdramConfig i) (openedWindow regs.cpu) = false := by
  have hopened := openedWindow_base hstart
  constructor
  · intro hclear
    have htest := hclear 0 hzero.symm (by rw [hat.opened]; exact hstart.enable)
    rwa [hat.opened] at htest
  · intro htest k hne henable
    by_cases hfirst : k = 0
    · rw [hfirst, hat.opened]
      exact htest
    · have htaken : (k : ℕ) < i ∧ bankOf dimms k ≠ none := by
        by_contra hnot
        rw [hat.closed k hfirst] at henable
        · cases henable
        · by_cases hk : (k : ℕ) < i
          · exact Or.inr (not_not.mp fun hthere => hnot ⟨hk, hthere⟩)
          · exact Or.inl (Nat.not_lt.mp hk)
      obtain ⟨hlt, hbefore⟩ := htaken
      obtain ⟨hback, -, -⟩ := hat.taken_window hpassed hlt hfirst hbefore
      have hpass : Passes dimms regs.sdramConfig (openedWindow regs.cpu) i :=
        ⟨hsafe, fun h => absurd h hzero, hsupported, fun _ => hform, fun _ _ => htest⟩
      have hall : ∀ j ≤ i, Passes dimms regs.sdramConfig (openedWindow regs.cpu) j := by
        intro j hj
        rcases Fin.lt_or_eq_of_le hj with hj | rfl
        · exact hpassed j hj
        · exact hpass
      rw [hback]
      refine Soc.ctrlWinOverlapTest_eq_false hform.fits
        ((hpassed k hlt).2.window hbefore).fits ?_
      rw [bankWindow_addresses hopened hall hthere,
        bankWindow_addresses hopened (fun j hj => hall j (hj.trans (Fin.le_of_lt hlt))) hbefore]
      exact block_disjoint _ hne.symm

/-- The record that stands for the banks is that of bank 0. -/
theorem first_recordsOf (hat : ScanAt dimms regs i s) :
    recordsOf (Function.update s.banks i (bankRecord? dimms i)) 0 =
      recordsOf (bankRecord? dimms) 0 := by
  unfold recordsOf
  by_cases hzero : i = 0
  · rw [hzero, Function.update_self]
  · have hpos : ((0 : Fin 4) : ℕ) < i := Nat.pos_of_ne_zero fun h => hzero (Fin.ext h)
    rw [Function.update_of_ne (Ne.symm hzero), hat.banks 0, if_pos hpos]

/-- The banks behind a turn. -/
theorem ScanAt.banks_succ (hat : ScanAt dimms regs i s) (k : Fin 4) :
    Function.update s.banks i (bankRecord? dimms i) k =
      if (k : ℕ) < i + 1 then bankRecord? dimms k else none := by
  by_cases hk : k = i
  · rw [hk, Function.update_self, if_pos (Nat.lt_succ_self _)]
  · have hne : (k : ℕ) ≠ i := fun h => hk (Fin.ext h)
    rw [Function.update_of_ne hk, hat.banks k]
    by_cases hlt : (k : ℕ) < i
    · rw [if_pos hlt, if_pos (by omega)]
    · rw [if_neg hlt, if_neg (by omega)]

/-! ### A turn -/

/-- A bank that is absent is passed over. -/
theorem ScanAt.pass_absent (hat : ScanAt dimms regs i s) (hzero : i ≠ 0)
    (hbank : bankOf dimms i = none) :
    ScanAt dimms regs (i + 1)
      { s with banks := Function.update s.banks i (bankRecord? dimms i) } where
  banks := hat.banks_succ
  base := by
    rw [start_succ, windowBytes_none hbank]
    exact hat.base
  sdramConfig := hat.sdramConfig
  sdramMode := hat.sdramMode
  dunitCtrl := hat.dunitCtrl
  addrCtrl := hat.addrCtrl
  first := fun _ => hat.first (Nat.pos_of_ne_zero fun h => hzero (Fin.ext h))
  opened := hat.opened
  taken := by
    intro k hk hne hthere
    refine hat.taken k (Nat.lt_of_le_of_ne (Nat.le_of_lt_succ hk) fun h => ?_) hne hthere
    rw [Fin.ext h] at hthere
    exact hthere hbank
  closed := fun k hne hk => hat.closed k hne (hk.imp_left (by omega))

theorem base_succ (hat : ScanAt dimms regs i s) :
    s.base + (bankWindow dimms regs.sdramConfig i).size =
      BitVec.ofNat 32 (start (windowBytes dimms regs.sdramConfig) (i + 1)) := by
  rw [hat.base, start_succ, BitVec.ofNat_add]
  rfl

/-- A window at address 0 is of the right form when its size is. -/
theorem wellFormed_zero {win : AddrWin} (hbase : win.baseLow = 0) :
    win.WellFormed ↔ ctrlSizeToReg win.size sizeAlignment ≠ noSize := by
  have halign : isNotAlign win.baseLow win.size = false := by
    unfold isNotAlign
    rw [hbase]
    simp
  rw [Soc.wellFormed_iff]
  unfold mvCtrlAddrDecToReg
  dsimp only
  constructor
  · rintro ⟨-, decRegs, hregs⟩ hno
    rw [if_pos hno] at hregs
    cases hregs
  · intro hsize
    rw [if_neg hsize]
    exact ⟨halign, _, rfl⟩

/-- What placing the window of a bank that is there comes to. -/
theorem placeBank_cases (hstart : StartWindows regs.cpu) (hat : ScanAt dimms regs i s)
    (hpassed : PassedTo dimms regs i) (hthere : bankOf dimms i ≠ none)
    (hsafe : BankSafe dimms regs.sdramConfig i)
    (hsupported : ∀ memoryType data, bankOf dimms i = some (memoryType, data) →
      Supported dimms memoryType data) :
    (Taken dimms regs.sdramConfig (openedWindow regs.cpu) i ∧ ∃ s',
      placeBank i (bankWindow dimms regs.sdramConfig i).size
        { s with banks := Function.update s.banks i (bankRecord? dimms i) } = (.ok, s') ∧
      ScanAt dimms regs (i + 1) s') ∨
    (¬ Taken dimms regs.sdramConfig (openedWindow regs.cpu) i ∧ ∃ status s', status ≠ .ok ∧
      placeBank i (bankWindow dimms regs.sdramConfig i).size
        { s with banks := Function.update s.banks i (bankRecord? dimms i) } = (status, s')) := by
  unfold placeBank
  dsimp only
  by_cases hzero : i = 0
  · subst hzero
    rw [if_pos rfl]
    have hform : (bankWindow dimms regs.sdramConfig 0).WellFormed ↔
        ctrlSizeToReg (bankWindow dimms regs.sdramConfig 0).size sizeAlignment ≠ noSize :=
      wellFormed_zero bankWindow_zero
    by_cases hsize : ctrlSizeToReg (bankWindow dimms regs.sdramConfig 0).size sizeAlignment = noSize
    · exact Or.inr ⟨fun htaken => hform.mp (htaken.window hthere) hsize, .badParam, _, by decide,
        if_pos hsize⟩
    · refine Or.inl ⟨⟨fun _ => hthere, hsupported, fun _ => hform.mpr hsize,
        fun _ h => absurd rfl h⟩, _, if_neg hsize, ?_⟩
      exact {
        banks := hat.banks_succ
        base := base_succ hat
        sdramConfig := hat.sdramConfig
        sdramMode := hat.sdramMode
        dunitCtrl := hat.dunitCtrl
        addrCtrl := hat.addrCtrl
        first := fun _ => Function.update_self 0 _ s.regs.buf
        opened := hat.opened
        taken := fun k hk hne => absurd (Fin.ext (Nat.lt_one_iff.mp hk)) hne
        closed := fun k hne _ => hat.closed k hne (Or.inl (Nat.zero_le _)) }
  · rw [if_neg hzero, hat.base]
    have hstatus := @dramIfWinSetStatus_ok_iff s.regs.cpu i (bankWindow dimms regs.sdramConfig i)
      (hat.readable hstart hpassed)
    change dramIfWinSetStatus s.regs.cpu i ⟨BitVec.ofNat 32 _, _⟩ = .ok ↔ _ at hstatus
    by_cases hok : dramIfWinSetStatus s.regs.cpu i
        ⟨BitVec.ofNat 32 (start (windowBytes dimms regs.sdramConfig) i),
          (bankWindow dimms regs.sdramConfig i).size⟩ = .ok
    · obtain ⟨hform, hclear⟩ := hstatus.mp hok
      have htest :=
        (hat.clear_iff hstart hpassed hzero hthere hsafe hsupported hform).mp hclear
      obtain ⟨decRegs, hregs, hset⟩ := mvDramIfWinSet_of_ok hok
      rw [if_pos hok, hset, ← hat.base]
      refine Or.inl ⟨⟨fun h => absurd h hzero, hsupported, fun _ => hform, fun _ _ => htest⟩,
        _, rfl, ?_⟩
      exact {
        banks := hat.banks_succ
        base := base_succ hat
        sdramConfig := hat.sdramConfig
        sdramMode := hat.sdramMode
        dunitCtrl := hat.dunitCtrl
        addrCtrl := hat.addrCtrl
        first := fun _ => hat.first (Nat.pos_of_ne_zero fun h => hzero (Fin.ext h))
        opened := (Function.update_of_ne (Ne.symm hzero) _ _).trans hat.opened
        taken := by
          intro k hk hne hbefore
          by_cases hlast : k = i
          · subst hlast
            exact ⟨decRegs, hregs, Function.update_self _ _ _⟩
          · have hlt : (k : ℕ) < i :=
              Nat.lt_of_le_of_ne (Nat.le_of_lt_succ hk) fun h => hlast (Fin.ext h)
            obtain ⟨decRegs', hregs', hdram⟩ := hat.taken k hlt hne hbefore
            exact ⟨decRegs', hregs', (Function.update_of_ne hlast _ _).trans hdram⟩
        closed := by
          intro k hne hk
          have hlast : k ≠ i := by
            rintro rfl
            exact hk.elim (fun h => absurd h (Nat.not_succ_le_self _)) hthere
          exact (Function.update_of_ne hlast _ _).trans
            (hat.closed k hne (hk.imp_left (by omega))) }
    · rw [if_neg hok]
      refine Or.inr ⟨fun htaken => hok (hstatus.mpr ⟨htaken.window hthere, ?_⟩), .error, _,
        by decide, rfl⟩
      exact (hat.clear_iff hstart hpassed hzero hthere hsafe hsupported
        (htaken.window hthere)).mpr (htaken.apart hthere hzero)

/-- A turn faults, or fails, or takes its bank. -/
structure TurnOf (dimms : Fin 2 → Option Spd) (regs : DramRegs) (i : Fin 4)
    (turn : Checked (MvStatus × Scan)) : Prop where
  fault : ¬ BankSafe dimms regs.sdramConfig i → ∃ fault, turn = .error fault
  refused : BankSafe dimms regs.sdramConfig i →
    ¬ Taken dimms regs.sdramConfig (openedWindow regs.cpu) i →
    ∃ status s', status ≠ .ok ∧ turn = .ok (status, s')
  taken : Passes dimms regs.sdramConfig (openedWindow regs.cpu) i →
    ∃ s', turn = .ok (.ok, s') ∧ ScanAt dimms regs (i + 1) s'

theorem bankRecord?_none (hbank : bankOf dimms i = none) : bankRecord? dimms i = none := by
  unfold bankRecord?
  rw [hbank]
  rfl

theorem bankRecord?_some {memoryType : MemoryType} {data : Spd}
    (hbank : bankOf dimms i = some (memoryType, data)) :
    bankRecord? dimms i = some (bankRecord memoryType data) := by
  unfold bankRecord?
  rw [hbank]
  rfl

theorem scanBank_absent (hat : ScanAt dimms regs i s) (hmodule : ModuleSafe dimms (dimmOf i))
    (hbank : bankOf dimms i = none) : TurnOf dimms regs i (scanBank dimms i s) := by
  have hget := mvDramBankInfoGet_eq_ok.mpr ⟨hmodule, (bankRecord?_none hbank).symm⟩
  have hsafe : BankSafe dimms regs.sdramConfig i :=
    ⟨hmodule, fun _ _ h => by rw [hbank] at h; cases h⟩
  have hnext : i ≠ 0 → _ := fun hzero => hat.pass_absent hzero hbank
  rw [bankRecord?_none hbank] at hnext
  unfold scanBank
  rw [hget, ok_bind]
  dsimp only
  refine ⟨fun h => absurd hsafe h, fun _ hrefused => ?_, fun hpass => ?_⟩
  · by_cases hzero : i = 0
    · rw [if_pos hzero]
      exact ⟨.error, _, by decide, rfl⟩
    · refine absurd ⟨fun h => absurd h hzero, ?_, ?_, ?_⟩ hrefused
      · intro _ _ h
        rw [hbank] at h
        cases h
      · exact fun h => absurd hbank h
      · exact fun h => absurd hbank h
  · have hzero : i ≠ 0 := fun h => hpass.2.first h hbank
    rw [if_neg hzero]
    exact ⟨_, rfl, hnext hzero⟩

/-- Bank 0 is there from its own turn on. -/
theorem exists_first (hpassed : PassedTo dimms regs i) (hthere : bankOf dimms i ≠ none) :
    ∃ firstType firstData, bankOf dimms 0 = some (firstType, firstData) ∧
      recordsOf (bankRecord? dimms) 0 = bankRecord firstType firstData := by
  have hthereFirst : bankOf dimms 0 ≠ none := by
    by_cases hzero : i = 0
    · rwa [hzero] at hthere
    · exact (hpassed 0 (Nat.pos_of_ne_zero fun h => hzero (Fin.ext h))).2.first rfl
  obtain ⟨⟨firstType, firstData⟩, hbank⟩ := Option.ne_none_iff_exists'.mp hthereFirst
  refine ⟨firstType, firstData, hbank, ?_⟩
  unfold recordsOf
  rw [bankRecord?_some hbank]
  rfl

/-- A bank of a type or a setting that is not supported is refused before its size is computed. -/
theorem turnOf_unsupported {memoryType : MemoryType} {data : Spd}
    {turn : Checked (MvStatus × Scan)} (hmodule : ModuleSafe dimms (dimmOf i))
    (hbank : bankOf dimms i = some (memoryType, data))
    (hunsupported : ¬ Supported dimms memoryType data)
    (hturn : ∃ s', turn = .ok (.error, s')) : TurnOf dimms regs i turn := by
  have hsafe : BankSafe dimms regs.sdramConfig i := by
    refine ⟨hmodule, fun _ _ h hsupported => ?_⟩
    rw [hbank] at h
    cases h
    exact absurd hsupported hunsupported
  obtain ⟨s', hturn⟩ := hturn
  refine ⟨fun h => absurd hsafe h, fun _ _ => ⟨.error, s', by decide, hturn⟩, fun hpass => ?_⟩
  exact absurd (hpass.2.supported _ _ hbank) hunsupported

/-- What the window of a supported bank comes to. -/
theorem turnOf_supported {memoryType : MemoryType} {data : Spd} (hstart : StartWindows regs.cpu)
    (hat : ScanAt dimms regs i s) (hpassed : PassedTo dimms regs i)
    (hmodule : ModuleSafe dimms (dimmOf i)) (hbank : bankOf dimms i = some (memoryType, data))
    (hsupported : Supported dimms memoryType data) :
    TurnOf dimms regs i (windowSize regs.sdramConfig (recordsOf (bankRecord? dimms) 0)
        (bankRecord memoryType data) >>= fun size => pure (placeBank i size
          { s with banks := Function.update s.banks i (bankRecord? dimms i) })) := by
  have hthere : bankOf dimms i ≠ none := by
    rw [hbank]
    exact Option.some_ne_none _
  have honly : ∀ memoryType data, bankOf dimms i = some (memoryType, data) →
      Supported dimms memoryType data := by
    intro _ _ h
    rw [hbank] at h
    cases h
    exact hsupported
  obtain ⟨firstType, firstData, hbankFirst, hfirst⟩ := exists_first hpassed hthere
  have hsafe_iff : BankSafe dimms regs.sdramConfig i ↔ widthRatio regs.sdramConfig firstData ≠ 0 ∧
      (spdBankSize memoryType data).toNat < 4096 := by
    rw [← firstRatio_some hbankFirst]
    constructor
    · exact fun hsafe => hsafe.size memoryType data hbank hsupported
    · intro hbounds
      refine ⟨hmodule, fun _ _ h _ => ?_⟩
      rw [hbank] at h
      cases h
      exact hbounds
  rw [hfirst]
  cases hsize : windowSize regs.sdramConfig (bankRecord firstType firstData)
      (bankRecord memoryType data) with
  | error fault =>
    have hunsafe : ¬ BankSafe dimms regs.sdramConfig i := by
      intro hsafe
      rw [windowSize_eq_ok.mpr ⟨hsafe_iff.mp hsafe, rfl⟩] at hsize
      cases hsize
    exact ⟨fun _ => ⟨fault, rfl⟩, fun h => absurd h hunsafe, fun h => absurd h.1 hunsafe⟩
  | ok size =>
    obtain ⟨hbounds, rfl⟩ := windowSize_eq_ok.mp hsize
    have hsafe := hsafe_iff.mpr hbounds
    have hwindow : BitVec.ofNat 32 (bankBytes memoryType data /
        widthRatio regs.sdramConfig firstData) = (bankWindow dimms regs.sdramConfig i).size := by
      unfold bankWindow
      rw [windowBytes_some hbank, firstRatio_some hbankFirst]
    rw [hwindow, ok_bind]
    rcases placeBank_cases hstart hat hpassed hthere hsafe honly with
      ⟨htaken, s', hplaced, hnext⟩ | ⟨hrefused, status, s', hstatus, hplaced⟩
    · rw [hplaced]
      exact ⟨fun h => absurd hsafe h, fun _ h => absurd htaken h, fun _ => ⟨s', rfl, hnext⟩⟩
    · rw [hplaced]
      exact ⟨fun h => absurd hsafe h, fun _ _ => ⟨status, s', hstatus, rfl⟩,
        fun h => absurd h.2 hrefused⟩

/-- What a turn comes to. -/
theorem scanBank_turnOf (hstart : StartWindows regs.cpu) (hat : ScanAt dimms regs i s)
    (hpassed : PassedTo dimms regs i) : TurnOf dimms regs i (scanBank dimms i s) := by
  by_cases hmodule : ModuleSafe dimms (dimmOf i)
  · cases hbank : bankOf dimms i with
    | none => exact scanBank_absent hat hmodule hbank
    | some content =>
      obtain ⟨memoryType, data⟩ := content
      have hrecord := bankRecord?_some hbank
      have hget := mvDramBankInfoGet_eq_ok.mpr ⟨hmodule, hrecord.symm⟩
      have hfirst := first_recordsOf hat
      have hsupported := turnOf_supported hstart hat hpassed hmodule hbank
      rw [hrecord] at hfirst hsupported
      unfold scanBank
      rw [hget, ok_bind]
      dsimp only
      rw [hfirst, hat.sdramConfig]
      by_cases hsdram : (bankRecord memoryType data).memoryType = .sdram
      · rw [if_pos hsdram]
        exact turnOf_unsupported hmodule hbank (fun h => h.notSdram hsdram) ⟨_, rfl⟩
      · rw [if_neg hsdram]
        by_cases hregistered : (bankRecord memoryType data).registeredAddrAndControlInputs ≠
            (recordsOf (bankRecord? dimms) 0).registeredAddrAndControlInputs
        · rw [if_pos hregistered]
          exact turnOf_unsupported hmodule hbank (fun h => hregistered h.registered) ⟨_, rfl⟩
        · rw [if_neg hregistered]
          exact hsupported ⟨hsdram, not_not.mp hregistered⟩
  · have hunsafe : ¬ BankSafe dimms regs.sdramConfig i := fun h => hmodule h.module
    refine ⟨fun _ => ?_, fun h => absurd h hunsafe, fun h => absurd h.1 hunsafe⟩
    unfold scanBank
    cases hget : mvDramBankInfoGet dimms i with
    | error fault => exact ⟨fault, rfl⟩
    | ok result => exact absurd (mvDramBankInfoGet_eq_ok.mp hget).1 hmodule

/-! ### The whole scan -/

/-- The banks of a list are those from a number on. -/
def BanksFrom : ℕ → List (Fin 4) → Prop
  | n, [] => n = 4
  | n, i :: rest => (i : ℕ) = n ∧ BanksFrom (n + 1) rest

/-- The scan faults at the first bank that is not safe, fails at the first that is not taken, or
takes all banks. -/
structure ScanOf (dimms : Fin 2 → Option Spd) (regs : DramRegs)
    (scan : Checked (MvStatus × Scan)) : Prop where
  fault : ∀ i : Fin 4, PassedTo dimms regs i → ¬ BankSafe dimms regs.sdramConfig i →
    ∃ fault, scan = .error fault
  refused : ∀ i : Fin 4, PassedTo dimms regs i → BankSafe dimms regs.sdramConfig i →
    ¬ Taken dimms regs.sdramConfig (openedWindow regs.cpu) i →
    ∃ status s', status ≠ .ok ∧ scan = .ok (status, s')
  done : PassedTo dimms regs 4 → ∃ s', scan = .ok (.ok, s') ∧ ScanAt dimms regs 4 s'

/-- There is but one first bank that the scan does not go on behind. -/
theorem PassedTo.unique {j : Fin 4} (hi : PassedTo dimms regs i) (hj : PassedTo dimms regs j)
    (hstop : ¬ Passes dimms regs.sdramConfig (openedWindow regs.cpu) i)
    (hstop' : ¬ Passes dimms regs.sdramConfig (openedWindow regs.cpu) j) : i = j := by
  rcases lt_trichotomy i j with hlt | heq | hlt
  · exact absurd (hj i hlt) hstop
  · exact heq
  · exact absurd (hi j hlt) hstop'

theorem PassedTo.succ (hpassed : PassedTo dimms regs i)
    (hpass : Passes dimms regs.sdramConfig (openedWindow regs.cpu) i) :
    PassedTo dimms regs (i + 1) := by
  intro k hk
  rcases Nat.lt_succ_iff_lt_or_eq.mp hk with hlt | heq
  · exact hpassed k hlt
  · rwa [Fin.ext heq]

/-- What the scan from a bank on comes to, by induction on the banks that are left. -/
theorem scanBanks_from (hstart : StartWindows regs.cpu) {l : List (Fin 4)}
    (hl : BanksFrom n l) (hat : ScanAt dimms regs n s) (hpassed : PassedTo dimms regs n) :
    ScanOf dimms regs (scanBanks dimms l s) := by
  induction l generalizing n s with
  | nil =>
    have hfour : n = 4 := hl
    subst hfour
    exact ⟨fun i _ h => absurd (hpassed i i.isLt).1 h, fun i _ _ h => absurd (hpassed i i.isLt).2 h,
      fun _ => ⟨s, rfl, hat⟩⟩
  | cons i rest ih =>
    obtain ⟨hfirst, hrest⟩ := hl
    subst hfirst
    have hturn := scanBank_turnOf hstart hat hpassed
    unfold scanBanks
    by_cases hsafe : BankSafe dimms regs.sdramConfig i
    · by_cases htaken : Taken dimms regs.sdramConfig (openedWindow regs.cpu) i
      · obtain ⟨s', hok, hnext⟩ := hturn.taken ⟨hsafe, htaken⟩
        rw [hok, ok_bind]
        exact ih hrest hnext (hpassed.succ ⟨hsafe, htaken⟩)
      · obtain ⟨status, s', hstatus, hok⟩ := hturn.refused hsafe htaken
        have hstop : ¬ Passes dimms regs.sdramConfig (openedWindow regs.cpu) i :=
          fun h => htaken h.2
        rw [hok, ok_bind]
        dsimp only
        rw [if_neg hstatus]
        refine ⟨fun j hj hunsafe => ?_, fun _ _ _ _ => ⟨status, s', hstatus, rfl⟩, fun hall => ?_⟩
        · rw [← hpassed.unique hj hstop fun h => hunsafe h.1] at hunsafe
          exact absurd hsafe hunsafe
        · exact absurd (hall i i.isLt) hstop
    · obtain ⟨fault, herror⟩ := hturn.fault hsafe
      have hstop : ¬ Passes dimms regs.sdramConfig (openedWindow regs.cpu) i :=
        fun h => hsafe h.1
      rw [herror, error_bind]
      refine ⟨fun _ _ _ => ⟨fault, rfl⟩, fun j hj hsafe' hrefused => ?_, fun hall => ?_⟩
      · rw [← hpassed.unique hj hstop fun h => hrefused h.2] at hsafe'
        exact absurd hsafe' hsafe
      · exact absurd (hall i i.isLt) hstop

/-! ### Before the scan -/

/-- Closing a window of the memory that can be read. -/
theorem mvCpuIfTargetWinEnable_false {r : CpuRegs} {target : Soc.Target} {cs : Fin 4}
    (htarget : target.dram? = some cs) (hread : (mvDramIfWinGet r cs).isSome) :
    (mvCpuIfTargetWinEnable r (some target) false).2 =
      { r with dram := Function.update r.dram cs ⟨(r.dram cs).regs, false⟩ } := by
  have hget : mvCpuIfTargetWinGet r target =
      .ok ⟨mvCtrlRegToAddrDec (r.dram cs).regs, none, (r.dram cs).enable⟩ := by
    unfold mvCpuIfTargetWinGet
    rw [htarget]
    dsimp only
    rw [mvDramIfWinGet_of_readable hread]
  unfold mvCpuIfTargetWinEnable
  dsimp only
  rw [hget]
  dsimp only
  rw [if_neg (fun h => Bool.false_ne_true h.1), htarget]
  rfl

/-- The windows behind the closing: that of bank 0 is left alone. -/
theorem closeBanks_dram {r : CpuRegs} (hstart : StartWindows r) (k : Fin 4) :
    (closeBanks r).dram k = if k = 0 then r.dram 0 else ⟨(r.dram k).regs, false⟩ := by
  have hread : ∀ {r' : CpuRegs}, (∀ cs, (r'.dram cs).regs = (r.dram cs).regs) →
      ∀ cs, (mvDramIfWinGet r' cs).isSome := by
    intro r' hsame cs
    rw [isSome_mvDramIfWinGet, hsame cs]
    exact isSome_mvDramIfWinGet.mp (hstart.readable cs)
  have hkept : ∀ {r' : CpuRegs} (c : Fin 4), (∀ cs, (r'.dram cs).regs = (r.dram cs).regs) →
      ∀ cs, (({ r' with dram := Function.update r'.dram c ⟨(r'.dram c).regs, false⟩ } :
        CpuRegs).dram cs).regs = (r.dram cs).regs := by
    intro r' c hsame cs
    by_cases hcs : cs = c
    · subst hcs
      dsimp only
      rw [Function.update_self]
      exact hsame cs
    · dsimp only
      rw [Function.update_of_ne hcs]
      exact hsame cs
  have hkept1 := hkept 1 fun cs => rfl
  have hkept2 := hkept 2 hkept1
  unfold closeBanks
  rw [List.foldl_cons, List.foldl_cons, List.foldl_cons, List.foldl_nil,
    @mvCpuIfTargetWinEnable_false _ _ 1 rfl (hstart.readable 1),
    @mvCpuIfTargetWinEnable_false _ _ 2 rfl (hread hkept1 2),
    @mvCpuIfTargetWinEnable_false _ _ 3 rfl (hread hkept2 3)]
  match k with
  | 0 => rfl
  | 1 => rfl
  | 2 => rfl
  | 3 => rfl

/-- The state the scan begins in. -/
theorem scanAt_zero (hstart : StartWindows regs.cpu) :
    ScanAt dimms regs 0 ⟨fun _ => none, 0, { regs with cpu := closeBanks regs.cpu }⟩ where
  banks := fun _ => (if_neg (Nat.not_lt_zero _)).symm
  base := by
    rw [start_zero]
    rfl
  sdramConfig := rfl
  sdramMode := rfl
  dunitCtrl := rfl
  addrCtrl := rfl
  first := fun h => absurd h (Nat.lt_irrefl 0)
  opened := by
    dsimp only
    rw [closeBanks_dram hstart, if_pos rfl]
  taken := fun k hk => absurd hk (Nat.not_lt_zero _)
  closed := by
    intro k hne _
    dsimp only
    rw [closeBanks_dram hstart, if_neg hne]

/-- What the scan of `mvDramIfDetect` comes to. -/
theorem scanBanks_scanOf (hstart : StartWindows regs.cpu) :
    ScanOf dimms regs (scanBanks dimms [0, 1, 2, 3]
      ⟨fun _ => none, 0, { regs with cpu := closeBanks regs.cpu }⟩) :=
  scanBanks_from hstart ⟨rfl, rfl, rfl, rfl, rfl⟩ (scanAt_zero hstart)
    fun _ hk => absurd hk (Nat.not_lt_zero _)

end Mv88fxx81.Dram
