import Mv88fxx81.Sata.PioBlocks

/-!
# The data phase of a PIO command

The drive asks for one block after the other, or offers it. Each interrupt moves one
block, and the command is completed behind the last one. The block that is written when
a command is sent is one sector, whatever the size of the blocks is.
-/

namespace Mv88fxx81.Sata.Pio

open Mv88fxx81.Sata.Core (NonUdmaProtocol)

variable {drqDataBlockSize : ℕ} {drive : ℕ → BitVec 16} {s s' : PioState}

/-! ### The drive -/

/-- The drive is ready without an error. -/
def Interrupt.Fine (interrupt : Interrupt) : Prop :=
  busy interrupt.ataStatus = false ∧ error interrupt.ataStatus = false ∧
    deviceFault interrupt.ataStatus = false ∧ ready interrupt.ataStatus = true

/-- The drive offers `n` more blocks. It may interrupt while it is busy, and requests no more data
when the last block has been read. -/
inductive Offers : ℕ → List Interrupt → Prop
  | none : Offers 0 []
  | busy {n : ℕ} {interrupt : Interrupt} {interrupts : List Interrupt} :
      busy interrupt.ataStatus = true → Offers n interrupts → Offers n (interrupt :: interrupts)
  | offer {n : ℕ} {interrupt : Interrupt} {interrupts : List Interrupt} :
      interrupt.Fine → dataRequest interrupt.ataStatus = true →
      (n = 0 → dataRequest interrupt.ataStatusAfter = false) → Offers n interrupts →
      Offers (n + 1) (interrupt :: interrupts)

/-- The drive asks for `n` more blocks, and interrupts when it has written the last one. -/
inductive Asks : ℕ → List Interrupt → Prop
  | written {interrupt : Interrupt} :
      interrupt.Fine → dataRequest interrupt.ataStatus = false → Asks 0 [interrupt]
  | busy {n : ℕ} {interrupt : Interrupt} {interrupts : List Interrupt} :
      busy interrupt.ataStatus = true → Asks n interrupts → Asks n (interrupt :: interrupts)
  | ask {n : ℕ} {interrupt : Interrupt} {interrupts : List Interrupt} :
      interrupt.Fine → dataRequest interrupt.ataStatus = true → Asks n interrupts →
      Asks (n + 1) (interrupt :: interrupts)

/-- The interrupts of a command with `n` blocks. The first block that is written is asked for
without an interrupt. -/
def DriveRun : NonUdmaProtocol → ℕ → List Interrupt → Prop
  | .pioDataIn, n, interrupts => Offers n interrupts
  | .pioDataOut, n, interrupts => Asks (n - 1) interrupts
  | .nonData, _, _ => False

/-- The drive takes the command, and asks for the first block that is written. -/
structure Sending.Good (hw : Sending) (regs : TaskFile) : Prop where
  ready : ready hw.ataStatus = true
  notBusy : busy hw.ataStatus = false
  regs : regs.isEXT = true ∨ regs.reserved = true
  waitsBusy : hw.waitsBusy = true
  waitsDRQ : hw.generation2 = true → hw.waitsDRQ = true
  dataRequest : dataRequest hw.ataStatusData = true
  dataNotBusy : busy hw.ataStatusData = false
  dataNoError : error hw.ataStatusData = false

/-! ### Interrupts -/

/-- An interrupt of a drive that is busy does nothing. -/
theorem handlePIOInterrupt_busy {interrupt : Interrupt} (hbusy : busy interrupt.ataStatus = true) :
    handlePIOInterrupt drqDataBlockSize drive interrupt s = s := by
  unfold handlePIOInterrupt
  rw [if_pos hbusy]

/-- A block that is offered is read. -/
theorem handlePIOInterrupt_in {interrupt : Interrupt} (hfine : interrupt.Fine)
    (hprotocol : s.protocolType = .pioDataIn)
    (htransfer : transferPIOData drqDataBlockSize drive s = (true, s')) :
    handlePIOInterrupt drqDataBlockSize drive interrupt s =
      if s'.count = 0 ∧ dataRequest interrupt.ataStatusAfter = false then s'.did (.complete false)
      else s' := by
  obtain ⟨hbusy, herror, -, hready⟩ := hfine
  unfold handlePIOInterrupt
  rw [hbusy, herror, hready, hprotocol, htransfer]
  dsimp only
  rw [if_neg Bool.false_ne_true, if_neg Bool.false_ne_true, if_pos rfl, if_pos rfl]
  by_cases hzero : s'.count = 0
  · rw [if_pos hzero]
    cases dataRequest interrupt.ataStatusAfter with
    | true => rw [if_pos rfl, if_neg (fun h => by cases h.2)]
    | false => rw [if_neg Bool.false_ne_true, if_pos ⟨hzero, rfl⟩]
  · rw [if_neg hzero, if_neg (fun h => hzero h.1)]

/-- A block that is asked for is written. -/
theorem handlePIOInterrupt_out {interrupt : Interrupt} (hfine : interrupt.Fine)
    (hprotocol : s.protocolType = .pioDataOut) (hcount : s.count ≠ 0)
    (htransfer : transferPIOData drqDataBlockSize drive s = (true, s')) :
    handlePIOInterrupt drqDataBlockSize drive interrupt s = s' := by
  obtain ⟨hbusy, herror, hfault, hready⟩ := hfine
  unfold handlePIOInterrupt
  rw [hbusy, herror, hready, hfault, hprotocol, htransfer]
  dsimp only
  rw [if_neg Bool.false_ne_true, if_neg Bool.false_ne_true, if_pos ⟨rfl, Bool.false_ne_true⟩,
    if_neg hcount, if_pos rfl]

/-- When all has been written the command is completed. -/
theorem handlePIOInterrupt_written {interrupt : Interrupt} (hfine : interrupt.Fine)
    (hprotocol : s.protocolType = .pioDataOut) (hcount : s.count = 0) :
    handlePIOInterrupt drqDataBlockSize drive interrupt s = s.did (.complete false) := by
  obtain ⟨hbusy, herror, hfault, hready⟩ := hfine
  unfold handlePIOInterrupt
  rw [hbusy, herror, hready, hfault, hprotocol]
  dsimp only
  rw [if_neg Bool.false_ne_true, if_neg Bool.false_ne_true, if_pos ⟨rfl, Bool.false_ne_true⟩,
    if_pos hcount]

/-! ### Runs -/

section

variable {unit total m n : ℕ} {buffer : ℕ → BitVec 16} {interrupts : List Interrupt}

/-- The interrupts arrive one after the other. -/
def handleAll (drqDataBlockSize : ℕ) (drive : ℕ → BitVec 16) (interrupts : List Interrupt)
    (s : PioState) : PioState :=
  interrupts.foldl (fun s interrupt => handlePIOInterrupt drqDataBlockSize drive interrupt s) s

theorem handleAll_cons (interrupt : Interrupt) (interrupts : List Interrupt) (s : PioState) :
    handleAll drqDataBlockSize drive (interrupt :: interrupts) s =
      handleAll drqDataBlockSize drive interrupts
        (handlePIOInterrupt drqDataBlockSize drive interrupt s) := rfl

/-- The interrupts behind the last block that is read do nothing. -/
theorem handleAll_offers_zero (hoffers : Offers 0 interrupts) (s : PioState) :
    handleAll drqDataBlockSize drive interrupts s = s := by
  generalize hn : 0 = n at hoffers
  induction hoffers with
  | none => rfl
  | busy hbusy _ ih =>
    rw [handleAll_cons, handlePIOInterrupt_busy hbusy]
    exact ih hn
  | offer => cases hn

/-- What a command leaves when it has moved all blocks. -/
def Finished (protocolType : NonUdmaProtocol) (drive buffer : ℕ → BitVec 16) (total : ℕ)
    (s : PioState) : Prop :=
  ∀ a, s.buffer a = if protocolType = .pioDataIn ∧ a < total then drive a else buffer a

theorem At.finished {protocolType : NonUdmaProtocol}
    (hat : At protocolType drive buffer unit total s m) (hm : total ≤ m * unit) :
    Finished protocolType drive buffer total s := by
  intro a
  rw [hat.buffer a, Nat.min_eq_right hm]

/-- The blocks that are offered are read one after the other. -/
theorem handleAll_offers (hunit : drqDataBlockSize * ataSectorSizeInWords = unit)
    (hpos : 0 < unit) (hoffers : Offers n interrupts) (hn : n ≠ 0)
    (hnum : m + n = blockNum unit total)
    (hat : At .pioDataIn drive buffer unit total s m) :
    (handleAll drqDataBlockSize drive interrupts s).log =
        s.log ++ eventsFrom drive unit total m n ∧
      Finished .pioDataIn drive buffer total (handleAll drqDataBlockSize drive interrupts s) := by
  induction hoffers generalizing m s with
  | none => exact absurd rfl hn
  | busy hbusy _ ih =>
    rw [handleAll_cons, handlePIOInterrupt_busy hbusy]
    exact ih hn hnum hat
  | @offer n interrupt interrupts hfine _ hafter hrest ih =>
    have hm : m * unit < total := (lt_blockNum_iff hpos).mp (by omega)
    obtain ⟨s', htransfer, hat', hlog⟩ := transferPIOData_at hunit (by decide) hat hm
    rw [handleAll_cons, handlePIOInterrupt_in hfine hat.protocol htransfer, eventsFrom_succ]
    by_cases hlast : n = 0
    · have hend : total ≤ (m + 1) * unit := by
        refine Nat.le_of_not_lt fun hlt => ?_
        have hmore := (lt_blockNum_iff hpos).mpr hlt
        omega
      have hcount : s'.count = 0 := by
        rw [hat'.count]
        omega
      rw [if_pos ⟨hcount, hafter hlast⟩]
      rw [hlast] at hrest ⊢
      rw [handleAll_offers_zero hrest]
      constructor
      · change s'.log ++ [_] = _
        rw [hlog, List.append_assoc]
        rfl
      · exact hat'.finished hend
    · have hmore : (m + 1) * unit < total := (lt_blockNum_iff hpos).mp (by omega)
      have hcount : s'.count ≠ 0 := by
        rw [hat'.count]
        omega
      rw [if_neg (fun h => hcount h.1)]
      obtain ⟨hlog', hfinished⟩ := ih hlast (by omega) hat'
      refine ⟨?_, hfinished⟩
      rw [hlog', hlog, List.append_assoc]
      rfl

/-- The blocks that are asked for are written one after the other. -/
theorem handleAll_asks (hunit : drqDataBlockSize * ataSectorSizeInWords = unit)
    (hpos : 0 < unit) (hasks : Asks n interrupts) (hnum : m + n = blockNum unit total)
    (hat : At .pioDataOut drive buffer unit total s m) :
    (handleAll drqDataBlockSize drive interrupts s).log =
        s.log ++ eventsFrom buffer unit total m n ∧
      Finished .pioDataOut drive buffer total (handleAll drqDataBlockSize drive interrupts s) := by
  induction hasks generalizing m s with
  | written hfine _ =>
    have hend : total ≤ m * unit := by
      refine Nat.le_of_not_lt fun hlt => ?_
      have hmore := (lt_blockNum_iff hpos).mpr hlt
      omega
    have hcount : s.count = 0 := by
      rw [hat.count]
      omega
    rw [handleAll_cons, handlePIOInterrupt_written hfine hat.protocol hcount]
    exact ⟨rfl, hat.finished hend⟩
  | busy hbusy _ ih =>
    rw [handleAll_cons, handlePIOInterrupt_busy hbusy]
    exact ih hnum hat
  | @ask n interrupt interrupts hfine _ hrest ih =>
    have hm : m * unit < total := (lt_blockNum_iff hpos).mp (by omega)
    have hcount : s.count ≠ 0 := by
      rw [hat.count]
      omega
    obtain ⟨s', htransfer, hat', hlog⟩ := transferPIOData_at hunit (by decide) hat hm
    rw [handleAll_cons, handlePIOInterrupt_out hfine hat.protocol hcount htransfer,
      eventsFrom_succ]
    obtain ⟨hlog', hfinished⟩ := ih (by omega) hat'
    refine ⟨?_, hfinished⟩
    rw [hlog', hlog, List.append_assoc]
    rfl

/-! ### Commands -/

/-- A command that has not been sent. -/
def startState (protocolType : NonUdmaProtocol) (buffer : ℕ → BitVec 16) (count : ℕ) :
    PioState where
  protocolType := protocolType
  bufPtr := 0
  count := count
  buffer := buffer
  supplied := 0
  log := []

/-- The words of the buffer are moved in complete blocks, and then the command is completed, once
and with success. Of the buffer only the words of the command are written. -/
def PioRight (drqDataBlockSize : ℕ) (protocolType : NonUdmaProtocol) (count : ℕ) : Prop :=
  ∀ (hw : Sending) (regs : TaskFile) (drive buffer : ℕ → BitVec 16) (interrupts : List Interrupt),
    hw.Good regs →
    DriveRun protocolType (blockNum (drqDataBlockSize * ataSectorSizeInWords) count) interrupts →
    let s := pioRun drqDataBlockSize drive hw regs interrupts (startState protocolType buffer count)
    s.log = eventsFrom (source protocolType drive buffer) (drqDataBlockSize * ataSectorSizeInWords)
        count 0 (blockNum (drqDataBlockSize * ataSectorSizeInWords) count) ∧
      Finished protocolType drive buffer count s

variable {protocolType : NonUdmaProtocol} {count : ℕ} {hw : Sending} {regs : TaskFile}

/-- A drive that takes the command. -/
theorem sendNoneUdmaCommand_good (hgood : hw.Good regs) (s : PioState) :
    sendNoneUdmaCommand hw regs s =
      (true, if s.protocolType = .pioDataOut then sendData s else s) := by
  have hregs : ¬ ((¬ regs.isEXT = true) ∧ ¬ regs.reserved = true) := by
    rintro ⟨hext, hreserved⟩
    rcases hgood.regs with h | h
    · exact hext h
    · exact hreserved h
  have hdrq : ¬ (hw.generation2 = true ∧ ¬ hw.waitsDRQ = true) := fun h =>
    h.2 (hgood.waitsDRQ h.1)
  unfold sendNoneUdmaCommand
  rw [hgood.ready, hgood.notBusy, if_neg (by decide), if_neg hregs]
  by_cases hout : s.protocolType = .pioDataOut
  · rw [if_pos hout, if_pos hout, hgood.waitsBusy, if_neg (by decide), if_neg hdrq,
      hgood.dataRequest, hgood.dataNotBusy, hgood.dataNoError, if_neg (by decide)]
  · rw [if_neg hout, if_neg hout]

/-- The run of a command that the drive takes. -/
theorem pioRun_good (hgood : hw.Good regs) (s : PioState) :
    pioRun drqDataBlockSize drive hw regs interrupts s =
      handleAll drqDataBlockSize drive interrupts
        (if s.protocolType = .pioDataOut then sendData s else s) := by
  unfold pioRun
  rw [sendNoneUdmaCommand_good hgood]
  rfl

/-- The sector that is written when a command is sent. -/
theorem sendData_log (s : PioState) :
    (sendData s).log = s.log ++ [.block ((List.range ataSectorSizeInWords).map fun i =>
      s.buffer (s.bufPtr + i))] := by
  unfold sendData
  rw [sendLoop_eq]
  rfl

/-- The sector that is written when a command is sent is the first block. -/
theorem sendData_at (hfirst : min unit count = ataSectorSizeInWords) (hlt : count < 2 ^ 32) :
    At .pioDataOut drive buffer unit count (sendData (startState .pioDataOut buffer count)) 1 := by
  have hsector : ataSectorSizeInWords = 256 := rfl
  unfold sendData
  rw [sendLoop_eq]
  refine ⟨rfl, ?_, ?_, fun a => ?_, fun h => by cases h⟩
  · change 0 + ataSectorSizeInWords = _
    rw [Nat.one_mul]
    omega
  · change (count + 2 ^ 32 - ataSectorSizeInWords) % 2 ^ 32 = _
    rw [Nat.one_mul]
    omega
  · rw [if_neg (fun h => by cases h.1)]
    rfl

/-- The first block. -/
theorem blockWords_first (hfirst : min unit count = ataSectorSizeInWords) :
    blockWords buffer unit count 0 =
      (List.range ataSectorSizeInWords).map fun i => buffer (0 + i) := by
  unfold blockWords
  rw [Nat.zero_mul, Nat.sub_zero, hfirst]

/-- A command that reads. -/
theorem pioRight_in (hpos : 0 < drqDataBlockSize) (hcount : 0 < count) :
    PioRight drqDataBlockSize .pioDataIn count := by
  intro hw regs drive buffer interrupts hgood hdrive
  have hunit : 0 < drqDataBlockSize * ataSectorSizeInWords := Nat.mul_pos hpos (by decide)
  have hnum : 0 < blockNum (drqDataBlockSize * ataSectorSizeInWords) count :=
    (lt_blockNum_iff hunit).mpr (by omega)
  have hstart : At .pioDataIn drive buffer (drqDataBlockSize * ataSectorSizeInWords) count
      (startState .pioDataIn buffer count) 0 := by
    refine ⟨rfl, ?_, ?_, fun a => ?_, fun _ => ?_⟩
    · rw [Nat.zero_mul, Nat.zero_min]
      rfl
    · rw [Nat.zero_mul, Nat.sub_zero]
      rfl
    · rw [Nat.zero_mul, Nat.zero_min, if_neg (fun h => Nat.not_lt_zero a h.2)]
      rfl
    · rw [Nat.zero_mul, Nat.zero_min]
      rfl
  dsimp only
  rw [pioRun_good hgood, if_neg (by exact fun h => by cases h)]
  exact handleAll_offers rfl hunit hdrive (by omega) (Nat.zero_add _) hstart

/-- A command that writes, when the first sector is the first block. -/
theorem pioRight_out (hpos : 0 < drqDataBlockSize) (hlt : count < 2 ^ 32)
    (hfirst : min (drqDataBlockSize * ataSectorSizeInWords) count = ataSectorSizeInWords) :
    PioRight drqDataBlockSize .pioDataOut count := by
  intro hw regs drive buffer interrupts hgood hdrive
  have hsector : ataSectorSizeInWords = 256 := rfl
  have hunit : 0 < drqDataBlockSize * ataSectorSizeInWords := Nat.mul_pos hpos (by decide)
  have hnum : 0 < blockNum (drqDataBlockSize * ataSectorSizeInWords) count :=
    (lt_blockNum_iff hunit).mpr (by omega)
  have hrest : 1 + (blockNum (drqDataBlockSize * ataSectorSizeInWords) count - 1) =
      blockNum (drqDataBlockSize * ataSectorSizeInWords) count := by omega
  obtain ⟨hlog, hfinished⟩ := handleAll_asks rfl hunit hdrive hrest
    (@sendData_at drive _ buffer count hfirst hlt)
  dsimp only
  rw [pioRun_good hgood, if_pos (by rfl)]
  refine ⟨?_, hfinished⟩
  conv_rhs => rw [← hrest, Nat.add_comm 1, eventsFrom_succ]
  rw [hlog, sendData_log]
  unfold source
  rw [if_neg (by decide), blockWords_first hfirst]
  rfl

/-! ### The first block -/

theorem transferPIOData_log (s : PioState) :
    ∃ events, (transferPIOData drqDataBlockSize drive s).2.log = s.log ++ events := by
  unfold transferPIOData
  cases s.protocolType with
  | pioDataOut =>
    dsimp only
    rw [writeLoop_eq]
    exact ⟨[_], rfl⟩
  | pioDataIn =>
    dsimp only
    rw [readLoop_eq]
    exact ⟨[_], rfl⟩
  | nonData => exact ⟨[], (List.append_nil _).symm⟩

/-- An interrupt takes back nothing of what has been done. -/
theorem handlePIOInterrupt_log (interrupt : Interrupt) (s : PioState) :
    ∃ events, (handlePIOInterrupt drqDataBlockSize drive interrupt s).log = s.log ++ events := by
  obtain ⟨events, htransfer⟩ := @transferPIOData_log drqDataBlockSize drive s
  unfold handlePIOInterrupt
  generalize transferPIOData drqDataBlockSize drive s = result at htransfer ⊢
  obtain ⟨transferred, s'⟩ := result
  dsimp only at htransfer ⊢
  have hdid : ∀ event, ∃ events', (s'.did event).log = s.log ++ events' := by
    intro event
    refine ⟨events ++ [event], ?_⟩
    change s'.log ++ [event] = _
    rw [htransfer, List.append_assoc]
  have hdone : ∀ event, ∃ events', (s.did event).log = s.log ++ events' :=
    fun event => ⟨[event], rfl⟩
  have hsame : ∃ events', s.log = s.log ++ events' := ⟨[], (List.append_nil _).symm⟩
  cases s.protocolType with
  | nonData =>
    dsimp only
    split_ifs
    · exact hsame
    · exact hdone _
    · exact hdone _
  | pioDataIn =>
    dsimp only
    split_ifs
    · exact hsame
    · exact hdone _
    · exact ⟨events, htransfer⟩
    · exact hdid _
    · exact ⟨events, htransfer⟩
    · exact hdid _
    · exact hdone _
  | pioDataOut =>
    dsimp only
    split_ifs
    · exact hsame
    · exact hdone _
    · exact hdone _
    · exact ⟨events, htransfer⟩
    · exact hdid _
    · exact hdone _

theorem handleAll_log (interrupts : List Interrupt) (s : PioState) :
    ∃ events, (handleAll drqDataBlockSize drive interrupts s).log = s.log ++ events := by
  induction interrupts generalizing s with
  | nil => exact ⟨[], (List.append_nil _).symm⟩
  | cons interrupt interrupts ih =>
    obtain ⟨events, hfirst⟩ := @handlePIOInterrupt_log drqDataBlockSize drive interrupt s
    obtain ⟨events', hrest⟩ := ih (handlePIOInterrupt drqDataBlockSize drive interrupt s)
    refine ⟨events ++ events', ?_⟩
    rw [handleAll_cons, hrest, hfirst, List.append_assoc]

/-- The drive asks for a block. -/
def askInterrupt : Interrupt := ⟨0x48, 0x48⟩

/-- The drive has written all blocks. -/
def writtenInterrupt : Interrupt := ⟨0x40, 0x40⟩

theorem asks_replicate (n : ℕ) :
    Asks n (List.replicate n askInterrupt ++ [writtenInterrupt]) := by
  induction n with
  | zero => exact .written ⟨rfl, rfl, rfl, rfl⟩ rfl
  | succ n ih => exact .ask ⟨rfl, rfl, rfl, rfl⟩ rfl ih

/-- A drive that takes a command. -/
def goodSending : Sending := ⟨true, 0x40, true, true, 0x48⟩

/-- The registers of a command. -/
def plainRegs : TaskFile := ⟨false, 0, 0, 0, 0, 0⟩

theorem goodSending_good : goodSending.Good plainRegs :=
  ⟨rfl, rfl, Or.inr rfl, rfl, fun _ => rfl, rfl, rfl, rfl⟩

/-- The first block of a command that writes is one sector. -/
theorem pioRight_out_first (hpos : 0 < drqDataBlockSize) (hcount : 0 < count)
    (hright : PioRight drqDataBlockSize .pioDataOut count) :
    min (drqDataBlockSize * ataSectorSizeInWords) count = ataSectorSizeInWords := by
  have hunit : 0 < drqDataBlockSize * ataSectorSizeInWords := Nat.mul_pos hpos (by decide)
  have hnum : 0 < blockNum (drqDataBlockSize * ataSectorSizeInWords) count :=
    (lt_blockNum_iff hunit).mpr (by omega)
  obtain ⟨hlog, -⟩ := hright goodSending plainRegs (fun _ => 0) (fun _ => 0) _ goodSending_good
    (asks_replicate _)
  rw [pioRun_good goodSending_good, if_pos (by rfl)] at hlog
  generalize blockNum (drqDataBlockSize * ataSectorSizeInWords) count = blocks at hnum hlog
  obtain ⟨events, hevents⟩ := @handleAll_log drqDataBlockSize (fun _ => 0)
    (List.replicate (blocks - 1) askInterrupt ++ [writtenInterrupt])
    (sendData (startState .pioDataOut (fun _ => 0) count))
  obtain ⟨blocks, rfl⟩ : ∃ n, blocks = n + 1 := ⟨blocks - 1, by omega⟩
  rw [hevents, sendData_log, eventsFrom_succ] at hlog
  have hhead := PioEvent.block.inj (List.cons.inj hlog).1
  have hlength := congrArg List.length hhead
  unfold blockWords at hlength
  rw [List.length_map, List.length_map, List.length_range, List.length_range, Nat.zero_mul,
    Nat.sub_zero] at hlength
  exact hlength.symm

/-- The data phase is right for the commands that read, and for those that write when a block is one
sector or the command is, and for no other one. -/
theorem pioRight_iff (hpos : 0 < drqDataBlockSize) (hcount : 0 < count)
    (hsectors : ataSectorSizeInWords ∣ count) (hlt : count < 2 ^ 32)
    (hdata : protocolType ≠ .nonData) :
    PioRight drqDataBlockSize protocolType count ↔
      (protocolType = .pioDataOut → drqDataBlockSize = 1 ∨ count = ataSectorSizeInWords) := by
  have hle : ataSectorSizeInWords ≤ count := Nat.le_of_dvd hcount hsectors
  cases protocolType with
  | nonData => exact absurd rfl hdata
  | pioDataIn =>
    constructor
    · intro _ hout
      cases hout
    · exact fun _ => pioRight_in hpos hcount
  | pioDataOut =>
    have hsector : ataSectorSizeInWords = 256 := rfl
    constructor
    · intro hright _
      have hfirst := pioRight_out_first hpos hcount hright
      rw [hsector] at hfirst ⊢
      omega
    · intro hsize
      refine pioRight_out hpos hlt ?_
      rcases hsize rfl with h | h
      · rw [h, Nat.one_mul]
        omega
      · rw [hsector] at h ⊢
        omega

/-- Two sectors are written in blocks of one sector. -/
theorem pioRight_twoSectors : PioRight 1 .pioDataOut 512 :=
  (pioRight_iff Nat.one_pos (by decide) (by decide) (by decide) (by decide)).mpr
    fun _ => Or.inl rfl

/-- Two sectors are not written in a block of two sectors. -/
theorem not_pioRight_all :
    ¬ ∀ (drqDataBlockSize count : ℕ) (protocolType : NonUdmaProtocol), 0 < drqDataBlockSize →
      0 < count → ataSectorSizeInWords ∣ count → count < 2 ^ 32 → protocolType ≠ .nonData →
      PioRight drqDataBlockSize protocolType count := by
  intro hall
  have hright := hall 2 512 .pioDataOut (by decide) (by decide) (by decide) (by decide) (by decide)
  have hfirst := pioRight_out_first (by decide) (by decide) hright
  exact absurd hfirst (by decide)

end

end Mv88fxx81.Sata.Pio
