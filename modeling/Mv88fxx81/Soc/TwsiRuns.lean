import Mv88fxx81.Lib.Run
import Mv88fxx81.Soc.TwsiParts

/-!
# Transactions after a failure

The acknowledge bit of the control register is left as it was by everything but the reading of
the last byte, which clears it, and the end of a complete read, which sets it. A read of several
bytes needs the bit to be set. It is set exactly if every read whose last byte or whose stop
failed was followed by a complete read of at most one byte, and then, and for writes and reads
of one byte always, a transaction with a slave that answers correctly is right.
-/

namespace Mv88fxx81.Soc

open TransitionSystem

variable {t t' : Twsi} {slave : TwsiSlave} {blockSize : ℕ} {block : List UInt8}

/-- In a transaction the first wait is over at once. -/
theorem twsiDataReceive_ready (blockSize : ℕ) (hready : t.Ready) :
    twsiDataReceive blockSize t = receiveLoop blockSize t := by
  unfold twsiDataReceive
  rw [waitInt_ready hready]
  rfl

/-- The bytes of a slave as they are received, all but the last with an acknowledgement. -/
def receivedBus (bytes : ℕ → UInt8) (blockSize : ℕ) : List BusEvent :=
  (List.range blockSize).map fun i => .received (bytes i) (decide (i + 1 < blockSize))

/-- What the rest of a read does that sends `bus` before it receives bytes, with `waits` waits
before the one for the address. All waits but the last two are over when the last byte is asked
for. -/
structure Reads (t : Twsi) (blockSize waits : ℕ) (bus : List BusEvent)
    (result : TwsiStatus × Twsi) : Prop where
  right : (t.control.ack = true ∨ blockSize ≤ 1) ∧ t.Served (waits + blockSize + 2) →
    result.1 = .ok ∧
      result.2.block = t.block ++ (List.range blockSize).map (fun i => t.slave (t.taken + i)) ∧
      result.2.bus =
        t.bus ++ (bus ++ receivedBus (fun i => t.slave (t.taken + i)) blockSize ++ [.stop])
  wrong : ¬((t.control.ack = true ∨ blockSize ≤ 1) ∧ t.Served (waits + blockSize + 2)) →
    result.1 = .fail
  ack : result.2.control.ack = true ↔
    ¬(1 ≤ blockSize ∧ t.Served (waits + blockSize) ∧ ¬t.Served (waits + blockSize + 2)) ∧
      ((blockSize ≤ 1 ∧ t.Served (waits + blockSize + 2)) ∨ t.control.ack = true)

theorem Twsi.Served.le {waits waits' : ℕ} (hserved : t.Served waits) (hle : waits' ≤ waits) :
    t.Served waits' :=
  fun i hlow hhigh => hserved i hlow (by omega)

/-- A read that fails before the last byte is asked for. -/
theorem Reads.early {waits : ℕ} {bus : List BusEvent} {result : TwsiStatus × Twsi}
    (hstatus : result.1 = .fail) (hack : result.2.control.ack = t.control.ack)
    (hunserved : ¬t.Served (waits + blockSize + 2))
    (hlast : 1 ≤ blockSize → ¬t.Served (waits + blockSize)) :
    Reads t blockSize waits bus result where
  right h := absurd h.2 hunserved
  wrong _ := hstatus
  ack := by
    rw [hack]
    constructor
    · intro hack
      exact ⟨fun h => hlast h.1 h.2.1, Or.inr hack⟩
    · rintro ⟨-, ⟨-, hserved⟩ | hack⟩
      · exact absurd hserved hunserved
      · exact hack

/-- A part of a read that comes before the rest. -/
theorem Reads.after {first : TwsiStatus × Twsi} {next : Twsi → TwsiStatus × Twsi}
    {P : Twsi → Prop} {waits waits' : ℕ} {bus bus' : List BusEvent}
    (hpart : (t.Served waits ∧ ∃ t', first = (.ok, t') ∧ t.Passed t' waits bus ∧ P t') ∨
      (¬t.Served waits ∧ first.1 ≠ .ok))
    (hsame : t.Same first.2)
    (hnext : ∀ t', t'.Ready → P t' → Reads t' blockSize waits' bus' (next t')) :
    Reads t blockSize (waits + waits') (bus ++ bus') (orStop first next) := by
  rcases hpart with ⟨hserved, t', rfl, hpassed, hP⟩ | ⟨hunserved, hfirst⟩
  · rw [orStop_ok rfl]
    obtain ⟨hright, hwrong, hack⟩ := hnext t' hpassed.ready hP
    have hall : ∀ n, t.Served (waits + n) ↔ t'.Served n := by
      intro n
      rw [Twsi.served_add hpassed.same.answers hpassed.waits]
      exact and_iff_right hserved
    simp only [hpassed.same.ack, ← hall, ← Nat.add_assoc] at hright hwrong hack
    refine ⟨fun h => ?_, hwrong, hack⟩
    obtain ⟨hok, hblock, hbus⟩ := hright h
    rw [hpassed.block, hpassed.same.slave, hpassed.taken] at hblock
    rw [hpassed.bus, hpassed.same.slave, hpassed.taken] at hbus
    exact ⟨hok, hblock, by rw [hbus]; simp only [List.append_assoc]⟩
  · obtain ⟨hstatus, hstopped⟩ := orStop_failed next hfirst
    exact Reads.early hstatus (hsame.trans hstopped).ack
      (fun h => hunserved (h.le (by omega))) (fun _ h => hunserved (h.le (by omega)))

/-- The end of a read: what remains after the bytes. -/
def readStop (t : Twsi) : TwsiStatus × Twsi :=
  let (status, t) := mvTwsiStopBitSet t
  if status ≠ .ok then (.fail, t) else (.ok, twsiAckBitSet t)

theorem readData_eq (slave : TwsiSlave) (blockSize : ℕ) (t : Twsi) :
    readData slave blockSize t =
      orStop (twsiAddr7BitSet slave.address .read t) fun t =>
        orStop (twsiDataReceive blockSize t) readStop := rfl

/-- A stop with a good answer sets the acknowledge bit again, and any other stop leaves it as
the bytes left it. -/
theorem readStop_spec (hready : t.Ready) :
    (t.Served 1 ∧ (readStop t).1 = .ok ∧ (readStop t).2.bus = t.bus ++ [.stop] ∧
      (readStop t).2.block = t.block ∧ (readStop t).2.control.ack = true) ∨
    (¬t.Served 1 ∧ (readStop t).1 = .fail ∧ (readStop t).2.control.ack = t.control.ack) := by
  have hsame := (mvTwsiStopBitSet_same t).ack
  unfold readStop
  rcases mvTwsiStopBitSet_spec hready with ⟨hserved, t', hstop, hbus, hblock⟩ | ⟨hunserved, hstop⟩
  · rw [hstop]
    exact Or.inl ⟨hserved, rfl, hbus, hblock, rfl⟩
  · obtain ⟨status, t', hresult⟩ : ∃ status t', mvTwsiStopBitSet t = (status, t') := ⟨_, _, rfl⟩
    rw [hresult] at hstop hsame ⊢
    dsimp only at hstop hsame ⊢
    rw [if_pos hstop]
    exact Or.inr ⟨hunserved, rfl, hsame⟩

/-- The bytes and the stop after them. -/
theorem receiveStop_spec (blockSize : ℕ) (hready : t.Ready) (hreceiving : t.Receiving) :
    (((t.control.ack = true ∨ blockSize ≤ 1) ∧ t.Served (blockSize + 1)) ∧
      ∃ t', orStop (twsiDataReceive blockSize t) readStop = (.ok, t') ∧
        t'.block = t.block ++ (List.range blockSize).map (fun i => t.slave (t.taken + i)) ∧
        t'.bus = t.bus ++ (receivedBus (fun i => t.slave (t.taken + i)) blockSize ++ [.stop]) ∧
        t'.control.ack = true) ∨
    (¬((t.control.ack = true ∨ blockSize ≤ 1) ∧ t.Served (blockSize + 1)) ∧
      (orStop (twsiDataReceive blockSize t) readStop).1 = .fail ∧
      ((orStop (twsiDataReceive blockSize t) readStop).2.control.ack = true ↔
        t.control.ack = true ∧ (1 ≤ blockSize → ¬t.Served (blockSize - 1)))) := by
  rw [twsiDataReceive_ready _ hready]
  rcases receiveLoop_spec blockSize hready hreceiving with
    ⟨⟨hbit, hserved⟩, w, hloop, hfilled, hack⟩ | ⟨hnot, hloop, hack⟩
  · have hall : t.Served (blockSize + 1) ↔ w.Served 1 := by
      rw [Twsi.served_add hfilled.answers hfilled.waits]
      exact and_iff_right hserved
    rw [hloop, orStop_ok rfl, hall]
    rcases readStop_spec hfilled.ready with
      ⟨hlast, hstatus, hbus, hblock, hset⟩ | ⟨hlast, hstatus, hkept⟩
    · refine Or.inl ⟨⟨hbit, hlast⟩, (readStop w).2, Prod.ext hstatus rfl, ?_, ?_, hset⟩
      · rw [hblock, hfilled.block]
      · rw [hbus, hfilled.bus, List.append_assoc]
        rfl
    · refine Or.inr ⟨fun h => hlast h.2, hstatus, ?_⟩
      rw [hkept, hack, Bool.and_eq_true, decide_eq_true_iff]
      refine and_congr_right fun _ => ⟨fun hzero => by omega, fun hlater => ?_⟩
      by_contra hpos
      exact hlater (by omega) (hserved.le (by omega))
  · obtain ⟨hstatus, hstopped⟩ := orStop_failed readStop hloop
    refine Or.inr ⟨fun h => hnot ⟨h.1, h.2.le (by omega)⟩, hstatus, ?_⟩
    rw [hstopped.ack, hack]
    have hpos : 1 ≤ blockSize := by
      by_contra hzero
      exact hnot ⟨Or.inr (by omega), t.served_zero.le (by omega)⟩
    simp [hpos]

/-- Past the address, a stop ends the read and the acknowledge bit is set again. -/
theorem readData_reads (slave : TwsiSlave) (blockSize : ℕ) (hready : t.Ready)
    (hstarted : t.status = startConTra ∨ t.status = repeatedStartConTra) :
    Reads t blockSize 0 [.sent (addrByte slave.address .read) true]
      (readData slave blockSize t) := by
  rw [readData_eq]
  rcases twsiAddr7BitSet_spec slave.address .read hready hstarted with
    ⟨hserved, v, haddr, hpassed, hacked⟩ | ⟨hunserved, haddr⟩
  · have hall : ∀ n, t.Served (n + 1) ↔ v.Served n :=
      fun n => Twsi.served_succ hpassed.same.answers hpassed.waits hserved
    rw [haddr, orStop_ok rfl]
    dsimp only
    rcases receiveStop_spec blockSize hpassed.ready (Or.inl hacked) with
      ⟨hgood, t', hok, hblock, hbus, hset⟩ | ⟨hbad, hfail, hack⟩
    · rw [hpassed.same.ack, ← hall] at hgood
      rw [hok]
      refine ⟨fun _ => ⟨rfl, ?_, ?_⟩, fun h => absurd ?_ h, ?_⟩
      · rw [hblock, hpassed.block, hpassed.same.slave, hpassed.taken]
      · rw [hbus, hpassed.bus, hpassed.same.slave, hpassed.taken]
        simp only [List.append_assoc]
      · simpa using hgood
      · rw [Nat.zero_add]
        refine ⟨fun _ => ⟨fun h => h.2.2 hgood.2, ?_⟩, fun _ => hset⟩
        exact hgood.1.symm.imp_left fun hsmall => ⟨hsmall, hgood.2⟩
    · rw [hpassed.same.ack, ← hall] at hbad
      have hlast : 1 ≤ blockSize → (v.Served (blockSize - 1) ↔ t.Served blockSize) := by
        intro hpos
        rw [← hall, Nat.sub_add_cancel hpos]
      refine ⟨fun h => absurd ?_ hbad, fun _ => hfail, ?_⟩
      · simpa using h
      · rw [hack, hpassed.same.ack, Nat.zero_add]
        constructor
        · rintro ⟨hbit, hearly⟩
          exact ⟨fun h => hearly h.1 ((hlast h.1).2 h.2.1), Or.inr hbit⟩
        · rintro ⟨hearly, ⟨hsmall, hserved⟩ | hbit⟩
          · exact absurd ⟨Or.inr hsmall, hserved⟩ hbad
          · refine ⟨hbit, fun hpos h => hearly ⟨hpos, (hlast hpos).1 h, fun hserved => ?_⟩⟩
            exact hbad ⟨Or.inl hbit, hserved⟩
  · obtain ⟨hstatus, hstopped⟩ := orStop_failed _ haddr
    exact Reads.early hstatus ((twsiAddr7BitSet_same _ _ t).trans hstopped).ack
      (fun h => hunserved (h.le (by omega))) (fun hpos h => hunserved (h.le (by omega)))

/-- The waits of a read before the one for the address for reading. -/
def readWaits (slave : TwsiSlave) : ℕ :=
  if slave.validOffset then slave.offBlock.length + 3 else 1

/-- The address for writing and the bytes of the offset. -/
def offsetBus (slave : TwsiSlave) : List BusEvent :=
  slave.offBlock.map fun byte => .sent byte true

/-- What a read sends before it receives bytes. -/
def readBus (slave : TwsiSlave) : List BusEvent :=
  [.start] ++
    (if slave.validOffset then
      [.sent (addrByte slave.address .write) true] ++ offsetBus slave ++ [.start]
    else []) ++
    [.sent (addrByte slave.address .read) true]

/-- The bytes of the offset go over the bus like a block. -/
theorem twsiTargetOffsSet_spec (slave : TwsiSlave) (hready : t.Ready) (hsending : t.Sending) :
    (t.Served slave.offBlock.length ∧
      ∃ t', twsiTargetOffsSet slave t = (.ok, t') ∧
        t.Passed t' slave.offBlock.length (offsetBus slave) ∧ t'.Sending) ∨
    (¬t.Served slave.offBlock.length ∧ (twsiTargetOffsSet slave t).1 ≠ .ok) := by
  unfold twsiTargetOffsSet
  rw [twsiDataTransmit_ready _ hready]
  exact transmitLoop_spec _ hready hsending

/-- A read from any state of the registers. -/
theorem mvTwsiRead_reads (slave : TwsiSlave) (blockSize : ℕ) (hena : t.control.intEna = true) :
    Reads t blockSize (readWaits slave) (readBus slave) (mvTwsiRead slave blockSize t) := by
  unfold mvTwsiRead
  cases hoffset : slave.validOffset with
  | false =>
    have hreads := Reads.after (mvTwsiStartBitSet_spec hena) (mvTwsiStartBitSet_same t)
      fun t' hready hstarted => readData_reads slave blockSize hready hstarted
    simpa [readWaits, readBus, hoffset] using hreads
  | true =>
    have hreads := Reads.after (mvTwsiStartBitSet_spec hena) (mvTwsiStartBitSet_same t)
      fun t₁ hready₁ hstarted₁ =>
        Reads.after (twsiAddr7BitSet_spec slave.address .write hready₁ hstarted₁)
          (twsiAddr7BitSet_same _ _ t₁) fun t₂ hready₂ hacked₂ =>
            Reads.after (twsiTargetOffsSet_spec slave hready₂ (Or.inl hacked₂))
              (twsiDataTransmit_same _ t₂) fun t₃ hready₃ _ =>
                Reads.after (mvTwsiStartBitSet_spec hready₃.intEna) (mvTwsiStartBitSet_same t₃)
                  fun t₄ hready₄ hstarted₄ => readData_reads slave blockSize hready₄ hstarted₄
    have hwaits : 1 + (1 + (slave.offBlock.length + (1 + 0))) = readWaits slave := by
      rw [readWaits, if_pos hoffset]
      omega
    rw [hwaits] at hreads
    simpa [readBus, hoffset] using hreads

/-- What a write sends. -/
def writeBus (slave : TwsiSlave) (block : List UInt8) : List BusEvent :=
  [.start, .sent (addrByte slave.address .write) true] ++
    (if slave.validOffset then offsetBus slave else []) ++
    block.map (fun byte => .sent byte true) ++ [.stop]

/-- What all parts of a transaction keep, the whole transaction keeps. -/
theorem orStop_keeps {P : Twsi → Prop} {first : TwsiStatus × Twsi}
    {next : Twsi → TwsiStatus × Twsi} (hsame : ∀ t t', t.Same t' → P t → P t')
    (hfirst : P first.2) (hnext : ∀ t', P t' → P (next t').2) : P (orStop first next).2 := by
  unfold orStop
  split_ifs
  · exact hsame _ _ (mvTwsiStopBitSet_same _) hfirst
  · exact hnext _ hfirst

/-- A write leaves the acknowledge bit as it is. -/
theorem writeData_same (block : List UInt8) (t : Twsi) : t.Same (writeData block t).2 := by
  refine orStop_keeps (fun _ _ hsame hpast => hpast.trans hsame) (twsiDataTransmit_same _ t) ?_
  intro t' hpast
  have hstop := hpast.trans (mvTwsiStopBitSet_same t')
  dsimp only
  split_ifs <;> exact hstop

theorem mvTwsiWrite_same (slave : TwsiSlave) (block : List UInt8) (t : Twsi) :
    t.Same (mvTwsiWrite slave block t).2 := by
  have hkeep : ∀ t₁ t₂ : Twsi, t₁.Same t₂ → t.Same t₁ → t.Same t₂ :=
    fun _ _ hsame hpast => hpast.trans hsame
  refine orStop_keeps hkeep (mvTwsiStartBitSet_same t) fun t₁ hpast₁ => ?_
  refine orStop_keeps hkeep (hpast₁.trans (twsiAddr7BitSet_same _ _ _)) fun t₂ hpast₂ => ?_
  by_cases hoffset : slave.validOffset = true
  · rw [if_pos hoffset]
    exact orStop_keeps hkeep (hpast₂.trans (twsiDataTransmit_same _ _)) fun t₃ hpast₃ =>
      hpast₃.trans (writeData_same block t₃)
  · rw [if_neg hoffset]
    exact hpast₂.trans (writeData_same block t₂)

theorem receiveLoop_intEna (blockSize : ℕ) (hena : t.control.intEna = true) :
    (receiveLoop blockSize t).2.control.intEna = true := by
  induction blockSize generalizing t with
  | zero => exact hena
  | succ blockSize ih =>
    have hwait : (waitInt (twsiIntFlgClr (receiving blockSize t))).2.control.intEna = true := by
      rw [(waitInt_same _).intEna]
      unfold receiving
      split_ifs <;> exact hena
    rw [receiveLoop_succ]
    dsimp only
    split_ifs
    · exact hwait
    · exact hwait
    · exact ih hwait

theorem readData_intEna (slave : TwsiSlave) (blockSize : ℕ) (hena : t.control.intEna = true) :
    (readData slave blockSize t).2.control.intEna = true := by
  have hkeep : ∀ t t' : Twsi, t.Same t' → t.control.intEna = true → t'.control.intEna = true :=
    fun _ _ hsame hena => hsame.intEna.trans hena
  refine orStop_keeps hkeep (hkeep _ _ (twsiAddr7BitSet_same _ _ _) hena) fun t₁ hena₁ => ?_
  refine orStop_keeps hkeep ?_ fun t₂ hena₂ => ?_
  · unfold twsiDataReceive
    dsimp only
    split_ifs
    · exact hkeep _ _ (waitInt_same t₁) hena₁
    · exact receiveLoop_intEna blockSize (hkeep _ _ (waitInt_same t₁) hena₁)
  · have hstop := hkeep _ _ (mvTwsiStopBitSet_same t₂) hena₂
    dsimp only
    split_ifs <;> exact hstop

/-- The interrupt stays enabled. -/
theorem mvTwsiRead_intEna (slave : TwsiSlave) (blockSize : ℕ) (hena : t.control.intEna = true) :
    (mvTwsiRead slave blockSize t).2.control.intEna = true := by
  have hkeep : ∀ t t' : Twsi, t.Same t' → t.control.intEna = true → t'.control.intEna = true :=
    fun _ _ hsame hena => hsame.intEna.trans hena
  refine orStop_keeps hkeep (hkeep _ _ (mvTwsiStartBitSet_same t) hena) fun t₁ hena₁ => ?_
  by_cases hoffset : slave.validOffset = true
  · rw [if_pos hoffset]
    refine orStop_keeps hkeep (hkeep _ _ (twsiAddr7BitSet_same _ _ t₁) hena₁) fun t₂ hena₂ => ?_
    refine orStop_keeps hkeep (hkeep _ _ (twsiDataTransmit_same _ t₂) hena₂) fun t₃ hena₃ => ?_
    exact orStop_keeps hkeep (hkeep _ _ (mvTwsiStartBitSet_same t₃) hena₃) fun t₄ hena₄ =>
      readData_intEna slave blockSize hena₄
  · rw [if_neg hoffset]
    exact readData_intEna slave blockSize hena₁

/-- A block goes over the bus with the stop after it. -/
theorem writeData_served (block : List UInt8) (hready : t.Ready) (hsending : t.Sending)
    (hserved : ∀ i, t.answers i = .served) :
    ∃ t', writeData block t = (.ok, t') ∧ t'.block = t.block ∧
      t'.bus = t.bus ++ (block.map (fun byte => .sent byte true) ++ [.stop]) := by
  obtain ⟨-, t₁, hloop, hpassed, -⟩ := (transmitLoop_spec block hready hsending).resolve_right
    fun h => h.1 fun i _ _ => hserved i
  obtain ⟨-, t₂, hstop, hbus, hblock⟩ := (mvTwsiStopBitSet_spec hpassed.ready).resolve_right
    fun h => h.1 fun i _ _ => by rw [hpassed.same.answers, hserved]
  refine ⟨t₂, ?_, hblock.trans hpassed.block, ?_⟩
  · unfold writeData
    rw [twsiDataTransmit_ready _ hready, hloop, orStop_ok rfl, hstop]
    rfl
  · rw [hbus, hpassed.bus, List.append_assoc]

/-- A write to a slave that answers correctly delivers the offset and the block. -/
theorem mvTwsiWrite_served (slave : TwsiSlave) (block : List UInt8)
    (hena : t.control.intEna = true) (hserved : ∀ i, t.answers i = .served) :
    ∃ t', mvTwsiWrite slave block t = (.ok, t') ∧ t'.block = t.block ∧
      t'.bus = t.bus ++ writeBus slave block := by
  obtain ⟨-, t₁, hstart, hpassed₁, hstarted⟩ := (mvTwsiStartBitSet_spec hena).resolve_right
    fun h => h.1 fun i _ _ => hserved i
  have hserved₁ : ∀ i, t₁.answers i = .served := by
    rw [hpassed₁.same.answers]
    exact hserved
  obtain ⟨-, t₂, haddr, hpassed₂, hacked⟩ :=
    (twsiAddr7BitSet_spec slave.address .write hpassed₁.ready hstarted).resolve_right
      fun h => h.1 fun i _ _ => hserved₁ i
  have hserved₂ : ∀ i, t₂.answers i = .served := by
    rw [hpassed₂.same.answers]
    exact hserved₁
  have hboth := hpassed₁.trans hpassed₂
  unfold mvTwsiWrite writeBus
  rw [hstart, orStop_ok rfl, haddr, orStop_ok rfl]
  dsimp only
  cases hoffset : slave.validOffset with
  | true =>
    obtain ⟨-, t₃, hset, hpassed₃, hsending⟩ :=
      (twsiTargetOffsSet_spec slave hpassed₂.ready (Or.inl hacked)).resolve_right
        fun h => h.1 fun i _ _ => hserved₂ i
    obtain ⟨t₄, hdata, hblock, hbus⟩ := writeData_served block hpassed₃.ready hsending (by
      rw [hpassed₃.same.answers]
      exact hserved₂)
    have hthree := hboth.trans hpassed₃
    rw [if_pos rfl, hset, orStop_ok rfl, hdata]
    refine ⟨t₄, rfl, hblock.trans hthree.block, ?_⟩
    rw [hbus, hthree.bus]
    simp
  | false =>
    obtain ⟨t₄, hdata, hblock, hbus⟩ :=
      writeData_served block hpassed₂.ready (Or.inl hacked) hserved₂
    rw [if_neg (by decide), hdata]
    refine ⟨t₄, rfl, hblock.trans hboth.block, ?_⟩
    rw [hbus, hboth.bus]
    simp

/-- The answers to the first waits of a call are all good. -/
def TwsiEvent.Served (e : TwsiEvent) (waits : ℕ) : Prop := ∀ i < waits, e.answers i = .served

instance (e : TwsiEvent) (waits : ℕ) : Decidable (e.Served waits) :=
  inferInstanceAs (Decidable (∀ i < waits, e.answers i = .served))

/-- A read that asks for its last byte but fails at it or at the stop. -/
def TwsiEvent.Clears (e : TwsiEvent) : Prop :=
  match e.call with
  | .read slave blockSize => 1 ≤ blockSize ∧ e.Served (readWaits slave + blockSize) ∧
      ¬e.Served (readWaits slave + blockSize + 2)
  | .write _ _ => False

/-- A complete read of at most one byte. -/
def TwsiEvent.Restores (e : TwsiEvent) : Prop :=
  match e.call with
  | .read slave blockSize => blockSize ≤ 1 ∧ e.Served (readWaits slave + blockSize + 2)
  | .write _ _ => False

/-- A call for at least one byte to or from a slave that answers correctly. -/
def TwsiEvent.Correct (e : TwsiEvent) : Prop :=
  (∀ i, e.answers i = .served) ∧
    match e.call with
    | .read _ blockSize => 1 ≤ blockSize
    | .write _ _ => True

/-- The result that a call has to have: a read returns the bytes of the slave and acknowledges
all but the last, and a write delivers the offset and the block. -/
def TwsiEvent.Right (e : TwsiEvent) (result : TwsiResult) : Prop :=
  match e.call with
  | .read slave blockSize =>
    result = ⟨.ok, (List.range blockSize).map e.bytes,
      readBus slave ++ receivedBus e.bytes blockSize ++ [.stop]⟩
  | .write slave block => result = ⟨.ok, [], writeBus slave block⟩

/-- A call that does not need the acknowledge bit. -/
def TwsiEvent.Short (e : TwsiEvent) : Prop :=
  match e.call with
  | .read _ blockSize => blockSize = 1
  | .write _ _ => True

/-- The controller at the beginning of a call. -/
def Twsi.begin (t : Twsi) (e : TwsiEvent) : Twsi :=
  { t with
    answers := e.answers
    waits := 0
    slave := e.bytes
    taken := 0
    bus := []
    block := [] }

theorem Twsi.begin_served (t : Twsi) (e : TwsiEvent) (waits : ℕ) :
    (t.begin e).Served waits ↔ e.Served waits := by
  unfold Twsi.Served TwsiEvent.Served
  constructor
  · intro hall i hi
    exact hall i (Nat.zero_le i) (by simpa [Twsi.begin] using hi)
  · intro hall i _ hi
    exact hall i (by simpa [Twsi.begin] using hi)

theorem twsiCall_read {e : TwsiEvent} (hcall : e.call = .read slave blockSize) :
    twsiCall t e =
      (⟨(mvTwsiRead slave blockSize (t.begin e)).1,
        (mvTwsiRead slave blockSize (t.begin e)).2.block,
        (mvTwsiRead slave blockSize (t.begin e)).2.bus⟩,
        (mvTwsiRead slave blockSize (t.begin e)).2) := by
  unfold twsiCall
  rw [hcall]
  rfl

theorem twsiCall_write {e : TwsiEvent} (hcall : e.call = .write slave block) :
    twsiCall t e =
      (⟨(mvTwsiWrite slave block (t.begin e)).1, (mvTwsiWrite slave block (t.begin e)).2.block,
        (mvTwsiWrite slave block (t.begin e)).2.bus⟩,
        (mvTwsiWrite slave block (t.begin e)).2) := by
  unfold twsiCall
  rw [hcall]
  rfl

/-- The interrupt stays enabled over a call. -/
theorem twsiCall_intEna (e : TwsiEvent) (hena : t.control.intEna = true) :
    (twsiCall t e).2.control.intEna = true := by
  cases hcall : e.call with
  | read slave blockSize =>
    rw [twsiCall_read hcall]
    exact mvTwsiRead_intEna slave blockSize hena
  | write slave block =>
    rw [twsiCall_write hcall]
    exact (mvTwsiWrite_same slave block (t.begin e)).intEna.trans hena

/-- The acknowledge bit after a call. -/
theorem twsiCall_ack (e : TwsiEvent) (hena : t.control.intEna = true) :
    (twsiCall t e).2.control.ack = true ↔
      ¬e.Clears ∧ (e.Restores ∨ t.control.ack = true) := by
  unfold TwsiEvent.Clears TwsiEvent.Restores
  cases hcall : e.call with
  | read slave blockSize =>
    rw [twsiCall_read hcall]
    have hack := (mvTwsiRead_reads (t := t.begin e) slave blockSize hena).ack
    simp only [Twsi.begin_served] at hack
    exact hack
  | write slave block =>
    rw [twsiCall_write hcall]
    have hack := (mvTwsiWrite_same slave block (t.begin e)).ack
    dsimp only
    rw [hack]
    exact ⟨fun hbit => ⟨id, Or.inr hbit⟩, fun h => h.2.resolve_left id⟩

/-- A call to a slave that answers correctly is right exactly if it does not need the
acknowledge bit or the bit is set. -/
theorem twsiCall_right_iff (e : TwsiEvent) (hena : t.control.intEna = true) (hcorrect : e.Correct) :
    e.Right (twsiCall t e).1 ↔ e.Short ∨ t.control.ack = true := by
  obtain ⟨hserved, hsize⟩ := hcorrect
  unfold TwsiEvent.Right TwsiEvent.Short
  cases hcall : e.call with
  | read slave blockSize =>
    rw [hcall] at hsize
    rw [twsiCall_read hcall]
    have hreads := mvTwsiRead_reads (t := t.begin e) slave blockSize hena
    have hall : (t.begin e).Served (readWaits slave + blockSize + 2) := fun i _ _ => hserved i
    dsimp only at hsize ⊢
    constructor
    · intro hright
      by_contra hbit
      have hfail := hreads.wrong fun h => hbit (h.1.symm.imp_left fun hsmall => by omega)
      rw [TwsiResult.mk.injEq, hfail] at hright
      exact absurd hright.1 (by decide)
    · intro hbit
      obtain ⟨hok, hblock, hbus⟩ :=
        hreads.right ⟨hbit.symm.imp_right fun hone => by omega, hall⟩
      rw [hok, hblock, hbus]
      simp [Twsi.begin]
  | write slave block =>
    rw [twsiCall_write hcall]
    obtain ⟨t', hwrite, hblock, hbus⟩ :=
      mvTwsiWrite_served (t := t.begin e) slave block hena hserved
    rw [hwrite]
    dsimp only
    rw [hblock, hbus]
    simp [Twsi.begin]

/-- Every read that cleared the acknowledge bit was followed by one that set it again. -/
def Restored (events : List TwsiEvent) : Prop :=
  ∀ before e after, events = before ++ e :: after → e.Clears → ∃ e' ∈ after, e'.Restores

theorem restored_nil : Restored [] := by
  intro before e after hevents
  simp at hevents

/-- What one call more does to the acknowledge bit. -/
theorem restored_concat {events : List TwsiEvent} {e : TwsiEvent} :
    Restored (events ++ [e]) ↔ ¬e.Clears ∧ (e.Restores ∨ Restored events) := by
  constructor
  · intro hrestored
    refine ⟨fun hclears => ?_, ?_⟩
    · obtain ⟨e', hlater, -⟩ := hrestored events e [] rfl hclears
      simp at hlater
    · by_cases hrestores : e.Restores
      · exact Or.inl hrestores
      · refine Or.inr fun before e₁ after hevents hclears => ?_
        obtain ⟨e', hlater, hrestores'⟩ :=
          hrestored before e₁ (after ++ [e]) (by simp [hevents]) hclears
        rcases List.mem_append.1 hlater with hlater | hlast
        · exact ⟨e', hlater, hrestores'⟩
        · obtain rfl := List.mem_singleton.1 hlast
          exact absurd hrestores' hrestores
  · rintro ⟨hkeeps, hrestores⟩ before e₁ after hevents hclears
    rcases List.eq_nil_or_concat after with rfl | ⟨after, e₂, rfl⟩
    · obtain ⟨-, he⟩ := List.append_inj' hevents rfl
      obtain rfl := (List.cons.inj he).1
      exact absurd hclears hkeeps
    · rw [List.concat_eq_append, ← List.cons_append, ← List.append_assoc] at hevents
      obtain ⟨hbefore, he⟩ := List.append_inj' hevents rfl
      obtain rfl := (List.cons.inj he).1
      rw [List.concat_eq_append]
      rcases hrestores with hrestores | hrestored
      · exact ⟨e, by simp, hrestores⟩
      · obtain ⟨e', hlater, hrestores'⟩ := hrestored before e₁ after hbefore hclears
        exact ⟨e', by simp [hlater], hrestores'⟩

variable {trace : List (TwsiEvent × TwsiResult)}

/-- In every run the acknowledge bit is set exactly if it was restored. -/
theorem twsiRun_ack (hrun : Run twsiStep (fun _ _ => True) mvTwsiInit trace t) :
    t.control.intEna = true ∧ (t.control.ack = true ↔ Restored (trace.map Prod.fst)) := by
  refine hrun.invariant
    (I := fun trace t => t.control.intEna = true ∧
      (t.control.ack = true ↔ Restored (trace.map Prod.fst)))
    ⟨rfl, fun _ => restored_nil, fun _ => rfl⟩ ?_
  rintro trace t e result t' ⟨hena, hack⟩ - hstep
  have hcall : twsiCall t e = (result, t') := Option.some.inj hstep
  have hena' := twsiCall_intEna e hena
  have hack' := twsiCall_ack e hena
  rw [hcall] at hena' hack'
  rw [hack] at hack'
  refine ⟨hena', ?_⟩
  rw [List.map_append, List.map_singleton, restored_concat]
  exact hack'

/-- In every run a call to a slave that answers correctly is right exactly if it does not need
the acknowledge bit or every read that cleared the bit was followed by one that set it again. -/
theorem twsiRun_right_iff (hrun : Run twsiStep (fun _ _ => True) mvTwsiInit trace t)
    {e : TwsiEvent} (hcorrect : e.Correct) :
    e.Right (twsiCall t e).1 ↔ e.Short ∨ Restored (trace.map Prod.fst) := by
  obtain ⟨hena, hack⟩ := twsiRun_ack hrun
  rw [twsiCall_right_iff e hena hcorrect, hack]

/-- A device without offsets. -/
def plainSlave : TwsiSlave := ⟨0x50, false, 0, false⟩

/-- A read of one byte in which the byte does not arrive in time. -/
def lateRead : TwsiEvent where
  call := .read plainSlave 1
  answers := fun i =>
    if i = 2 then .silent ⟨false, false, false, 0, adPlsRdBitTraAckRec⟩ else .served
  bytes := fun _ => 0xaa

/-- A read of two bytes that are sent correctly. -/
def goodRead : TwsiEvent where
  call := .read plainSlave 2
  answers := fun _ => .served
  bytes := fun i => if i = 0 then 0x12 else 0x34

/-- The slave of `goodRead` answers correctly. -/
theorem goodRead_correct : goodRead.Correct := ⟨fun _ => rfl, Nat.le_succ 1⟩

/-- A read of one byte that arrives. -/
def shortRead : TwsiEvent := { goodRead with call := .read plainSlave 1 }

/-- A read of two bytes is right when a read of one byte has set the bit that a late one cleared. -/
theorem twsiRun_right_restored :
    goodRead.Right
      (twsiCall (twsiCall (twsiCall mvTwsiInit lateRead).2 shortRead).2 goodRead).1 := by
  have hkeeps : ¬ shortRead.Clears := fun hclears => hclears.2.2 fun _ _ => rfl
  have hrestored : Restored ([lateRead] ++ [shortRead]) :=
    restored_concat.mpr ⟨hkeeps, Or.inl ⟨Nat.le_refl 1, fun _ _ => rfl⟩⟩
  exact (twsiRun_right_iff (Run.next (Run.next .start trivial rfl) trivial rfl)
    goodRead_correct).2 (Or.inr hrestored)

/-- After a byte that did not arrive in time, a read of two bytes fails. -/
theorem twsiRun_lateRead :
    ¬∀ (trace : List (TwsiEvent × TwsiResult)) (t : Twsi) (e : TwsiEvent),
      Run twsiStep (fun _ _ => True) mvTwsiInit trace t → e.Correct →
        e.Right (twsiCall t e).1 := by
  intro hclaim
  have hrun : Run twsiStep (fun _ _ => True) mvTwsiInit
      [(lateRead, (twsiCall mvTwsiInit lateRead).1)] (twsiCall mvTwsiInit lateRead).2 :=
    Run.next .start trivial rfl
  have hright := hclaim _ _ goodRead hrun goodRead_correct
  have hfail : (twsiCall (twsiCall mvTwsiInit lateRead).2 goodRead).1.status = .fail := by decide
  have hok : (twsiCall (twsiCall mvTwsiInit lateRead).2 goodRead).1.status = .ok :=
    congrArg TwsiResult.status hright
  rw [hfail] at hok
  exact absurd hok (by decide)

end Mv88fxx81.Soc
