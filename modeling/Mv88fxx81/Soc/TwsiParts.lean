import Mv88fxx81.Soc.Twsi
import Mathlib.Tactic.Cases

/-!
# The parts of a two-wire transaction

One lemma for each part: a start, an address, a block that is sent, the bytes that are received
and a stop. A part succeeds exactly if the answers to its waits are good, where the bytes
that are received also need the acknowledge bit, and each part says what it leaves for the next
one. All parts but the receiving of bytes leave the acknowledge bit as it is.
-/

namespace Mv88fxx81.Soc

variable {t t' t'' : Twsi} {slave : TwsiSlave} {blockSize : ℕ} {block : List UInt8}

/-- The parts of the controller that only the driver changes are the same. -/
structure Twsi.Same (t t' : Twsi) : Prop where
  answers : t'.answers = t.answers
  slave : t'.slave = t.slave
  ack : t'.control.ack = t.control.ack
  intEna : t'.control.intEna = t.control.intEna

theorem Twsi.Same.refl (t : Twsi) : t.Same t := ⟨rfl, rfl, rfl, rfl⟩

theorem Twsi.Same.trans (hfirst : t.Same t') (hsecond : t'.Same t'') : t.Same t'' :=
  ⟨hsecond.answers.trans hfirst.answers, hsecond.slave.trans hfirst.slave,
    hsecond.ack.trans hfirst.ack, hsecond.intEna.trans hfirst.intEna⟩

theorem Twsi.perform_same (t : Twsi) (ok : Bool) : t.Same (t.perform ok) := by
  unfold Twsi.perform
  cases t.action with
  | receive => cases ok <;> exact ⟨rfl, rfl, rfl, rfl⟩
  | _ => exact ⟨rfl, rfl, rfl, rfl⟩

theorem Twsi.answer_same (t : Twsi) : t.Same t.answer.2 := by
  have hcounted : t.Same { t with waits := t.waits + 1 } := ⟨rfl, rfl, rfl, rfl⟩
  unfold Twsi.answer
  cases t.answers t.waits with
  | served => exact hcounted.trans (Twsi.perform_same _ _)
  | refused => exact hcounted.trans (Twsi.perform_same _ _)
  | silent late => exact ⟨rfl, rfl, rfl, rfl⟩

theorem waitInt_same (t : Twsi) : t.Same (waitInt t).2 := by
  unfold waitInt
  split_ifs with hflag
  · exact Twsi.Same.refl t
  · exact t.answer_same

theorem waitStop_same (t : Twsi) : t.Same (waitStop t).2 := by
  unfold waitStop
  split_ifs with hstop
  · exact Twsi.Same.refl t
  · exact t.answer_same

/-- Starts and stops leave the acknowledge bit as it is, whatever the registers hold. -/
theorem mvTwsiStopBitSet_same (t : Twsi) : t.Same (mvTwsiStopBitSet t).2 := by
  have hset : t.Same (twsiIntFlgClr { t with control := { t.control with stop := true } }) :=
    ⟨rfl, rfl, rfl, rfl⟩
  have hwait := hset.trans (waitStop_same _)
  unfold mvTwsiStopBitSet
  dsimp only
  split_ifs <;> exact hwait

theorem mvTwsiStartBitSet_same (t : Twsi) : t.Same (mvTwsiStartBitSet t).2 := by
  have hset : t.Same
      (if twsiMainIntGet t then
        twsiIntFlgClr { t with control := { t.control with start := true } }
      else { t with control := { t.control with start := true } }) := by
    split_ifs <;> exact ⟨rfl, rfl, rfl, rfl⟩
  have hwait := hset.trans (waitInt_same _)
  unfold mvTwsiStartBitSet
  dsimp only
  split_ifs at hwait ⊢ <;> exact hwait

theorem twsiAddr7BitSet_same (deviceAddress : UInt32) (command : TwsiCmd) (t : Twsi) :
    t.Same (twsiAddr7BitSet deviceAddress command t).2 := by
  have hset : t.Same (twsiIntFlgClr { t with data := addrByte deviceAddress command }) :=
    ⟨rfl, rfl, rfl, rfl⟩
  have hwait := hset.trans (waitInt_same _)
  unfold twsiAddr7BitSet
  dsimp only
  split_ifs <;> exact hwait

theorem transmitLoop_same (block : List UInt8) (t : Twsi) :
    t.Same (transmitLoop block t).2 := by
  induction block generalizing t with
  | nil => exact Twsi.Same.refl t
  | cons byte block ih =>
    have hset : t.Same (twsiIntFlgClr { t with data := byte }) := ⟨rfl, rfl, rfl, rfl⟩
    have hwait := hset.trans (waitInt_same _)
    rw [transmitLoop]
    dsimp only
    split_ifs
    · exact hwait
    · exact hwait
    · exact hwait.trans (ih _)

theorem twsiDataTransmit_same (block : List UInt8) (t : Twsi) :
    t.Same (twsiDataTransmit block t).2 := by
  unfold twsiDataTransmit
  dsimp only
  split_ifs
  · exact waitInt_same t
  · exact (waitInt_same t).trans (transmitLoop_same block _)

/-- A part that fails is followed by a stop. -/
theorem orStop_failed {result : TwsiStatus × Twsi} (next : Twsi → TwsiStatus × Twsi)
    (hfailed : result.1 ≠ .ok) :
    (orStop result next).1 = .fail ∧ result.2.Same (orStop result next).2 := by
  unfold orStop
  rw [if_pos hfailed]
  exact ⟨rfl, mvTwsiStopBitSet_same _⟩

theorem orStop_ok {result : TwsiStatus × Twsi} {next : Twsi → TwsiStatus × Twsi}
    (hok : result.1 = .ok) : orStop result next = next result.2 := by
  unfold orStop
  rw [if_neg (not_not_intro hok)]

/-- The controller waits for the next request of the transaction. -/
structure Twsi.Ready (t : Twsi) : Prop where
  intEna : t.control.intEna = true
  intFlag : t.control.intFlag = true
  stop : t.control.stop = false
  start : t.control.start = false

theorem Twsi.Ready.twsiMainIntGet (hready : t.Ready) : twsiMainIntGet t = true := by
  unfold Soc.twsiMainIntGet
  rw [hready.intFlag, hready.intEna]
  rfl

theorem waitInt_ready (hready : t.Ready) : waitInt t = (true, t) := by
  unfold waitInt
  rw [if_pos hready.twsiMainIntGet]

/-- A part of a transaction went over the bus in this many waits. -/
structure Twsi.Passed (t t' : Twsi) (waits : ℕ) (bus : List BusEvent) : Prop where
  same : t.Same t'
  ready : t'.Ready
  waits : t'.waits = t.waits + waits
  taken : t'.taken = t.taken
  bus : t'.bus = t.bus ++ bus
  block : t'.block = t.block

theorem Twsi.Passed.trans {waits waits' : ℕ} {bus bus' : List BusEvent}
    (hfirst : t.Passed t' waits bus) (hsecond : t'.Passed t'' waits' bus') :
    t.Passed t'' (waits + waits') (bus ++ bus') where
  same := hfirst.same.trans hsecond.same
  ready := hsecond.ready
  waits := by rw [hsecond.waits, hfirst.waits, Nat.add_assoc]
  taken := hsecond.taken.trans hfirst.taken
  bus := by rw [hsecond.bus, hfirst.bus, List.append_assoc]
  block := hsecond.block.trans hfirst.block

/-- The controller with one answer more used. -/
def Twsi.counted (t : Twsi) : Twsi := { t with waits := t.waits + 1 }

/-- With the flag clear a wait takes one answer. -/
theorem waitInt_answered (hflag : t.control.intFlag = false) :
    (t.answers t.waits = .served ∧
      waitInt t = (twsiMainIntGet (t.counted.perform true), t.counted.perform true)) ∨
    (t.answers t.waits ≠ .served ∧
      ((waitInt t).1 = false ∨
        waitInt t = (twsiMainIntGet (t.counted.perform false), t.counted.perform false))) := by
  have hmain : ¬twsiMainIntGet t = true := by
    unfold twsiMainIntGet
    rw [hflag]
    exact Bool.false_ne_true
  unfold waitInt
  rw [if_neg hmain]
  unfold Twsi.answer
  cases t.answers t.waits with
  | served => exact Or.inl ⟨rfl, rfl⟩
  | refused => exact Or.inr ⟨by decide, Or.inr rfl⟩
  | silent late => exact Or.inr ⟨by simp, Or.inl rfl⟩

/-- The answers to the next waits are all good. -/
def Twsi.Served (t : Twsi) (waits : ℕ) : Prop :=
  ∀ i, t.waits ≤ i → i < t.waits + waits → t.answers i = .served

theorem Twsi.served_zero (t : Twsi) : t.Served 0 :=
  fun _ hlow hhigh => absurd hhigh (Nat.not_lt.2 hlow)

theorem Twsi.served_one : t.Served 1 ↔ t.answers t.waits = .served := by
  constructor
  · intro hall
    exact hall t.waits (Nat.le_refl _) (by omega)
  · intro hserved i hlow hhigh
    obtain rfl : i = t.waits := by omega
    exact hserved

theorem Twsi.served_add {waits waits' : ℕ} (hanswers : t'.answers = t.answers)
    (hwaits : t'.waits = t.waits + waits) :
    t.Served (waits + waits') ↔ t.Served waits ∧ t'.Served waits' := by
  unfold Twsi.Served
  rw [hanswers, hwaits]
  constructor
  · intro hall
    exact ⟨fun i hlow hhigh => hall i (by omega) (by omega),
      fun i hlow hhigh => hall i (by omega) (by omega)⟩
  · rintro ⟨hfirst, hrest⟩ i hlow hhigh
    rcases Nat.lt_or_ge i (t.waits + waits) with hbefore | hafter
    · exact hfirst i hlow hbefore
    · exact hrest i hafter (by omega)

theorem Twsi.served_succ {waits : ℕ} (hanswers : t'.answers = t.answers)
    (hwaits : t'.waits = t.waits + 1) (hserved : t.Served 1) :
    t.Served (waits + 1) ↔ t'.Served waits := by
  rw [Nat.add_comm, Twsi.served_add hanswers hwaits]
  exact and_iff_right hserved

theorem Twsi.not_served {waits : ℕ} (hunserved : ¬t.Served 1) (hpos : 0 < waits) :
    ¬t.Served waits :=
  fun hall => hunserved fun i hlow hhigh => hall i hlow (by omega)

/-- The driver has cleared the interrupt flag to ask for the next part of the transaction. -/
structure Twsi.Asked (t u : Twsi) : Prop where
  same : t.Same u
  intEna : u.control.intEna = true
  intFlag : u.control.intFlag = false
  waits : u.waits = t.waits
  taken : u.taken = t.taken
  bus : u.bus = t.bus
  block : u.block = t.block

variable {u : Twsi} {event : Bool → BusEvent} {status : Bool → UInt8}

/-- The wait takes the next answer. If that is good, the request is carried out, and otherwise
the driver sees a time-out or the status after a refusal. -/
theorem Twsi.Asked.request (hasked : t.Asked u)
    (hperform : ∀ ok, u.counted.Passed (u.counted.perform ok) 0 [event ok] ∧
      (u.counted.perform ok).status = status ok) :
    (t.Served 1 ∧
      ∃ v, waitInt u = (true, v) ∧ t.Passed v 1 [event true] ∧ v.status = status true) ∨
    (¬t.Served 1 ∧
      ((waitInt u).1 = false ∨ ∃ v, waitInt u = (true, v) ∧ v.status = status false)) := by
  have hanswer : u.answers u.waits = t.answers t.waits := by
    rw [hasked.same.answers, hasked.waits]
  rcases waitInt_answered hasked.intFlag with ⟨hserved, hwait⟩ | ⟨hunserved, hwait⟩
  · obtain ⟨hpassed, hstatus⟩ := hperform true
    rw [hpassed.ready.twsiMainIntGet] at hwait
    refine Or.inl ⟨Twsi.served_one.2 (hanswer ▸ hserved), _, hwait,
      ⟨?_, hpassed.ready, ?_, ?_, ?_, ?_⟩, hstatus⟩
    · exact hasked.same.trans ⟨hpassed.same.answers, hpassed.same.slave, hpassed.same.ack,
        hpassed.same.intEna⟩
    · rw [hpassed.waits, Twsi.counted, hasked.waits]
    · exact hpassed.taken.trans hasked.taken
    · exact hpassed.bus.trans (congrArg (· ++ _) hasked.bus)
    · exact hpassed.block.trans hasked.block
  · refine Or.inr ⟨fun h => hunserved (hanswer.trans (Twsi.served_one.1 h)),
      hwait.imp_right fun hwait => ?_⟩
    obtain ⟨hpassed, hstatus⟩ := hperform false
    rw [hpassed.ready.twsiMainIntGet] at hwait
    exact ⟨_, hwait, hstatus⟩

/-- The controller sends a start, and takes back a stop that was asked for. -/
theorem Twsi.perform_start (hena : t.control.intEna = true) (haction : t.action = .start)
    (ok : Bool) :
    t.Passed (t.perform ok) 0 [.start] ∧
      (t.perform ok).status =
        if ok then if t.status = noRelSts then startConTra else repeatedStartConTra
        else lostArbitration := by
  unfold Twsi.perform
  rw [haction]
  exact ⟨⟨⟨rfl, rfl, rfl, rfl⟩, ⟨hena, rfl, rfl, rfl⟩, rfl, rfl, rfl, rfl⟩, rfl⟩

/-- A start or a stop that is asked for comes first. -/
theorem Twsi.action_later (hstart : t.action ≠ .start) (hstop : t.action ≠ .stop) :
    t.control.stop = false ∧ t.control.start = false := by
  unfold Twsi.action at hstart hstop
  cases hbit : t.control.start with
  | true => simp [hbit] at hstart
  | false =>
    cases hbit' : t.control.stop with
    | true => simp [hbit, hbit'] at hstop
    | false => exact ⟨rfl, rfl⟩

/-- The controller sends an address. -/
theorem Twsi.perform_address (hena : t.control.intEna = true) (haction : t.action = .address)
    (ok : Bool) :
    t.Passed (t.perform ok) 0 [.sent t.data ok] ∧
      (t.perform ok).status = addressStatus t.data ok := by
  obtain ⟨hstop, hstart⟩ := t.action_later (by simp [haction]) (by simp [haction])
  unfold Twsi.perform
  rw [haction]
  exact ⟨⟨⟨rfl, rfl, rfl, rfl⟩, ⟨hena, rfl, hstop, hstart⟩, rfl, rfl, rfl, rfl⟩, rfl⟩

/-- The controller sends a byte. -/
theorem Twsi.perform_data (hena : t.control.intEna = true) (haction : t.action = .data)
    (ok : Bool) :
    t.Passed (t.perform ok) 0 [.sent t.data ok] ∧
      (t.perform ok).status = if ok then tranDataByteAckRec else tranDataByteAckNotRec := by
  obtain ⟨hstop, hstart⟩ := t.action_later (by simp [haction]) (by simp [haction])
  unfold Twsi.perform
  rw [haction]
  exact ⟨⟨⟨rfl, rfl, rfl, rfl⟩, ⟨hena, rfl, hstop, hstart⟩, rfl, rfl, rfl, rfl⟩, rfl⟩

/-- Before the wait for a start its bit is set and the interrupt flag is clear. -/
theorem mvTwsiStartBitSet_eq (hena : t.control.intEna = true) :
    mvTwsiStartBitSet t =
      match waitInt { t with control := { t.control with start := true, intFlag := false } } with
      | (inTime, t) =>
        if inTime = false then (.timeout, t)
        else if t.control.start then (.fail, t)
        else if t.status ≠ startConTra ∧ t.status ≠ repeatedStartConTra then (.fail, t)
        else (.ok, t) := by
  have hset : (if twsiMainIntGet t = true then
        twsiIntFlgClr { t with control := { t.control with start := true } }
      else { t with control := { t.control with start := true } }) =
      { t with control := { t.control with start := true, intFlag := false } } := by
    cases hflag : t.control.intFlag with
    | true => simp [twsiMainIntGet, hflag, hena, twsiIntFlgClr]
    | false => simp [twsiMainIntGet, hflag]
  unfold mvTwsiStartBitSet
  dsimp only
  rw [← hset]

/-- A start goes over the bus whatever the registers hold, if the answer is good, and fails
otherwise. -/
theorem mvTwsiStartBitSet_spec (hena : t.control.intEna = true) :
    (t.Served 1 ∧
      ∃ t', mvTwsiStartBitSet t = (.ok, t') ∧ t.Passed t' 1 [.start] ∧
        (t'.status = startConTra ∨ t'.status = repeatedStartConTra)) ∨
    (¬t.Served 1 ∧ (mvTwsiStartBitSet t).1 ≠ .ok) := by
  rw [mvTwsiStartBitSet_eq hena]
  have hasked : t.Asked { t with control := { t.control with start := true, intFlag := false } } :=
    ⟨⟨rfl, rfl, rfl, rfl⟩, hena, rfl, rfl, rfl, rfl, rfl⟩
  generalize hu : { t with control := { t.control with start := true, intFlag := false } } = u
    at hasked ⊢
  have haction : u.counted.action = .start := by
    subst hu
    simp [Twsi.counted, Twsi.action]
  rcases hasked.request (Twsi.perform_start hasked.intEna haction) with
    ⟨hserved, v, hwait, hpassed, hstatus⟩ | ⟨hunserved, hwait | ⟨v, hwait, hstatus⟩⟩
  · have hgood : v.status = startConTra ∨ v.status = repeatedStartConTra := by
      rw [hstatus, if_pos rfl]
      split_ifs
      · exact Or.inl rfl
      · exact Or.inr rfl
    refine Or.inl ⟨hserved, v, ?_, hpassed, hgood⟩
    rw [hwait]
    dsimp only
    rw [if_neg (by decide), if_neg (by simp [hpassed.ready.start]), if_neg (by tauto)]
  · refine Or.inr ⟨hunserved, ?_⟩
    obtain ⟨inTime, v, hresult⟩ : ∃ inTime v, waitInt u = (inTime, v) := ⟨_, _, rfl⟩
    rw [hresult] at hwait ⊢
    obtain rfl : inTime = false := hwait
    simp
  · refine Or.inr ⟨hunserved, ?_⟩
    rw [hwait]
    simp [hstatus, lostArbitration, startConTra, repeatedStartConTra]

/-- The lowest bit of an address byte is the direction. -/
theorem addrByte_write (deviceAddress : UInt32) : addrByte deviceAddress .write &&& 1 = 0 := by
  unfold addrByte
  rw [← UInt8.toBitVec_inj]
  ext i hi
  simp
  grind

theorem addrByte_read (deviceAddress : UInt32) : addrByte deviceAddress .read &&& 1 = 1 := by
  unfold addrByte
  rw [← UInt8.toBitVec_inj]
  ext i hi
  simp
  grind

/-- The status that `twsiAddr7BitSet` waits for. -/
def TwsiCmd.acked : TwsiCmd → UInt8
  | .write => adPlsWrBitTraAckRec
  | .read => adPlsRdBitTraAckRec

theorem addressStatus_eq (deviceAddress : UInt32) (command : TwsiCmd) (ok : Bool) :
    addressStatus (addrByte deviceAddress command) ok = command.acked ↔ ok = true := by
  unfold addressStatus
  cases command with
  | write =>
    rw [addrByte_write, if_neg (by decide)]
    cases ok <;> simp [TwsiCmd.acked, adPlsWrBitTraAckNotRec, adPlsWrBitTraAckRec]
  | read =>
    rw [addrByte_read, if_pos rfl]
    cases ok <;> simp [TwsiCmd.acked, adPlsRdBitTraAckNotRec, adPlsRdBitTraAckRec]

theorem TwsiCmd.acked_ne_iff (command : TwsiCmd) (status : UInt8) :
    ((status ≠ adPlsRdBitTraAckRec ∧ command = .read) ∨
      (status ≠ adPlsWrBitTraAckRec ∧ command = .write)) ↔ status ≠ command.acked := by
  cases command <;> simp [TwsiCmd.acked]

/-- After a start an address goes over the bus if the answer is good, and fails otherwise. -/
theorem twsiAddr7BitSet_spec (deviceAddress : UInt32) (command : TwsiCmd) (hready : t.Ready)
    (hstarted : t.status = startConTra ∨ t.status = repeatedStartConTra) :
    (t.Served 1 ∧
      ∃ t', twsiAddr7BitSet deviceAddress command t = (.ok, t') ∧
        t.Passed t' 1 [.sent (addrByte deviceAddress command) true] ∧
        t'.status = command.acked) ∨
    (¬t.Served 1 ∧ (twsiAddr7BitSet deviceAddress command t).1 ≠ .ok) := by
  have hasked : t.Asked (twsiIntFlgClr { t with data := addrByte deviceAddress command }) :=
    ⟨⟨rfl, rfl, rfl, rfl⟩, hready.intEna, rfl, rfl, rfl, rfl, rfl⟩
  have haction : (twsiIntFlgClr
      { t with data := addrByte deviceAddress command }).counted.action = .address := by
    simp [Twsi.action, Twsi.counted, twsiIntFlgClr, hready.start, hready.stop, hstarted]
  unfold twsiAddr7BitSet
  simp only [TwsiCmd.acked_ne_iff]
  rcases hasked.request (Twsi.perform_address hasked.intEna haction) with
    ⟨hserved, v, hwait, hpassed, hstatus⟩ | ⟨hunserved, hwait | ⟨v, hwait, hstatus⟩⟩
  · have hacked : v.status = command.acked :=
      hstatus.trans ((addressStatus_eq deviceAddress command true).2 rfl)
    refine Or.inl ⟨hserved, v, ?_, hpassed, hacked⟩
    rw [hwait]
    simp [hacked]
  · refine Or.inr ⟨hunserved, ?_⟩
    simp [hwait]
  · refine Or.inr ⟨hunserved, ?_⟩
    have hacked : v.status ≠ command.acked := by
      rw [hstatus]
      exact fun heq => absurd ((addressStatus_eq deviceAddress command false).1 heq) (by decide)
    rw [hwait]
    simp [hacked]

/-- The controller is ready to send a byte. -/
def Twsi.Sending (t : Twsi) : Prop :=
  t.status = adPlsWrBitTraAckRec ∨ t.status = tranDataByteAckRec

/-- The bytes of a block go over the bus if the answers are good, and otherwise the loop
fails. -/
theorem transmitLoop_spec (block : List UInt8) (hready : t.Ready) (hsending : t.Sending) :
    (t.Served block.length ∧
      ∃ t', transmitLoop block t = (.ok, t') ∧
        t.Passed t' block.length (block.map fun byte => .sent byte true) ∧ t'.Sending) ∨
    (¬t.Served block.length ∧ (transmitLoop block t).1 ≠ .ok) := by
  induction block generalizing t with
  | nil =>
    refine Or.inl ⟨fun i hlow hhigh => ?_, t, rfl, ?_, hsending⟩
    · exact absurd hhigh (by simpa using hlow)
    · exact ⟨Twsi.Same.refl t, hready, rfl, rfl, (List.append_nil _).symm, rfl⟩
  | cons byte block ih =>
    have hasked : t.Asked (twsiIntFlgClr { t with data := byte }) :=
      ⟨⟨rfl, rfl, rfl, rfl⟩, hready.intEna, rfl, rfl, rfl, rfl, rfl⟩
    have haction : (twsiIntFlgClr { t with data := byte }).counted.action = .data := by
      rcases hsending with hstatus | hstatus <;>
        simp [Twsi.action, Twsi.counted, twsiIntFlgClr, hready.start, hready.stop, hstatus,
          adPlsWrBitTraAckRec, tranDataByteAckRec, startConTra, repeatedStartConTra]
    rw [transmitLoop]
    rcases hasked.request (Twsi.perform_data hasked.intEna haction) with
      ⟨hserved, v, hwait, hpassed, hstatus⟩ | ⟨hunserved, hwait | ⟨v, hwait, hstatus⟩⟩
    · have hacked : v.status = tranDataByteAckRec := hstatus
      rw [hwait]
      dsimp only
      rw [if_neg (by decide), if_neg (not_not_intro hacked), List.length_cons,
        Twsi.served_succ hpassed.same.answers hpassed.waits hserved]
      refine (ih hpassed.ready (Or.inr hacked)).imp_left ?_
      rintro ⟨hall, t', hloop, hrest, hsending'⟩
      refine ⟨hall, t', hloop, ?_, hsending'⟩
      rw [Nat.add_comm block.length]
      exact hpassed.trans hrest
    · refine Or.inr ⟨Twsi.not_served hunserved (Nat.succ_pos _), ?_⟩
      simp [hwait]
    · refine Or.inr ⟨Twsi.not_served hunserved (Nat.succ_pos _), ?_⟩
      rw [hwait]
      simp [hstatus, tranDataByteAckNotRec, tranDataByteAckRec]

theorem twsiDataTransmit_ready (block : List UInt8) (hready : t.Ready) :
    twsiDataTransmit block t = transmitLoop block t := by
  unfold twsiDataTransmit
  rw [waitInt_ready hready]
  rfl

/-- What the wait for a stop leads to. -/
theorem waitStop_request (hstop : t.control.stop = true) (hstart : t.control.start = false) :
    (t.Served 1 ∧
      ∃ v, waitStop t = (true, v) ∧ v.control.stop = false ∧ v.status = noRelSts ∧
        v.bus = t.bus ++ [.stop] ∧ v.block = t.block) ∨
    (¬t.Served 1 ∧
      ((waitStop t).1 = false ∨ ∃ v, waitStop t = (true, v) ∧ v.status = busError)) := by
  have haction : t.counted.action = .stop := by simp [Twsi.action, Twsi.counted, hstart, hstop]
  have hperform : ∀ ok, (t.counted.perform ok).control.stop = false ∧
      (t.counted.perform ok).status = (if ok then noRelSts else busError) ∧
      (t.counted.perform ok).bus = t.bus ++ [.stop] ∧
      (t.counted.perform ok).block = t.block := by
    intro ok
    unfold Twsi.perform
    rw [haction]
    exact ⟨rfl, rfl, rfl, rfl⟩
  rw [Twsi.served_one]
  unfold waitStop
  rw [if_neg (by simp [hstop])]
  unfold Twsi.answer
  cases t.answers t.waits with
  | served =>
    obtain ⟨hdown, hstatus, hbus, hblock⟩ := hperform true
    refine Or.inl ⟨rfl, t.counted.perform true, ?_, hdown, hstatus, hbus, hblock⟩
    exact Prod.ext (congrArg (true && !·) hdown) rfl
  | refused =>
    obtain ⟨hdown, hstatus, -⟩ := hperform false
    refine Or.inr ⟨by decide, Or.inr ⟨t.counted.perform false, ?_, hstatus⟩⟩
    exact Prod.ext (congrArg (true && !·) hdown) rfl
  | silent late => exact Or.inr ⟨by simp, Or.inl rfl⟩

/-- In a transaction a stop goes over the bus if the answer is good, and fails otherwise. -/
theorem mvTwsiStopBitSet_spec (hready : t.Ready) :
    (t.Served 1 ∧
      ∃ t', mvTwsiStopBitSet t = (.ok, t') ∧ t'.bus = t.bus ++ [.stop] ∧ t'.block = t.block) ∨
    (¬t.Served 1 ∧ (mvTwsiStopBitSet t).1 ≠ .ok) := by
  unfold mvTwsiStopBitSet
  rcases waitStop_request
      (t := twsiIntFlgClr { t with control := { t.control with stop := true } })
      rfl hready.start with
    ⟨hserved, v, hwait, hdown, hstatus, hbus, hblock⟩ |
      ⟨hunserved, hwait | ⟨v, hwait, hstatus⟩⟩
  · refine Or.inl ⟨hserved, v, ?_, hbus, hblock⟩
    dsimp only
    rw [hwait]
    simp [hdown, hstatus]
  · exact Or.inr ⟨hunserved, by simp [hwait]⟩
  · refine Or.inr ⟨hunserved, ?_⟩
    dsimp only
    rw [hwait]
    simp only [hstatus, Bool.true_eq_false, if_false]
    split_ifs <;> simp [busError, noRelSts] at *

/-- The controller is ready to receive a byte. -/
def Twsi.Receiving (t : Twsi) : Prop :=
  t.status = adPlsRdBitTraAckRec ∨ t.status = recRdDataAckTra

/-- A byte was received and acknowledged as the register says. -/
structure Twsi.Got (t t' : Twsi) : Prop where
  same : t.Same t'
  ready : t'.Ready
  waits : t'.waits = t.waits + 1
  taken : t'.taken = t.taken + 1
  data : t'.data = t.slave t.taken
  bus : t'.bus = t.bus ++ [.received (t.slave t.taken) t.control.ack]
  block : t'.block = t.block
  status : t'.status = if t.control.ack then recRdDataAckTra else recRdDataAckNotTra

/-- What the wait for a byte leads to. -/
theorem receive_request (hready : t.Ready) (hreceiving : t.Receiving) :
    (t.Served 1 ∧ ∃ v, waitInt (twsiIntFlgClr t) = (true, v) ∧ t.Got v) ∨
    (¬t.Served 1 ∧
      ((waitInt (twsiIntFlgClr t)).1 = false ∨
        ∃ v, waitInt (twsiIntFlgClr t) = (true, v) ∧ v.status = busError)) := by
  have haction : (twsiIntFlgClr t).counted.action = .receive := by
    rcases hreceiving with hstatus | hstatus <;>
      simp [Twsi.action, Twsi.counted, twsiIntFlgClr, hready.start, hready.stop, hstatus,
        adPlsWrBitTraAckRec, tranDataByteAckRec, startConTra, repeatedStartConTra,
        adPlsRdBitTraAckRec, recRdDataAckTra]
  have hgot : t.Got ((twsiIntFlgClr t).counted.perform true) := by
    unfold Twsi.perform
    rw [haction]
    exact ⟨⟨rfl, rfl, rfl, rfl⟩, ⟨hready.intEna, rfl, hready.stop, hready.start⟩, rfl, rfl, rfl,
      rfl, rfl, rfl⟩
  have hrefused : twsiMainIntGet ((twsiIntFlgClr t).counted.perform false) = true ∧
      ((twsiIntFlgClr t).counted.perform false).status = busError := by
    unfold Twsi.perform
    rw [haction]
    exact ⟨hready.intEna, rfl⟩
  rcases waitInt_answered (t := twsiIntFlgClr t) rfl with ⟨hserved, hwait⟩ | ⟨hunserved, hwait⟩
  · rw [hgot.ready.twsiMainIntGet] at hwait
    exact Or.inl ⟨Twsi.served_one.2 hserved, _, hwait, hgot⟩
  · refine Or.inr ⟨fun h => hunserved (Twsi.served_one.1 h), hwait.imp_right fun hwait => ?_⟩
    rw [hrefused.1] at hwait
    exact ⟨_, hwait, hrefused.2⟩

/-- What the loop of `twsiDataReceive` leaves behind when it succeeds. -/
structure Twsi.Filled (t t' : Twsi) (blockSize : ℕ) : Prop where
  answers : t'.answers = t.answers
  ready : t'.Ready
  waits : t'.waits = t.waits + blockSize
  bus : t'.bus = t.bus ++ (List.range blockSize).map fun i =>
    .received (t.slave (t.taken + i)) (decide (i + 1 < blockSize))
  block : t'.block = t.block ++ (List.range blockSize).map fun i => t.slave (t.taken + i)

/-- The first of several bytes is received. -/
theorem Twsi.Filled.cons {v : Twsi} (hgot : t.Got v) (hack : t.control.ack = true)
    (hpos : 0 < blockSize)
    (hfilled : Twsi.Filled { v with block := v.block ++ [v.data] } t' blockSize) :
    t.Filled t' (blockSize + 1) where
  answers := hfilled.answers.trans hgot.same.answers
  ready := hfilled.ready
  waits := by
    rw [hfilled.waits]
    dsimp only
    rw [hgot.waits]
    omega
  bus := by
    rw [hfilled.bus, List.range_succ_eq_map, List.map_cons, List.map_map]
    dsimp only
    rw [hgot.bus, hgot.taken, hgot.same.slave, hack, List.append_assoc, List.singleton_append]
    simp [Function.comp_def, Nat.add_assoc, Nat.add_comm 1, hpos]
  block := by
    rw [hfilled.block, List.range_succ_eq_map, List.map_cons, List.map_map]
    dsimp only
    rw [hgot.block, hgot.data, hgot.taken, hgot.same.slave, List.append_assoc,
      List.singleton_append]
    simp [Function.comp_def, Nat.add_assoc, Nat.add_comm 1]

/-- The controller when the loop waits for the next byte. -/
def receiving (blockSizeRd : ℕ) (t : Twsi) : Twsi :=
  if blockSizeRd = 0 then { t with control := { t.control with ack := false } } else t

/-- The status that the loop waits for. -/
def receivedStatus (blockSizeRd : ℕ) : UInt8 :=
  if blockSizeRd = 0 then recRdDataAckNotTra else recRdDataAckTra

/-- One round of the loop. -/
theorem receiveLoop_succ :
    receiveLoop (blockSize + 1) t =
      match waitInt (twsiIntFlgClr (receiving blockSize t)) with
      | (inTime, v) =>
        if inTime = false then (.timeout, v)
        else if v.status ≠ receivedStatus blockSize then (.fail, v)
        else receiveLoop blockSize { v with block := v.block ++ [v.data] } := by
  rw [receiveLoop]
  unfold receiving receivedStatus
  dsimp only
  generalize waitInt _ = result
  obtain ⟨inTime, v⟩ := result
  cases blockSize <;> simp

/-- A round without a good status is the last one. -/
theorem receiveLoop_fails (blockSize : ℕ) (t : Twsi)
    (hwait : (waitInt (twsiIntFlgClr (receiving blockSize t))).1 = false ∨
      (waitInt (twsiIntFlgClr (receiving blockSize t))).2.status ≠ receivedStatus blockSize) :
    (receiveLoop (blockSize + 1) t).1 ≠ .ok ∧
      (receiveLoop (blockSize + 1) t).2.control.ack = (receiving blockSize t).control.ack := by
  have hack : (waitInt (twsiIntFlgClr (receiving blockSize t))).2.control.ack =
      (receiving blockSize t).control.ack := (waitInt_same _).ack
  rw [receiveLoop_succ]
  obtain ⟨inTime, v, hresult⟩ : ∃ inTime v,
      waitInt (twsiIntFlgClr (receiving blockSize t)) = (inTime, v) := ⟨_, _, rfl⟩
  rw [hresult] at hack hwait ⊢
  dsimp only at hack hwait ⊢
  cases inTime with
  | false => exact ⟨by simp, hack⟩
  | true =>
    have hstatus : v.status ≠ receivedStatus blockSize := hwait.resolve_left (by decide)
    rw [if_neg (by decide), if_pos hstatus]
    exact ⟨by simp, hack⟩

/-- A round with a good status leaves the other bytes to be read. -/
theorem receiveLoop_continues {v : Twsi}
    (hwait : waitInt (twsiIntFlgClr (receiving blockSize t)) = (true, v))
    (hstatus : v.status = receivedStatus blockSize) :
    receiveLoop (blockSize + 1) t =
      receiveLoop blockSize { v with block := v.block ++ [v.data] } := by
  rw [receiveLoop_succ, hwait]
  dsimp only
  rw [if_neg (by decide), if_neg (not_not_intro hstatus)]

/-- The last byte is read with the acknowledge bit clear. -/
theorem receiveLoop_last (hready : t.Ready) (hreceiving : t.Receiving) :
    (t.Served 1 ∧ ∃ t', receiveLoop 1 t = (.ok, t') ∧ t.Filled t' 1 ∧ t'.control.ack = false) ∨
    (¬t.Served 1 ∧ (receiveLoop 1 t).1 ≠ .ok ∧ (receiveLoop 1 t).2.control.ack = false) := by
  have hready' : (receiving 0 t).Ready := ⟨hready.intEna, hready.intFlag, hready.stop, hready.start⟩
  rcases receive_request hready' hreceiving with
    ⟨hserved, v, hwait, hgot⟩ | ⟨hunserved, hwait⟩
  · have hstatus : v.status = receivedStatus 0 := hgot.status
    refine Or.inl ⟨hserved, { v with block := v.block ++ [v.data] }, ?_, ?_, hgot.same.ack⟩
    · exact receiveLoop_continues hwait hstatus
    · have hready'' := hgot.ready
      refine ⟨hgot.same.answers, ⟨hready''.intEna, hready''.intFlag, hready''.stop,
        hready''.start⟩, hgot.waits, ?_, ?_⟩
      · simpa [receiving] using hgot.bus
      · dsimp only
        rw [hgot.block, hgot.data]
        rfl
  · refine Or.inr ⟨Twsi.not_served hunserved (by omega), receiveLoop_fails _ _ ?_⟩
    refine hwait.imp_right ?_
    rintro ⟨v, hwait, hstatus⟩
    rw [hwait, hstatus]
    decide

/-- The loop succeeds if the answers are good and the acknowledge bit is set where several bytes
are to be read. It clears the bit when it comes to the last byte. -/
theorem receiveLoop_spec (blockSize : ℕ) (hready : t.Ready) (hreceiving : t.Receiving) :
    (((t.control.ack = true ∨ blockSize ≤ 1) ∧ t.Served blockSize) ∧
      ∃ t', receiveLoop blockSize t = (.ok, t') ∧ t.Filled t' blockSize ∧
        t'.control.ack = (t.control.ack && decide (blockSize = 0))) ∨
    (¬((t.control.ack = true ∨ blockSize ≤ 1) ∧ t.Served blockSize) ∧
      (receiveLoop blockSize t).1 ≠ .ok ∧
      ((receiveLoop blockSize t).2.control.ack = true ↔
        t.control.ack = true ∧ ¬t.Served (blockSize - 1))) := by
  induction blockSize generalizing t with
  | zero =>
    refine Or.inl ⟨⟨Or.inr (by omega), t.served_zero⟩, t, rfl, ⟨rfl, hready, rfl, ?_, ?_⟩, ?_⟩
    · simp
    · simp
    · simp
  | succ blockSize ih =>
    rcases Nat.eq_zero_or_pos blockSize with rfl | hpos
    · rcases receiveLoop_last hready hreceiving with
        ⟨hserved, t', hloop, hfilled, hack⟩ | ⟨hunserved, hloop, hack⟩
      · exact Or.inl ⟨⟨Or.inr (Nat.le_refl _), hserved⟩, t', hloop, hfilled, by simp [hack]⟩
      · refine Or.inr ⟨fun hall => hunserved hall.2, hloop, ?_⟩
        simp [hack, t.served_zero]
    · have hsame : receiving blockSize t = t := if_neg (by omega)
      have hmany : ¬blockSize + 1 ≤ 1 := by omega
      have hgood : receivedStatus blockSize = recRdDataAckTra := if_neg (by omega)
      have hwait := receive_request hready hreceiving
      rw [← hsame] at hwait
      rcases hwait with ⟨hserved, v, hwait, hgot⟩ | ⟨hunserved, hwait⟩
      · rw [hsame] at hserved hgot
        have hstatus := hgot.status
        cases hack : t.control.ack with
        | false =>
          rw [hack, if_neg (by decide)] at hstatus
          have hfails := receiveLoop_fails blockSize t
            (Or.inr (by rw [hwait, hgood, hstatus]; decide))
          refine Or.inr ⟨by simp [hmany], hfails.1, ?_⟩
          rw [hfails.2, hsame, hack]
          simp
        | true =>
          rw [hack, if_pos rfl] at hstatus
          rw [receiveLoop_continues hwait (hstatus.trans hgood.symm)]
          have hready'' := hgot.ready
          have hack' : v.control.ack = true := hgot.same.ack.trans hack
          have hserved' : ∀ waits, t.Served (waits + 1) ↔
              Twsi.Served { v with block := v.block ++ [v.data] } waits :=
            fun waits => Twsi.served_succ hgot.same.answers hgot.waits hserved
          rcases ih (t := { v with block := v.block ++ [v.data] })
              ⟨hready''.intEna, hready''.intFlag, hready''.stop, hready''.start⟩
              (Or.inr hstatus) with
            ⟨⟨-, hall⟩, t', hloop, hfilled, hdown⟩ | ⟨hnot, hloop, hdown⟩
          · refine Or.inl ⟨⟨Or.inl rfl, (hserved' _).2 hall⟩, t', hloop,
              hfilled.cons hgot hack hpos, ?_⟩
            rw [hdown, decide_eq_false (by omega), decide_eq_false (by omega), Bool.and_false,
              Bool.and_false]
          · refine Or.inr ⟨fun h => hnot ⟨Or.inl hack', (hserved' _).1 h.2⟩, hloop, ?_⟩
            obtain ⟨n, rfl⟩ : ∃ n, blockSize = n + 1 := ⟨blockSize - 1, by omega⟩
            rw [hdown]
            dsimp only
            rw [hack', Nat.add_sub_cancel, Nat.add_sub_cancel, hserved']
      · rw [hsame] at hunserved
        have hfails := receiveLoop_fails blockSize t (hwait.imp_right (by
          rintro ⟨v, hwait, hstatus⟩
          rw [hwait, hgood, hstatus]
          decide))
        refine Or.inr ⟨fun h => Twsi.not_served hunserved (Nat.succ_pos _) h.2, hfails.1, ?_⟩
        rw [hfails.2, hsame]
        exact ⟨fun hack => ⟨hack, Twsi.not_served hunserved hpos⟩, And.left⟩

end Mv88fxx81.Soc
