import Mathlib.Data.Nat.Notation
import Mathlib.Data.List.Basic

/-!
# The two-wire serial interface

The controller carries out what its registers ask for when the interrupt flag is cleared, and
sets the flag again when it is done: it sends a start, a byte or a stop, or it receives a byte,
which it acknowledges if the acknowledge bit of the control register is set. The driver waits
for the flag, or gives up after some time. What happens in a wait is an input: the other side
serves the request, refuses it or lets the wait time out.

Of the control register only the bits are kept that the driver uses, and the rates and the
addresses of the controller as a slave are left out.
-/

namespace Mv88fxx81.Soc

/-- The values of `MV_STATUS` that the driver returns. -/
inductive TwsiStatus
  | ok
  | fail
  | timeout
  deriving DecidableEq, Repr

/-- The bits of `TWSI_CONTROL_REG`. -/
structure TwsiControl where
  ack : Bool
  intFlag : Bool
  stop : Bool
  start : Bool
  ena : Bool
  intEna : Bool
  deriving DecidableEq, Repr

/-- `TWSI_START_CON_TRA`. -/
def startConTra : UInt8 := 0x08

/-- `TWSI_REPEATED_START_CON_TRA`. -/
def repeatedStartConTra : UInt8 := 0x10

/-- `TWSI_AD_PLS_WR_BIT_TRA_ACK_REC`. -/
def adPlsWrBitTraAckRec : UInt8 := 0x18

/-- `TWSI_AD_PLS_WR_BIT_TRA_ACK_NOT_REC`. -/
def adPlsWrBitTraAckNotRec : UInt8 := 0x20

/-- `TWSI_M_TRAN_DATA_BYTE_ACK_REC`. -/
def tranDataByteAckRec : UInt8 := 0x28

/-- `TWSI_M_TRAN_DATA_BYTE_ACK_NOT_REC`. -/
def tranDataByteAckNotRec : UInt8 := 0x30

/-- `TWSI_M_LOST_ARB_DUR_AD_OR_DATA_TRA`. -/
def lostArbitration : UInt8 := 0x38

/-- `TWSI_AD_PLS_RD_BIT_TRA_ACK_REC`. -/
def adPlsRdBitTraAckRec : UInt8 := 0x40

/-- `TWSI_AD_PLS_RD_BIT_TRA_ACK_NOT_REC`. -/
def adPlsRdBitTraAckNotRec : UInt8 := 0x48

/-- `TWSI_M_REC_RD_DATA_ACK_TRA`. -/
def recRdDataAckTra : UInt8 := 0x50

/-- `TWSI_M_REC_RD_DATA_ACK_NOT_TRA`. -/
def recRdDataAckNotTra : UInt8 := 0x58

/-- `TWSI_BUS_ERROR`. -/
def busError : UInt8 := 0x00

/-- `TWSI_NO_REL_STS_INT_FLAG_IS_KEPT_0`. -/
def noRelSts : UInt8 := 0xf8

/-- What goes over the bus: a byte that is sent with the answer of the slave, and a byte that is
received with the acknowledgement of the controller. -/
inductive BusEvent
  | start
  | sent (byte : UInt8) (ack : Bool)
  | received (byte : UInt8) (ack : Bool)
  | stop
  deriving DecidableEq, Repr

/-- The bits and registers that the controller may change after a wait has timed out. -/
structure Late where
  intFlag : Bool
  stop : Bool
  start : Bool
  data : UInt8
  status : UInt8
  deriving DecidableEq, Repr

/-- What happens while the driver waits. -/
inductive Answer
  | served
  | refused
  | silent (late : Late)
  deriving DecidableEq, Repr

/-- The registers, the answers to the waits of a call and how many of them were used, the bytes
that the slave sends and how many of them were received, what went over the bus, and the bytes
stored through `pBlock`. -/
structure Twsi where
  control : TwsiControl
  data : UInt8
  status : UInt8
  answers : ℕ → Answer
  waits : ℕ
  slave : ℕ → UInt8
  taken : ℕ
  bus : List BusEvent
  block : List UInt8

/-- What the registers ask the controller for. -/
inductive Action
  | start
  | stop
  | address
  | data
  | receive
  | none
  deriving DecidableEq, Repr

/-- A start is asked for by its bit, and so is a stop. Otherwise it follows from the status how
the transaction goes on. -/
def Twsi.action (t : Twsi) : Action :=
  if t.control.start then .start
  else if t.control.stop then .stop
  else if t.status = startConTra ∨ t.status = repeatedStartConTra then .address
  else if t.status = adPlsWrBitTraAckRec ∨ t.status = tranDataByteAckRec then .data
  else if t.status = adPlsRdBitTraAckRec ∨ t.status = recRdDataAckTra then .receive
  else .none

/-- The status after an address was sent, with its lowest bit for the direction. -/
def addressStatus (data : UInt8) (ok : Bool) : UInt8 :=
  if data &&& 1 = 1 then if ok then adPlsRdBitTraAckRec else adPlsRdBitTraAckNotRec
  else if ok then adPlsWrBitTraAckRec else adPlsWrBitTraAckNotRec

/-- The controller does what it is asked for. The acknowledge bit decides the status after a
byte was received. -/
def Twsi.perform (t : Twsi) (ok : Bool) : Twsi :=
  match t.action with
  | .start =>
    { t with
      control := { t.control with start := false, stop := false, intFlag := true }
      status :=
        if ok then if t.status = noRelSts then startConTra else repeatedStartConTra
        else lostArbitration
      bus := t.bus ++ [.start] }
  | .stop =>
    { t with
      control := { t.control with stop := false }
      status := if ok then noRelSts else busError
      bus := t.bus ++ [.stop] }
  | .address =>
    { t with
      control := { t.control with intFlag := true }
      status := addressStatus t.data ok
      bus := t.bus ++ [.sent t.data ok] }
  | .data =>
    { t with
      control := { t.control with intFlag := true }
      status := if ok then tranDataByteAckRec else tranDataByteAckNotRec
      bus := t.bus ++ [.sent t.data ok] }
  | .receive =>
    if ok then
      { t with
        control := { t.control with intFlag := true }
        data := t.slave t.taken
        status := if t.control.ack then recRdDataAckTra else recRdDataAckNotTra
        taken := t.taken + 1
        bus := t.bus ++ [.received (t.slave t.taken) t.control.ack] }
    else { t with control := { t.control with intFlag := true }, status := busError }
  | .none => t

/-- What happens in a wait, and whether it is over in time. -/
def Twsi.answer (t : Twsi) : Bool × Twsi :=
  let t' := { t with waits := t.waits + 1 }
  match t.answers t.waits with
  | .served => (true, t'.perform true)
  | .refused => (true, t'.perform false)
  | .silent late =>
    (false, { t' with
      control := { t.control with
        intFlag := late.intFlag
        stop := late.stop
        start := late.start }
      data := late.data
      status := late.status })

/-- `twsiMainIntGet`. -/
def twsiMainIntGet (t : Twsi) : Bool := t.control.intFlag && t.control.intEna

/-- `while( !twsiMainIntGet() && (timeout++ < TWSI_TIMEOUT_VALUE))`, and whether it is over in
time. -/
def waitInt (t : Twsi) : Bool × Twsi :=
  if twsiMainIntGet t then (true, t)
  else
    let (inTime, t) := t.answer
    (inTime && twsiMainIntGet t, t)

/-- The wait for the stop bit to come down. -/
def waitStop (t : Twsi) : Bool × Twsi :=
  if t.control.stop = false then (true, t)
  else
    let (inTime, t) := t.answer
    (inTime && !t.control.stop, t)

/-- `twsiIntFlgClr`. -/
def twsiIntFlgClr (t : Twsi) : Twsi :=
  { t with control := { t.control with intFlag := false } }

/-- `twsiAckBitSet`. -/
def twsiAckBitSet (t : Twsi) : Twsi := { t with control := { t.control with ack := true } }

/-- `mvTwsiStartBitSet`. -/
def mvTwsiStartBitSet (t : Twsi) : TwsiStatus × Twsi :=
  let isIntFlag := twsiMainIntGet t
  let t := { t with control := { t.control with start := true } }
  let t := if isIntFlag then twsiIntFlgClr t else t
  let (inTime, t) := waitInt t
  if inTime = false then (.timeout, t)
  else if t.control.start then (.fail, t)
  else if t.status ≠ startConTra ∧ t.status ≠ repeatedStartConTra then (.fail, t)
  else (.ok, t)

/-- `mvTwsiStopBitSet`. -/
def mvTwsiStopBitSet (t : Twsi) : TwsiStatus × Twsi :=
  let t := twsiIntFlgClr { t with control := { t.control with stop := true } }
  let (inTime, t) := waitStop t
  if inTime = false then (.timeout, t)
  else if t.control.stop then (.fail, t)
  else if t.status ≠ noRelSts then (.fail, t)
  else (.ok, t)

/-- `MV_TWSI_CMD`. -/
inductive TwsiCmd
  | write
  | read
  deriving DecidableEq, Repr

/-- The byte for a 7-bit address and a command. -/
def addrByte (deviceAddress : UInt32) (command : TwsiCmd) : UInt8 :=
  ((deviceAddress <<< 1 &&& 0x1fe) ||| (match command with | .write => 0 | .read => 1)).toUInt8

/-- `twsiAddr7BitSet`. -/
def twsiAddr7BitSet (deviceAddress : UInt32) (command : TwsiCmd) (t : Twsi) :
    TwsiStatus × Twsi :=
  let t := twsiIntFlgClr { t with data := addrByte deviceAddress command }
  let (inTime, t) := waitInt t
  if inTime = false then (.timeout, t)
  else if (t.status ≠ adPlsRdBitTraAckRec ∧ command = .read) ∨
      (t.status ≠ adPlsWrBitTraAckRec ∧ command = .write) then (.fail, t)
  else (.ok, t)

/-- The loop of `twsiDataTransmit`. -/
def transmitLoop : List UInt8 → Twsi → TwsiStatus × Twsi
  | [], t => (.ok, t)
  | byte :: block, t =>
    let t := twsiIntFlgClr { t with data := byte }
    let (inTime, t) := waitInt t
    if inTime = false then (.timeout, t)
    else if t.status ≠ tranDataByteAckRec then (.fail, t)
    else transmitLoop block t

/-- `twsiDataTransmit`. -/
def twsiDataTransmit (block : List UInt8) (t : Twsi) : TwsiStatus × Twsi :=
  let (inTime, t) := waitInt t
  if inTime = false then (.timeout, t) else transmitLoop block t

/-- The loop of `twsiDataReceive`, with `blockSizeRd` bytes left. -/
def receiveLoop : ℕ → Twsi → TwsiStatus × Twsi
  | 0, t => (.ok, t)
  | blockSizeRd + 1, t =>
    let t := if blockSizeRd = 0 then { t with control := { t.control with ack := false } } else t
    let (inTime, t) := waitInt (twsiIntFlgClr t)
    if inTime = false then (.timeout, t)
    else if t.status ≠ recRdDataAckTra ∧ blockSizeRd ≠ 0 then (.fail, t)
    else if t.status ≠ recRdDataAckNotTra ∧ blockSizeRd = 0 then (.fail, t)
    else receiveLoop blockSizeRd { t with block := t.block ++ [t.data] }

/-- `twsiDataReceive`. -/
def twsiDataReceive (blockSize : ℕ) (t : Twsi) : TwsiStatus × Twsi :=
  let (inTime, t) := waitInt t
  if inTime = false then (.timeout, t) else receiveLoop blockSize t

/-- `MV_TWSI_SLAVE`, with a 7-bit address. -/
structure TwsiSlave where
  address : UInt32
  validOffset : Bool
  offset : UInt32
  moreThen256 : Bool
  deriving DecidableEq, Repr

/-- The bytes of the offset that `twsiTargetOffsSet` sends. -/
def TwsiSlave.offBlock (slave : TwsiSlave) : List UInt8 :=
  if slave.moreThen256 then
    [(slave.offset >>> 8 &&& 0xff).toUInt8, (slave.offset &&& 0xff).toUInt8]
  else [(slave.offset &&& 0xff).toUInt8]

/-- `twsiTargetOffsSet`. -/
def twsiTargetOffsSet (slave : TwsiSlave) (t : Twsi) : TwsiStatus × Twsi :=
  twsiDataTransmit slave.offBlock t

/-- `if(MV_OK != ...) { mvTwsiStopBitSet(); return MV_FAIL; }`, and what follows otherwise. -/
def orStop (result : TwsiStatus × Twsi) (next : Twsi → TwsiStatus × Twsi) : TwsiStatus × Twsi :=
  if result.1 ≠ .ok then (.fail, (mvTwsiStopBitSet result.2).2) else next result.2

/-- The end of `mvTwsiRead`, from the address for reading on. -/
def readData (slave : TwsiSlave) (blockSize : ℕ) (t : Twsi) : TwsiStatus × Twsi :=
  orStop (twsiAddr7BitSet slave.address .read t) fun t =>
    orStop (twsiDataReceive blockSize t) fun t =>
      let (status, t) := mvTwsiStopBitSet t
      if status ≠ .ok then (.fail, t) else (.ok, twsiAckBitSet t)

/-- `mvTwsiRead`, with pointers that are not null. -/
def mvTwsiRead (slave : TwsiSlave) (blockSize : ℕ) (t : Twsi) : TwsiStatus × Twsi :=
  orStop (mvTwsiStartBitSet t) fun t =>
    if slave.validOffset then
      orStop (twsiAddr7BitSet slave.address .write t) fun t =>
        orStop (twsiTargetOffsSet slave t) fun t =>
          orStop (mvTwsiStartBitSet t) fun t => readData slave blockSize t
    else readData slave blockSize t

/-- The end of `mvTwsiWrite`, from the block on. -/
def writeData (block : List UInt8) (t : Twsi) : TwsiStatus × Twsi :=
  orStop (twsiDataTransmit block t) fun t =>
    let (status, t) := mvTwsiStopBitSet t
    if status ≠ .ok then (.fail, t) else (.ok, t)

/-- `mvTwsiWrite`, with pointers that are not null. -/
def mvTwsiWrite (slave : TwsiSlave) (block : List UInt8) (t : Twsi) : TwsiStatus × Twsi :=
  orStop (mvTwsiStartBitSet t) fun t =>
    orStop (twsiAddr7BitSet slave.address .write t) fun t =>
      if slave.validOffset then
        orStop (twsiTargetOffsSet slave t) fun t => writeData block t
      else writeData block t

/-- The calls of the driver. -/
inductive TwsiCall
  | read (slave : TwsiSlave) (blockSize : ℕ)
  | write (slave : TwsiSlave) (block : List UInt8)
  deriving DecidableEq, Repr

/-- A call with what happens in its waits and the bytes that the slave sends. -/
structure TwsiEvent where
  call : TwsiCall
  answers : ℕ → Answer
  bytes : ℕ → UInt8

/-- What a call returns, and what went over the bus. -/
structure TwsiResult where
  status : TwsiStatus
  block : List UInt8
  bus : List BusEvent
  deriving DecidableEq, Repr

/-- The controller after `mvTwsiInit`. -/
def mvTwsiInit : Twsi :=
  { control := ⟨true, false, false, false, true, true⟩
    data := 0
    status := noRelSts
    answers := fun _ => .served
    waits := 0
    slave := fun _ => 0
    taken := 0
    bus := []
    block := [] }

/-- One call, with new answers and a new slave. -/
def twsiCall (t : Twsi) (e : TwsiEvent) : TwsiResult × Twsi :=
  let t := { t with
    answers := e.answers
    waits := 0
    slave := e.bytes
    taken := 0
    bus := []
    block := [] }
  let (status, t) := match e.call with
    | .read slave blockSize => mvTwsiRead slave blockSize t
    | .write slave block => mvTwsiWrite slave block t
  (⟨status, t.block, t.bus⟩, t)

/-- One call as a step of a run. -/
def twsiStep (t : Twsi) (e : TwsiEvent) : Option (TwsiResult × Twsi) := some (twsiCall t e)

end Mv88fxx81.Soc
