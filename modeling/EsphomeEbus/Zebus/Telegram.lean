import EsphomeEbus.Telegram

/-!
# Legacy telegrams: `zebus/include/telegram.h` and `telegram.cpp`

The implementation the `ebus` component was ported from.  Its constants and the tables of
`TelegramState` and `EbusState` are those of the component, word for word, and are used from there.
What it has of its own is the escape decoding, which sits in the buffers: `pushBuffer` stores an ESC
like any byte, and writes what the pair stands for after it without moving the position on.
-/

namespace EsphomeEbus.Zebus

namespace Elf

/-- One turn of the loop of `crc8_calc`, on the running `(crc, data)`. -/
def crc8Bit (p : Byte × Byte) : Byte × Byte :=
  let polynom : Byte := if p.1 &&& 0x80#8 ≠ 0 then 0x9B#8 else 0
  let crc : Byte := (p.1 &&& ~~~0x80#8) <<< 1
  let crc : Byte := if p.2 &&& 0x80#8 ≠ 0 then crc ||| 1 else crc
  (crc ^^^ polynom, p.2 <<< 1)

def crc8Calc (data crcInit : Byte) : Byte := (crc8Bit^[8] (crcInit, data)).1

def isMasterNibble (nibble : Byte) : Bool :=
  match nibble with
  | 0b0000#8 => true
  | 0b0001#8 => true
  | 0b0011#8 => true
  | 0b0111#8 => true
  | 0b1111#8 => true
  | _ => false

def getPriorityClass (address : Byte) : Byte := address &&& 0x0F#8

def getSubAddress (address : Byte) : Byte := address >>> 4

def isMaster (address : Byte) : Bool :=
  isMasterNibble (getPriorityClass address) && isMasterNibble (getSubAddress address)

def toSlave (address : Byte) : Byte :=
  if isMaster address then BitVec.ofNat 8 ((address.toNat + 5) % 0xFF) else address

end Elf

inductive TelegramType where
  | unknown
  | broadcast
  | masterMaster
  | masterSlave
  deriving DecidableEq, Repr

/-- `TelegramBase::pushBuffer`: the buffer and `waitForEscaped` after it. -/
def pushBuffer {size : ℕ} (waitForEscaped : Bool) (cr : Byte) (b : RollingBuffer size)
    (maxPos : ℕ) : RollingBuffer size × Bool :=
  if waitForEscaped then
    ({ buffer := b.buffer.setIfInBounds b.pos (if cr = 0x00#8 then esc else syn)
       pos := b.pos
       crc := if b.pos < maxPos then Elf.crc8Calc cr b.crc else b.crc }, false)
  else
    ({ buffer := b.buffer.setIfInBounds b.pos cr
       pos := b.pos + 1
       crc := if b.pos < maxPos then Elf.crc8Calc cr b.crc else b.crc }, cr = esc)

/-! ### `TelegramBase` -/

structure TelegramBase where
  state : TelegramState
  request : RollingBuffer requestBufferSize := .fresh [esc, esc]
  waitForEscaped : Bool := false
  deriving DecidableEq, Repr

namespace TelegramBase

variable (t : TelegramBase)

def getQQ : Byte := t.request.get offsetQq
def getZZ : Byte := t.request.get offsetZz
def getPB : Byte := t.request.get offsetPb
def getSB : Byte := t.request.get offsetSb

def getNN : Byte :=
  let nn := t.request.get offsetNn
  if maxDataLength ≤ nn.toNat then 0 else nn

def setState (newState : TelegramState) : TelegramBase := { t with state := newState }

def getType : TelegramType :=
  if t.getZZ = esc then .unknown
  else if t.getZZ = broadcastAddress then .broadcast
  else if Elf.isMaster t.getZZ then .masterMaster
  else .masterSlave

def getRequestByte (pos : Byte) : ℤ :=
  if t.getNN < pos ∨ maxDataLength ≤ pos.toNat then -1
  else (t.request.get (offsetData + pos.toNat)).toNat

def getRequestCRC : Byte := t.request.get (offsetData + t.getNN.toNat)

def pushReqData (cr : Byte) : TelegramBase :=
  let pushed := pushBuffer t.waitForEscaped cr t.request (offsetData + t.getNN.toNat)
  { t with request := pushed.1, waitForEscaped := pushed.2 }

def isAckExpected : Bool := t.getType != .broadcast

def isResponseExpected : Bool := t.getType == .masterSlave

def isFinished : Bool := t.state.toInt < TelegramState.unknown.toInt

end TelegramBase

/-! ### `Telegram` -/

structure Telegram extends TelegramBase where
  response : RollingBuffer responseBufferSize := .fresh []
  deriving DecidableEq, Repr

namespace Telegram

/-- `Telegram::Telegram()`. -/
def new : Telegram := { state := .waitForSyn }

variable (t : Telegram)

def setState (newState : TelegramState) : Telegram := { t with state := newState }

def pushReqData (cr : Byte) : Telegram :=
  { t with toTelegramBase := t.toTelegramBase.pushReqData cr }

def getResponseNN : Byte :=
  let nn := t.response.get 0
  if maxDataLength ≤ nn.toNat then 0 else nn

def getResponseByte (pos : Byte) : ℤ :=
  if t.getResponseNN < pos ∨ maxDataLength ≤ pos.toNat then invalidResponseByte.toNat
  else (t.response.get (responseOffset + pos.toNat)).toNat

def getResponseCRC : Byte := t.response.get (responseOffset + t.getResponseNN.toNat)

def pushRespData (cr : Byte) : Telegram :=
  let pushed := pushBuffer t.waitForEscaped cr t.response (responseOffset + t.getResponseNN.toNat)
  { t with response := pushed.1, waitForEscaped := pushed.2 }

def isResponseComplete : Bool :=
  (t.state.toInt > TelegramState.waitForSyn.toInt || t.state = .endCompleted) &&
    t.response.pos > responseOffset &&
    t.response.pos = responseOffset + t.getResponseNN.toNat + 1 && !t.waitForEscaped

def isResponseValid : Bool := t.isResponseComplete && t.getResponseCRC = t.response.crc

def isRequestComplete : Bool :=
  (t.state.toInt > TelegramState.waitForSyn.toInt || t.state = .endCompleted) &&
    t.request.pos > offsetData &&
    t.request.pos = offsetData + t.getNN.toNat + 1 && !t.waitForEscaped

def isRequestValid : Bool := t.isRequestComplete && t.getRequestCRC = t.request.crc

end Telegram

/-! ### `SendCommand` -/

structure SendCommand extends TelegramBase where
  numTries : Byte := 0
  deriving DecidableEq, Repr

namespace SendCommand

/-- `SendCommand::SendCommand()`. -/
def empty : SendCommand := { state := .endCompleted }

/-- `SendCommand::SendCommand(QQ, ZZ, PB, SB, NN, data)`; the array `data` has `nn` bytes. -/
def new (qq zz pb sb nn : Byte) (data : List Byte) : SendCommand :=
  let t : TelegramBase := { state := .waitForSend }
  let t := t.pushReqData qq
  let t := t.pushReqData zz
  let t := t.pushReqData pb
  let t := t.pushReqData sb
  let t := t.pushReqData nn
  let t := (List.range nn.toNat).foldl (fun t i => t.pushReqData (data.getD i 0)) t
  { toTelegramBase := t.pushReqData t.request.crc }

variable (c : SendCommand)

def setState (newState : TelegramState) : SendCommand := { c with state := newState }

/-- `canRetry`: the answer, and the command with its try counted. -/
def canRetry (maxTries : Byte) : Bool × SendCommand :=
  ((c.numTries.toNat : ℤ) < maxTries.toInt, { c with numTries := c.numTries + 1 })

def getCRC : Byte := c.request.crc

end SendCommand

end EsphomeEbus.Zebus
