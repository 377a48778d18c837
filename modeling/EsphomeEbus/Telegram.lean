import EsphomeEbus.Elf
import Mathlib.Tactic.DeriveFintype

/-!
# Telegrams: `telegram.h` and `telegram.cpp`

The receive buffers of a telegram, the predicates the bus driver asks of it, and the command a node
sends.  `TelegramBase` holds the request, `Telegram` adds the response, `SendCommand` the number of
tries.

A buffer, its position and its rolling checksum travel together in the source (`push_buffer_` gets a
pointer to each); here they are one `RollingBuffer`.  A write past the end of a buffer is undefined
in the source and writes nothing here.
-/

namespace EsphomeEbus

open Elf

/-! ### Constants and enumerations -/

def syn : Byte := 0xAA#8
def esc : Byte := 0xA9#8
def ack : Byte := 0x00#8
def nack : Byte := 0xFF#8
def broadcastAddress : Byte := 0xFE#8

def maxDataLength : ℕ := 16
def offsetQq : ℕ := 0
def offsetZz : ℕ := 1
def offsetPb : ℕ := 2
def offsetSb : ℕ := 3
def offsetNn : ℕ := 4
def offsetData : ℕ := 5
def requestBufferSize : ℕ := offsetData + maxDataLength + 1
def responseBufferSize : ℕ := maxDataLength + 2
def responseOffset : ℕ := 1
def invalidResponseByte : Byte := -1

inductive TelegramType where
  | unknown
  | broadcast
  | primaryPrimary
  | primarySecondary
  deriving DecidableEq, Repr

inductive TelegramState where
  | waitForSyn
  | waitForSend
  | waitForRequestData
  | waitForRequestAck
  | waitForResponseData
  | waitForResponseAck
  | waitForArbitration
  | waitForArbitration2nd
  | waitForCommandAck
  | unknown
  | endErrorUnexpectedSyn
  | endErrorRequestNackReceived
  | endErrorResponseNackReceived
  | endErrorResponseNoAck
  | endErrorRequestNoAck
  | endArbitration
  | endCompleted
  | endSendFailed
  deriving DecidableEq, Repr

/-- The numbers of `TELEGRAM_STATE_TABLE`. -/
def TelegramState.toInt : TelegramState → ℤ
  | waitForSyn => 1
  | waitForSend => 2
  | waitForRequestData => 3
  | waitForRequestAck => 4
  | waitForResponseData => 5
  | waitForResponseAck => 6
  | waitForArbitration => 7
  | waitForArbitration2nd => 8
  | waitForCommandAck => 9
  | unknown => 0
  | endErrorUnexpectedSyn => -1
  | endErrorRequestNackReceived => -2
  | endErrorResponseNackReceived => -3
  | endErrorResponseNoAck => -4
  | endErrorRequestNoAck => -5
  | endArbitration => -6
  | endCompleted => -16
  | endSendFailed => -17

/-! ### Buffers -/

/-- A receive buffer with its position and its rolling checksum. -/
structure RollingBuffer (size : ℕ) where
  buffer : Vector Byte size
  pos : ℕ
  crc : Byte
  deriving DecidableEq, Repr

/-- A buffer with a C initializer list, which leaves the other cells zero. -/
def RollingBuffer.fresh {size : ℕ} (initializer : List Byte) : RollingBuffer size :=
  { buffer := Vector.ofFn fun i => initializer.getD i 0, pos := 0, crc := 0 }

/-- `buffer[i]`. -/
def RollingBuffer.get {size : ℕ} (b : RollingBuffer size) (i : ℕ) : Byte := b.buffer.toList.getD i 0

/-- `TelegramBase::push_buffer_`. -/
def pushBuffer {size : ℕ} (cr : Byte) (b : RollingBuffer size) (maxPos : ℕ) : RollingBuffer size :=
  { buffer := b.buffer.setIfInBounds b.pos cr
    pos := b.pos + 1
    crc := if b.pos < maxPos then crc8Calc cr b.crc else b.crc }

/-- What `get_nn` and `get_response_nn` make of the length byte they read. -/
def clipNn (nn : Byte) : Byte := if maxDataLength ≤ nn.toNat then 0 else nn

/-! ### `TelegramBase` -/

structure TelegramBase where
  state : TelegramState
  /-- QQ and ZZ start as ESC, to tell them from the valid primary 0. -/
  request : RollingBuffer requestBufferSize := .fresh [esc, esc]
  waitForEscapedChar : Bool := false
  deriving DecidableEq, Repr

namespace TelegramBase

variable (t : TelegramBase)

def getQq : Byte := t.request.get offsetQq
def getZz : Byte := t.request.get offsetZz
def getPb : Byte := t.request.get offsetPb
def getSb : Byte := t.request.get offsetSb
def getCommand : BitVec 16 := (t.getPb.setWidth 16) <<< 8 ||| t.getSb.setWidth 16
def getNn : Byte := clipNn (t.request.get offsetNn)

def setState (newState : TelegramState) : TelegramBase := { t with state := newState }

def getType : TelegramType :=
  if t.getZz = esc then .unknown
  else if t.getZz = broadcastAddress then .broadcast
  else if isPrimary t.getZz then .primaryPrimary
  else .primarySecondary

def getRequestByte (pos : Byte) : ℤ :=
  if t.getNn < pos ∨ maxDataLength ≤ pos.toNat then -1
  else (t.request.get (offsetData + pos.toNat)).toNat

def getRequestCrc : Byte := t.request.get (offsetData + t.getNn.toNat)

def pushReqData (cr : Byte) : TelegramBase :=
  { t with request := pushBuffer cr t.request (offsetData + t.getNn.toNat) }

def isAckExpected : Bool := t.getType != .broadcast

def isResponseExpected : Bool := t.getType == .primarySecondary

def isFinished : Bool := t.state.toInt < TelegramState.unknown.toInt

end TelegramBase

/-! ### `Telegram` -/

structure Telegram extends TelegramBase where
  response : RollingBuffer responseBufferSize := .fresh []
  deriving DecidableEq, Repr

namespace Telegram

/-- `Telegram::Telegram()`. -/
def new : Telegram := { state := .waitForSyn }

variable (t : Telegram)

def setState (newState : TelegramState) : Telegram := { t with state := newState }

def pushReqData (cr : Byte) : Telegram :=
  { t with toTelegramBase := t.toTelegramBase.pushReqData cr }

def getResponseNn : Byte := clipNn (t.response.get 0)

def getResponseByte (pos : Byte) : ℤ :=
  if t.getResponseNn < pos ∨ maxDataLength ≤ pos.toNat then invalidResponseByte.toNat
  else (t.response.get (responseOffset + pos.toNat)).toNat

def getResponseCrc : Byte := t.response.get (responseOffset + t.getResponseNn.toNat)

def pushResponseData (cr : Byte) : Telegram :=
  { t with response := pushBuffer cr t.response (responseOffset + t.getResponseNn.toNat) }

def isResponseComplete : Bool :=
  (t.state.toInt > TelegramState.waitForSyn.toInt || t.state = .endCompleted) &&
    t.response.pos > responseOffset &&
    t.response.pos = responseOffset + t.getResponseNn.toNat + 1 && !t.waitForEscapedChar

def isResponseValid : Bool := t.isResponseComplete && t.getResponseCrc = t.response.crc

def isRequestComplete : Bool :=
  (t.state.toInt > TelegramState.waitForSyn.toInt || t.state = .endCompleted) &&
    t.request.pos > offsetData &&
    t.request.pos = offsetData + t.getNn.toNat + 1 && !t.waitForEscapedChar

def isRequestValid : Bool := t.isRequestComplete && t.getRequestCrc = t.request.crc

end Telegram

/-! ### `SendCommand` -/

structure SendCommand extends TelegramBase where
  triesCount : Byte := 0
  deriving DecidableEq, Repr

namespace SendCommand

/-- `SendCommand::SendCommand()`. -/
def empty : SendCommand := { state := .endCompleted }

/-- `SendCommand::SendCommand(qq, zz, command, data)`. -/
def new (qq zz : Byte) (command : BitVec 16) (data : List Byte) : SendCommand :=
  let t : TelegramBase := { state := .waitForSend }
  let t := t.pushReqData qq
  let t := t.pushReqData zz
  let t := t.pushReqData ((command >>> 8).setWidth 8)
  let t := t.pushReqData (command.setWidth 8)
  let t := t.pushReqData (BitVec.ofNat 8 data.length)
  let t := data.foldl TelegramBase.pushReqData t
  { toTelegramBase := t.pushReqData t.request.crc }

variable (c : SendCommand)

def setState (newState : TelegramState) : SendCommand := { c with state := newState }

/-- `can_retry`: the answer, and the command with its try counted.  The limit is converted to
`int8_t` by the call. -/
def canRetry (maxTries : Byte) : Bool × SendCommand :=
  ((c.triesCount.toNat : ℤ) < maxTries.toInt, { c with triesCount := c.triesCount + 1 })

def getCrc : Byte := c.request.crc

end SendCommand

end EsphomeEbus
