import EsphomeEbus.Telegram
import EsphomeEbus.Library.ByteStuffing

/-!
# The bus driver: `ebus.h` and `ebus.cpp`

`Ebus.processReceivedChar` is one call of `process_received_char`, as a function of the driver's
state and of the `Call`: the byte, and what the installed `std::function`s answer while it runs.
The body is cut where the source has its blank lines:

* `countSyn` (SYN bookkeeping), `queueFinished`, `dequeue`;
* `Telegram.receive`, the switch over the receiving telegram;
* `driveCommand`, the switch over the active command;
* `acknowledgeResponse` and `handleResponse`, what the node answers.

What the call hands to `uart_send_` is kept apart by the place that sent it (`Output`); `sent` is
the bytes in the order of the source.
-/

namespace EsphomeEbus

open Elf

inductive EbusState where
  | normal
  | arbitration
  deriving DecidableEq, Repr

/-- What `setup_ebus_` sets once: the three numbers, and which functions are installed. -/
structure Config where
  primaryAddress : Byte
  maxTries : Byte
  maxLockCounter : Byte
  queueReceivedTelegram : Bool
  dequeueCommand : Bool
  deriving DecidableEq, Repr

structure Ebus where
  config : Config
  lockCounter : Byte := 0
  charCountSinceLastSyn : Byte := 0
  inEsc : Bool := false
  state : EbusState := .arbitration
  receivingTelegram : Telegram := .new
  activeCommand : SendCommand := .empty
  deriving DecidableEq, Repr

/-- One call of `process_received_char`.  `dequeued` is the command `dequeue_command_` hands over if
it is asked during the call; the handlers answer a copy of the telegram, as `EbusComponent` has
them do. -/
structure Call where
  receivedByte : Byte
  dequeued : Option SendCommand
  sendResponseHandlers : List (Telegram → List Byte)

/-- What a call does outside the driver: the telegrams it queues, whether it asks for a command,
and the bytes it sends, by the place that sends them. -/
structure Output where
  queued : List Telegram := []
  dequeueCalled : Bool := false
  qq : List Byte := []
  request : List Byte := []
  acknowledge : List Byte := []
  answer : List Byte := []
  deriving DecidableEq, Repr

/-- All bytes the call hands to `uart_send_`, in order. -/
def Output.sent (o : Output) : List Byte := o.qq ++ o.request ++ o.acknowledge ++ o.answer

/-! ### Sending -/

/-- `uart_send_char_(cr, esc, run_crc, crc_init)`: the bytes sent, and the checksum returned. -/
def uartSendCharCrc (cr : Byte) (escape runCrc : Bool) (crcInit : Byte) : List Byte × Byte :=
  let buffer : List Byte :=
    if escape ∧ cr = esc then [esc, 0x00#8]
    else if escape ∧ cr = syn then [esc, 0x01#8]
    else [cr]
  (buffer, if runCrc then crc8From crcInit buffer else 0)

/-- `uart_send_char_(cr, esc)`. -/
def uartSendChar (cr : Byte) (escape : Bool := true) : List Byte :=
  (uartSendCharCrc cr escape false 0).1

def uartSendRemainingRequestPart (command : SendCommand) : List Byte :=
  uartSendChar command.getZz ++ uartSendChar command.getPb ++ uartSendChar command.getSb ++
    uartSendChar command.getNn ++
    (List.range command.getNn.toNat).flatMap
      (fun i => uartSendChar (BitVec.ofInt 8 (command.getRequestByte (BitVec.ofNat 8 i)))) ++
    uartSendChar command.getCrc

/-- The loop of `handle_response_` over the reply: the bytes sent, and the checksum it ends with. -/
def sendReply : List Byte → Byte → List Byte × Byte
  | [], crc => ([], crc)
  | b :: reply, crc =>
    let sent := uartSendCharCrc b true true crc
    let rest := sendReply reply sent.2
    (sent.1 ++ rest.1, rest.2)

/-- The first handler reply that is not empty. -/
def findReply (handlers : List (Telegram → List Byte)) (telegram : Telegram) : List Byte :=
  match handlers with
  | [] => []
  | handler :: handlers =>
    if (handler telegram).length ≠ 0 then handler telegram else findReply handlers telegram

/-- `handle_response_`. -/
def handleResponse (primaryAddress : Byte) (handlers : List (Telegram → List Byte))
    (telegram : Telegram) : List Byte :=
  if telegram.state ≠ .waitForRequestAck ∨ telegram.getZz ≠ toSecondary primaryAddress then []
  else if !telegram.isRequestValid then uartSendChar nack
  else
    let reply := findReply handlers telegram
    if reply.length = 0 ∨ reply.length > responseBufferSize then uartSendChar nack
    else
      let nn := BitVec.ofNat 8 reply.length
      let body := sendReply reply (crc8Calc nn 0)
      uartSendChar ack ++ uartSendChar nn ++ body.1 ++ uartSendChar body.2

/-! ### Receiving -/

/-- The switch over the state of the receiving telegram. -/
def Telegram.receive (t : Telegram) (receivedByte realByte : Byte) : Telegram :=
  match t.state with
  | .waitForSyn => if receivedByte = syn then t.setState .waitForArbitration else t
  | .waitForArbitration =>
    if receivedByte ≠ syn then (t.pushReqData realByte).setState .waitForRequestData else t
  | .waitForRequestData =>
    if receivedByte = syn then
      if t.getZz = esc then t.setState .endArbitration else t.setState .endErrorUnexpectedSyn
    else
      let t := t.pushReqData realByte
      if t.isRequestComplete then
        t.setState (if t.isAckExpected then .waitForRequestAck else .endCompleted)
      else t
  | .waitForRequestAck =>
    if receivedByte = ack then
      t.setState (if t.isResponseExpected then .waitForResponseData else .endCompleted)
    else if receivedByte = nack then t.setState .endErrorRequestNackReceived
    else t.setState .endErrorRequestNoAck
  | .waitForResponseData =>
    if receivedByte = syn then t.setState .endErrorUnexpectedSyn
    else
      let t := t.pushResponseData realByte
      if t.isResponseComplete then t.setState .waitForResponseAck else t
  | .waitForResponseAck =>
    if receivedByte = ack then t.setState .endCompleted
    else if receivedByte = nack then t.setState .endErrorResponseNackReceived
    else t.setState .endErrorResponseNoAck
  | _ => t

namespace Ebus

variable (s : Ebus)

/-- The number of symbols since the last SYN, the kind of the SYN, and the bus lock. -/
def countSyn (receivedByte : Byte) : Ebus :=
  if receivedByte = syn then
    let state : EbusState := if s.charCountSinceLastSyn = 1 then .arbitration else .normal
    { s with
      state := state
      charCountSinceLastSyn := 0
      lockCounter :=
        if s.lockCounter > 0 ∧ state = .normal then s.lockCounter - 1 else s.lockCounter }
  else { s with charCountSinceLastSyn := s.charCountSinceLastSyn + 1 }

/-- A finished telegram is queued and replaced. -/
def queueFinished : Ebus × List Telegram :=
  if s.receivingTelegram.isFinished then
    ({ s with receivingTelegram := .new },
      if s.config.queueReceivedTelegram then [s.receivingTelegram] else [])
  else (s, [])

/-- A finished command is replaced by the next one in the queue. -/
def dequeue (dequeued : Option SendCommand) : Ebus × Bool :=
  if s.activeCommand.isFinished ∧ s.config.dequeueCommand then
    match dequeued with
    | some command => ({ s with activeCommand := command }, true)
    | none => (s, true)
  else (s, false)

/-- The active command and the lock counter after the switch over the command's state, and the bytes
the switch sends. -/
structure Driven where
  activeCommand : SendCommand
  lockCounter : Byte
  qq : List Byte := []
  request : List Byte := []
  deriving DecidableEq, Repr

def stay : Driven := { activeCommand := s.activeCommand, lockCounter := s.lockCounter }

def setCommandState (newState : TelegramState) : Driven :=
  { s.stay with activeCommand := s.activeCommand.setState newState }

/-- The command is done: lock the bus. -/
def completeCommand : Driven :=
  { s.setCommandState .endCompleted with lockCounter := s.config.maxLockCounter }

/-- Arbitration is won: send the request, and wait for its acknowledge if it has one. -/
def startRequest : Driven :=
  { if s.activeCommand.isAckExpected then s.setCommandState .waitForCommandAck
      else s.completeCommand with
    request := uartSendRemainingRequestPart s.activeCommand }

/-- An attempt failed: try again later if retries are left. -/
def retryOrFail : Driven :=
  let r := s.activeCommand.canRetry s.config.maxTries
  { s.stay with activeCommand := r.2.setState (if r.1 then .waitForSend else .endSendFailed) }

/-- The switch over the state of the active command. -/
def driveCommand (receivedByte : Byte) : Driven :=
  let qq := s.activeCommand.getQq
  match s.activeCommand.state with
  | .waitForSend =>
    if receivedByte = syn ∧ s.state = .normal ∧ s.lockCounter = 0 then
      { s.setCommandState .waitForArbitration with qq := uartSendChar qq }
    else s.stay
  | .waitForArbitration =>
    if receivedByte = qq then s.startRequest
    else if getPriorityClass receivedByte = getPriorityClass qq then
      s.setCommandState .waitForArbitration2nd
    else s.retryOrFail
  | .waitForArbitration2nd =>
    if receivedByte = syn then { s.stay with qq := uartSendChar qq }
    else if receivedByte = qq then s.startRequest
    else s.retryOrFail
  | .waitForCommandAck =>
    if receivedByte = ack then s.completeCommand
    else if receivedByte = syn then s.retryOrFail
    else s.stay
  | _ => s.stay

/-- The acknowledge of the response to a command of this node. -/
def acknowledgeResponse : List Byte :=
  if s.receivingTelegram.state = .waitForResponseAck ∧
      s.receivingTelegram.getQq = s.config.primaryAddress then
    if s.receivingTelegram.isResponseValid then uartSendChar ack ++ uartSendChar syn false
    else uartSendChar nack
  else []

/-- The part of `process_received_char` after the escape decoding. -/
def processSymbol (call : Call) (realByte : Byte) : Ebus × Output :=
  let queued := (s.countSyn call.receivedByte).queueFinished
  let dequeued := queued.1.dequeue call.dequeued
  let received : Ebus :=
    { dequeued.1 with
      receivingTelegram := dequeued.1.receivingTelegram.receive call.receivedByte realByte }
  let driven := received.driveCommand call.receivedByte
  let done : Ebus :=
    { received with activeCommand := driven.activeCommand, lockCounter := driven.lockCounter }
  (done,
    { queued := queued.2
      dequeueCalled := dequeued.2
      qq := driven.qq
      request := driven.request
      acknowledge := done.acknowledgeResponse
      answer := handleResponse done.config.primaryAddress call.sendResponseHandlers
        done.receivingTelegram })

/-- `Ebus::process_received_char`. -/
def processReceivedChar (call : Call) : Ebus × Output :=
  if call.receivedByte = esc ∧ !s.inEsc then ({ s with inEsc := true }, {})
  else if s.inEsc ∧ call.receivedByte = 0x00#8 then
    { s with inEsc := false }.processSymbol call esc
  else if s.inEsc ∧ call.receivedByte = 0x01#8 then
    { s with inEsc := false }.processSymbol call syn
  else if s.inEsc then
    -- invalid sequence
    ({ s with inEsc := false, receivingTelegram := .new }, {})
  else s.processSymbol call call.receivedByte

end Ebus

end EsphomeEbus
