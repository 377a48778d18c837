import EsphomeEbus.Zebus.Telegram
import EsphomeEbus.Ebus

/-!
# The legacy bus driver: `zebus/include/ebus.h` and `ebus.cpp`

`Ebus.processReceivedChar` is one call of `process_received_char`, cut like the one of the component
in `EsphomeEbus.Ebus`.  There is no escape decoding in front of it.  A reply comes from handlers
that write into one buffer and return a length.
-/

namespace EsphomeEbus.Zebus

/-- `ebus_config_t`, and which functions are installed. -/
structure Config where
  masterAddress : Byte
  maxTries : Byte
  maxLockCounter : Byte
  queueReceivedTelegram : Bool
  dequeueCommand : Bool
  deriving DecidableEq, Repr

structure Ebus where
  config : Config
  lockCounter : Byte := 0
  charCountSinceLastSyn : Byte := 0
  state : EbusState := .arbitration
  receivingTelegram : Telegram := .new
  activeCommand : SendCommand := .empty
  deriving DecidableEq, Repr

/-- The reply buffer of `handle_response`. -/
abbrev ReplyBuffer := Vector Byte responseBufferSize

/-- A send response handler: from the telegram and the buffer, the length returned and the buffer
left behind. -/
abbrev Handler := Telegram → ReplyBuffer → Byte × ReplyBuffer

/-- One call of `process_received_char`.  `dequeued` is the command `dequeue_command_` hands over if
it is asked during the call. -/
structure Call where
  receivedByte : Byte
  dequeued : Option SendCommand
  sendResponseHandlers : List Handler

/-- What a call does outside the driver: the telegrams it queues, whether it asks for a command,
and the bytes it hands to `uartSend`, in order. -/
structure Output where
  queued : List Telegram := []
  dequeueCalled : Bool := false
  sent : List Byte := []
  deriving DecidableEq, Repr

/-! ### Sending -/

/-- `uart_send_char(cr, esc, runCrc, crc_init)`: the bytes sent, and the checksum returned. -/
def uartSendCharCrc (cr : Byte) (escape runCrc : Bool) (crcInit : Byte) : List Byte × Byte :=
  let buffer : List Byte :=
    if escape ∧ cr = esc then [esc, 0x00#8]
    else if escape ∧ cr = syn then [esc, 0x01#8]
    else [cr]
  (buffer, if runCrc then buffer.foldl (fun crc b => Elf.crc8Calc b crc) crcInit else 0)

/-- `uart_send_char(cr, esc)`. -/
def uartSendChar (cr : Byte) (escape : Bool := true) : List Byte :=
  (uartSendCharCrc cr escape false 0).1

def uartSendRemainingRequestPart (command : SendCommand) : List Byte :=
  uartSendChar command.getZZ ++ uartSendChar command.getPB ++ uartSendChar command.getSB ++
    uartSendChar command.getNN ++
    (List.range command.getNN.toNat).flatMap
      (fun i => uartSendChar (BitVec.ofInt 8 (command.getRequestByte (BitVec.ofNat 8 i)))) ++
    uartSendChar command.getCRC

/-- The loop of `handle_response` over the reply, from `i` with `n` turns to go: the bytes sent, and
the checksum it ends with. -/
def sendReplyFrom (buf : ReplyBuffer) : ℕ → ℕ → Byte → List Byte × Byte
  | 0, _, crc => ([], crc)
  | n + 1, i, crc =>
    let sent := uartSendCharCrc (buf.toList.getD i 0) true true crc
    let rest := sendReplyFrom buf n (i + 1) sent.2
    (sent.1 ++ rest.1, rest.2)

/-- The loop of `handle_response` over the handlers: each writes into the buffer the one before it
has left, until one returns a length other than zero. -/
def findReply : List Handler → Telegram → ReplyBuffer → Byte × ReplyBuffer
  | [], _, buf => (0, buf)
  | handler :: handlers, telegram, buf =>
    let reply := handler telegram buf
    if reply.1 ≠ 0 then reply else findReply handlers telegram reply.2

/-- `handle_response`. -/
def handleResponse (masterAddress : Byte) (handlers : List Handler) (telegram : Telegram) :
    List Byte :=
  if telegram.state ≠ .waitForRequestAck ∨ telegram.getZZ ≠ Elf.toSlave masterAddress then []
  else if !telegram.isRequestValid then uartSendChar nack
  else
    let reply := findReply handlers telegram (Vector.replicate responseBufferSize 0)
    if reply.1 = 0 then uartSendChar nack
    else
      let body := sendReplyFrom reply.2 reply.1.toNat 0 (Elf.crc8Calc reply.1 0)
      uartSendChar ack ++ uartSendChar reply.1 ++ body.1 ++ uartSendChar body.2

/-! ### Receiving -/

/-- The switch over the state of the receiving telegram. -/
def Telegram.receive (t : Telegram) (receivedByte : Byte) : Telegram :=
  match t.state with
  | .waitForSyn => if receivedByte = syn then t.setState .waitForArbitration else t
  | .waitForArbitration =>
    if receivedByte ≠ syn then (t.pushReqData receivedByte).setState .waitForRequestData else t
  | .waitForRequestData =>
    if receivedByte = syn then
      if t.getZZ = esc then t.setState .endArbitration else t.setState .endErrorUnexpectedSyn
    else
      let t := t.pushReqData receivedByte
      if t.isRequestComplete then
        t.setState (if t.isAckExpected then .waitForRequestAck else .endCompleted)
      else t
  | .waitForRequestAck =>
    if receivedByte = ack then
      t.setState (if t.isResponseExpected then .waitForResponseData else .endCompleted)
    else if receivedByte = nack then t.setState .endErrorRequestNackReceived
    else t.setState .endErrorRequestNoAck
  | .waitForResponseData =>
    if receivedByte = syn then t.setState .endErrorUnexpectedSyn
    else
      let t := t.pushRespData receivedByte
      if t.isResponseComplete then t.setState .waitForResponseAck else t
  | .waitForResponseAck =>
    if receivedByte = ack then t.setState .endCompleted
    else if receivedByte = nack then t.setState .endErrorResponseNackReceived
    else t.setState .endErrorResponseNoAck
  | _ => t

namespace Ebus

variable (s : Ebus)

/-- The number of characters since the last SYN, the kind of the SYN, and the bus lock. -/
def countSyn (receivedByte : Byte) : Ebus :=
  if receivedByte = syn then
    let state : EbusState := if s.charCountSinceLastSyn = 1 then .arbitration else .normal
    { s with
      state := state
      charCountSinceLastSyn := 0
      lockCounter :=
        if s.lockCounter > 0 ∧ state = .normal then s.lockCounter - 1 else s.lockCounter }
  else { s with charCountSinceLastSyn := s.charCountSinceLastSyn + 1 }

/-- A finished telegram is queued and replaced. -/
def queueFinished : Ebus × List Telegram :=
  if s.receivingTelegram.isFinished then
    ({ s with receivingTelegram := .new },
      if s.config.queueReceivedTelegram then [s.receivingTelegram] else [])
  else (s, [])

/-- A finished command is replaced by the next one in the queue. -/
def dequeue (dequeued : Option SendCommand) : Ebus × Bool :=
  if s.activeCommand.isFinished ∧ s.config.dequeueCommand then
    match dequeued with
    | some command => ({ s with activeCommand := command }, true)
    | none => (s, true)
  else (s, false)

/-- The active command and the lock counter after the switch over the command's state, and the bytes
the switch sends. -/
structure Driven where
  activeCommand : SendCommand
  lockCounter : Byte
  sent : List Byte := []
  deriving DecidableEq, Repr

def stay : Driven := { activeCommand := s.activeCommand, lockCounter := s.lockCounter }

def setCommandState (newState : TelegramState) : Driven :=
  { s.stay with activeCommand := s.activeCommand.setState newState }

/-- The command is done: lock the bus. -/
def completeCommand : Driven :=
  { s.setCommandState .endCompleted with lockCounter := s.config.maxLockCounter }

/-- Arbitration is won: send the request, and wait for its acknowledge if it has one. -/
def startRequest : Driven :=
  { if s.activeCommand.isAckExpected then s.setCommandState .waitForCommandAck
      else s.completeCommand with
    sent := uartSendRemainingRequestPart s.activeCommand }

/-- An attempt failed: try again later if retries are left. -/
def retryOrFail : Driven :=
  let r := s.activeCommand.canRetry s.config.maxTries
  { s.stay with activeCommand := r.2.setState (if r.1 then .waitForSend else .endSendFailed) }

/-- The switch over the state of the active command. -/
def driveCommand (receivedByte : Byte) : Driven :=
  let qq := s.activeCommand.getQQ
  match s.activeCommand.state with
  | .waitForSend =>
    if receivedByte = syn ∧ s.state = .normal ∧ s.lockCounter = 0 then
      { s.setCommandState .waitForArbitration with sent := uartSendChar qq }
    else s.stay
  | .waitForArbitration =>
    if receivedByte = qq then s.startRequest
    else if Elf.getPriorityClass receivedByte = Elf.getPriorityClass qq then
      s.setCommandState .waitForArbitration2nd
    else s.retryOrFail
  | .waitForArbitration2nd =>
    if receivedByte = syn then { s.stay with sent := uartSendChar qq }
    else if receivedByte = qq then s.startRequest
    else s.retryOrFail
  | .waitForCommandAck =>
    if receivedByte = ack then s.completeCommand
    else if receivedByte = syn then s.retryOrFail
    else s.stay
  | _ => s.stay

/-- The acknowledge of the response to a command of this node. -/
def acknowledgeResponse : List Byte :=
  if s.receivingTelegram.state = .waitForResponseAck ∧
      s.receivingTelegram.getQQ = s.config.masterAddress then
    if s.receivingTelegram.isResponseValid then uartSendChar ack ++ uartSendChar syn false
    else uartSendChar nack
  else []

/-- `Ebus::process_received_char`. -/
def processReceivedChar (call : Call) : Ebus × Output :=
  let queued := (s.countSyn call.receivedByte).queueFinished
  let dequeued := queued.1.dequeue call.dequeued
  let received : Ebus :=
    { dequeued.1 with
      receivingTelegram := dequeued.1.receivingTelegram.receive call.receivedByte }
  let driven := received.driveCommand call.receivedByte
  let done : Ebus :=
    { received with activeCommand := driven.activeCommand, lockCounter := driven.lockCounter }
  (done,
    { queued := queued.2
      dequeueCalled := dequeued.2
      sent := driven.sent ++ done.acknowledgeResponse ++
        handleResponse done.config.masterAddress call.sendResponseHandlers
          done.receivingTelegram })

/-- The driver as its constructor leaves it. -/
def init (config : Config) : Ebus := { config := config }

end Ebus

end EsphomeEbus.Zebus
