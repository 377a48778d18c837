import EsphomeEbus.Zebus.Port
import EsphomeEbus.Tasks

/-!
# The legacy application: `zebus/zebus.h`

Around the legacy driver is an application with two tasks, a main loop and two queues, like the
component, but with handlers of its own in place of items.  Its queues, too, are for items of the
size of a telegram, which is that of the component's.

* `Telegram.image`, `SendCommand.image`: the bytes of an object, which have the order of the port's;
* `handleMessage`: what its handlers publish for a telegram;
* `identificationHandler`: its only reply;
* `Zebus`, `step`: the application and the steps of its tasks.
-/

namespace EsphomeEbus

namespace Zebus

/-! ### Objects -/

namespace TelegramBase

def image (t : TelegramBase) : List Byte := baseImage t.state t.request t.waitForEscaped

def ofImage (bytes : List Byte) : TelegramBase where
  state := .ofByte (bytes.getD 0 0)
  request := .ofImage requestBufferSize (bytes.drop 1)
  waitForEscaped := bytes.getD (1 + requestBufferSize + 1 + 1) 0 != 0

theorem ofImage_image {t : TelegramBase} (h : t.request.pos < 256) (rest : List Byte) :
    ofImage (t.image ++ rest) = t := by
  obtain ⟨hstate, hrequest, hflag⟩ := members_baseImage t.state t.waitForEscaped h rest
  rw [ofImage, image, hstate, hrequest, hflag]

end TelegramBase

namespace Telegram

def image (t : Telegram) : List Byte := t.toTelegramBase.image ++ t.response.image

def ofImage (bytes : List Byte) : Telegram where
  toTelegramBase := .ofImage bytes
  response := .ofImage responseBufferSize (bytes.drop sizeofTelegramBase)

theorem length_image (t : Telegram) : t.image.length = sizeofTelegram := by
  rw [image, TelegramBase.image, List.length_append, length_baseImage, RollingBuffer.length_image]
  rfl

theorem ofImage_take {t : Telegram} (h : t.request.pos < 256) (h' : t.response.pos < 256) :
    ofImage (t.image.take sizeofTelegram) = t := by
  have hbase := TelegramBase.ofImage_image h t.response.image
  have hresponse := RollingBuffer.ofImage_image h' []
  rw [List.append_nil] at hresponse
  rw [List.take_of_length_le (Nat.le_of_eq t.length_image), image, ofImage, hbase,
    TelegramBase.image, List.drop_left' (length_baseImage _ _), hresponse]

end Telegram

namespace SendCommand

def image (c : SendCommand) : List Byte := c.toTelegramBase.image ++ [c.numTries]

def ofImage (bytes : List Byte) : SendCommand where
  toTelegramBase := .ofImage bytes
  numTries := bytes.getD sizeofTelegramBase 0

theorem length_image (c : SendCommand) : c.image.length = sizeofSendCommand := by
  rw [image, TelegramBase.image, List.length_append, length_baseImage]
  rfl

theorem ofImage_take {c : SendCommand} (h : c.request.pos < 256) (behind : Vector Byte excess) :
    ofImage ((c.image ++ behind.toList).take sizeofTelegram) = c := by
  have hlen : (c.image ++ behind.toList).length = sizeofTelegram := by
    rw [List.length_append, length_image, Vector.length_toList]
    rfl
  have hbase := TelegramBase.ofImage_image h ([c.numTries] ++ behind.toList)
  have htries : (c.toTelegramBase.image ++ ([c.numTries] ++ behind.toList)).getD
      sizeofTelegramBase 0 = c.numTries := by
    rw [TelegramBase.image, List.getD_append_right _ _ _ _ (by rw [length_baseImage]),
      length_baseImage, Nat.sub_self]
    rfl
  rw [List.take_of_length_le (Nat.le_of_eq hlen), image, List.append_assoc, ofImage, hbase, htries]

end SendCommand

/-! ### Handlers -/

/-- `BYTES_TO_WORD`, cut to the `uint16_t` that it is assigned to. -/
def bytesToWord (highByte lowByte : ℤ) : BitVec 16 :=
  BitVec.ofInt 16 highByte <<< 8 ||| BitVec.ofInt 16 lowByte

/-- `GET_BYTE`. -/
def getByte (cmd : BitVec 16) (i : ℕ) : Byte := (cmd >>> (8 * i)).setWidth 8

def masterHeater : Byte := 0x03#8
def masterExa : Byte := 0x10#8
def cmdIdentification : BitVec 16 := 0x0704#16
def cmdDeviceConfig : BitVec 16 := 0xB509#16
def deviceConfigSubcommandRead : Byte := 0x0D#8
def deviceConfigWaterPressure : BitVec 16 := 0x0200#16
def deviceConfigDispRoomTemp : BitVec 16 := 0x3E00#16

/-- The loop of `get_response_bytes`, from `i` with `n` turns to go. -/
def getResponseBytesFrom (telegram : Telegram) (start : Byte) : ℕ → ℕ → BitVec 32 → BitVec 32
  | 0, _, result => result
  | n + 1, i, result =>
    getResponseBytesFrom telegram start n (i + 1)
      (result ||| BitVec.ofInt 32 (telegram.getResponseByte (start + BitVec.ofNat 8 i)) <<< (i * 8))

/-- `get_response_bytes`. -/
def getResponseBytes (telegram : Telegram) (start length : Byte) : BitVec 32 :=
  getResponseBytesFrom telegram start (min 4 length.toNat) 0 0

/-- The sensors of the application. -/
inductive Channel where
  | waterPressure
  | dispRoomTemp
  | flowTemp
  | returnTemp
  | storageTemp
  | hotWaterHeating
  deriving DecidableEq, Repr

section Handlers

variable {F : Type*} [NatCast F] (divide : BitVec 32 → F → F)

/-- `to_float`. -/
def toFloat (telegram : Telegram) (start length : Byte) (divider : F) : F :=
  divide (getResponseBytes telegram start length) divider

/-- A handler for an element of the device configuration. -/
def readConfigHandler (element : BitVec 16) (sensor : Channel) (divider : F) (telegram : Telegram) :
    List (Channel × F) :=
  let command := bytesToWord telegram.getPB.toNat telegram.getSB.toNat
  if command ≠ cmdDeviceConfig then []
  else if telegram.getRequestByte 0 ≠ deviceConfigSubcommandRead.toNat then []
  else
    let configReadCommand := bytesToWord (telegram.getRequestByte 1) (telegram.getRequestByte 2)
    if configReadCommand ≠ element then [] else [(sensor, toFloat divide telegram 0 2 divider)]

def waterPressureHandler : Telegram → List (Channel × F) :=
  readConfigHandler divide deviceConfigWaterPressure .waterPressure ((1000 : ℕ) : F)

def dispRoomTempHandler : Telegram → List (Channel × F) :=
  readConfigHandler divide deviceConfigDispRoomTemp .dispRoomTemp ((16 : ℕ) : F)

/-- The handler of the heating; the `&&` makes a `bool` of the byte, which is published as a
number. -/
def heatingHandler (telegram : Telegram) : List (Channel × F) :=
  let command := bytesToWord telegram.getPB.toNat telegram.getSB.toNat
  if command ≠ 0xB511#16 then []
  else if telegram.getRequestByte 0 ≠ 0x01 then []
  else
    [(.flowTemp, toFloat divide telegram 0 1 ((2 : ℕ) : F)),
      (.returnTemp, toFloat divide telegram 1 1 ((2 : ℕ) : F)),
      (.storageTemp, toFloat divide telegram 5 1 ((2 : ℕ) : F)),
      (.hotWaterHeating, (((telegram.getResponseByte 6 != 0).toNat : ℕ) : F))]

/-- The handlers that `setup` adds. -/
def messageHandlers : List (Telegram → List (Channel × F)) :=
  [waterPressureHandler divide, dispRoomTempHandler divide, heatingHandler divide]

/-- `handleMessage`: what is published. -/
def handleMessage (telegram : Telegram) : List (Channel × F) :=
  if telegram.state ≠ .endCompleted then []
  else (messageHandlers divide).flatMap fun messageHandler => messageHandler telegram

end Handlers

/-! ### The reply -/

/-- The characters of a C string, without the NUL at its end. -/
structure CString where
  chars : List Byte
  ne_nul : ∀ c ∈ chars, c ≠ 0#8

/-- `identification` in `zebus_config_t`. -/
structure Identification where
  deviceName : CString
  vendorId : Byte
  softwareVersion : BitVec 16
  hardwareVersion : BitVec 16

/-- The reply to an identification request; a short name is filled up with `-`. -/
def fixedIdentificationResponse (identification : Identification) : List Byte :=
  [identification.vendorId] ++
    (List.range 5).map (fun i => identification.deviceName.chars.getD i 0x2D#8) ++
    [getByte identification.softwareVersion 1, getByte identification.softwareVersion 0,
      getByte identification.hardwareVersion 1, getByte identification.hardwareVersion 0]

/-- The handler that `setup_ebus` adds. -/
def identificationHandler (identification : Identification) : Handler := fun telegram buffer =>
  if bytesToWord telegram.getPB.toNat telegram.getSB.toNat ≠ cmdIdentification then (0, buffer)
  else writes (fixedIdentificationResponse identification) telegram buffer

/-! ### The application -/

/-- `zebus_config_t`, without the UART and the interval. -/
structure ZebusConfig where
  masterAddress : Byte
  maxTries : Byte
  maxLockCounter : Byte
  historySize : Byte
  commandSize : Byte
  identification : Identification

/-- The driver's configuration: `setup_ebus` installs both functions. -/
def ZebusConfig.ebusConfig (config : ZebusConfig) : Config :=
  { masterAddress := config.masterAddress
    maxTries := config.maxTries
    maxLockCounter := config.maxLockCounter
    queueReceivedTelegram := true
    dequeueCommand := true }

end Zebus

/-- The application; `enqueuing` are the commands that a running `update` has still to enqueue. -/
structure Zebus (Q : QueueApi Byte) extends Zebus.ZebusConfig where
  ebus : Zebus.Ebus
  telegramHistoryQueue : Q.Queue
  telegramCommandQueue : Q.Queue
  enqueuing : List Zebus.SendCommand := []

namespace Zebus

/-- What a step does: the bytes it sends, the command it takes off the queue, the telegram it
handles, and what the sensors publish, with the telegram it is from. -/
structure ZebusOutput (F : Type*) where
  sent : List Byte := []
  dequeued : List SendCommand := []
  handled : List Telegram := []
  published : List (Telegram × Channel × F) := []

/-- What the application finds on its device. -/
structure Platform (Q : QueueApi Byte) (F : Type*) where
  divide : BitVec 32 → F → F
  memory : Memory (Zebus Q) SendCommand (ZebusOutput F)

variable {Q : QueueApi Byte} {F : Type*}

/-- `setup`, without the UART.  Of an application that gets no queue nothing is said. -/
def setup (Q : QueueApi Byte) (config : ZebusConfig) : Option (Zebus Q) :=
  (Q.create config.historySize.toNat sizeofTelegram).bind fun telegramHistoryQueue =>
    (Q.create config.commandSize.toNat sizeofTelegram).map fun telegramCommandQueue =>
      { config with
        ebus := .init config.ebusConfig
        telegramHistoryQueue := telegramHistoryQueue
        telegramCommandQueue := telegramCommandQueue }

variable (z : Zebus Q)

/-- `createReadConfigCommand`. -/
def createReadConfigCommand (target : Byte) (configElement : BitVec 16) : SendCommand :=
  .new z.masterAddress (Elf.toSlave target) (getByte cmdDeviceConfig 1) (getByte cmdDeviceConfig 0)
    3 [deviceConfigSubcommandRead, getByte configElement 1, getByte configElement 0]

/-- The commands that `update` enqueues. -/
def readCommands : List SendCommand :=
  [z.createReadConfigCommand masterHeater deviceConfigWaterPressure,
    z.createReadConfigCommand masterExa deviceConfigDispRoomTemp]

/-- The call of `process_received_char` for a byte; the command is the beginning of the item. -/
def call (receivedByte : Byte) : Call :=
  ⟨receivedByte, (Q.receiveFromIsr z.telegramCommandQueue).map fun r => .ofImage r.1,
    [identificationHandler z.identification]⟩

/-- What the call does, and the item it takes off the command queue. -/
def process (receivedByte : Byte) : (Zebus Q × ZebusOutput F) × Option (List Byte) :=
  let r := z.ebus.processReceivedChar (z.call receivedByte)
  let received := if r.2.dequeueCalled then Q.receiveFromIsr z.telegramCommandQueue else none
  (({ z with
      ebus := r.1
      telegramHistoryQueue := r.2.queued.foldl
        (fun queue t => (Q.sendToBackFromIsr queue t.image).getD queue) z.telegramHistoryQueue
      telegramCommandQueue := (received.map Prod.snd).getD z.telegramCommandQueue },
    { sent := r.2.sent
      dequeued := (received.map fun r => .ofImage r.1).toList }), received.map Prod.fst)

section Platform

variable (P : Platform Q F)

/-- A turn of `ebus_process_received_bytes`. -/
def processReceivedByte (receivedByte : Byte) : Zebus Q × ZebusOutput F :=
  P.memory.deliver (z.process receivedByte)

/-- A turn of `ebus_process_received_messages`. -/
def processReceivedMessage [NatCast F] : Zebus Q × ZebusOutput F :=
  match Q.receive z.telegramHistoryQueue with
  | none => (z, {})
  | some (item, telegramHistoryQueue) =>
    let t := Telegram.ofImage item
    ({ z with telegramHistoryQueue := telegramHistoryQueue },
      { handled := [t], published := (handleMessage P.divide t).map (Prod.mk t) })

/-- The main loop calls `update`, unless it is still in it. -/
def update : Zebus Q × ZebusOutput F :=
  if z.enqueuing ≠ [] then (z, {}) else ({ z with enqueuing := z.readCommands }, {})

/-- `ebus_enqueue_command` in `update`; it waits while the queue is full. -/
def enqueueCommand : Zebus Q × ZebusOutput F :=
  match z.enqueuing with
  | [] => (z, {})
  | command :: commands =>
    let bytes := command.image ++ (P.memory.behind z command).toList
    match Q.sendToBack z.telegramCommandQueue bytes with
    | none => (z, {})
    | some queue => ({ z with telegramCommandQueue := queue, enqueuing := commands }, {})

/-- A step of the application; its tasks are those of the component. -/
def step [NatCast F] (z : Zebus Q) : ComponentStep → Zebus Q × ZebusOutput F
  | .byte b => z.processReceivedByte P b
  | .task .message => z.processReceivedMessage P
  | .task .update => z.update
  | .task .poll => z.enqueueCommand P

end Platform

/-- The commands in the command queue. -/
def commands : List SendCommand := (Q.contents z.telegramCommandQueue).map .ofImage

/-- The telegrams in the history queue. -/
def history : List Telegram := (Q.contents z.telegramHistoryQueue).map .ofImage

end Zebus

end EsphomeEbus
