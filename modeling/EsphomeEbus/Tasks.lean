import EsphomeEbus.Objects
import EsphomeEbus.Sensor
import EsphomeEbus.Station
import EsphomeEbus.Library.TaskQueue

/-!
# The tasks of a component: `ebus_component.cpp`

Three tasks share a component: one hands the received bytes to the driver, one takes telegrams off
the history queue and passes them to the items, and the main loop has the items poll.  Between them
are two queues of the kernel, which is a parameter.  The tasks run in any order, one queue operation
at a time.

Both queues are created for items of the size of a telegram, also the one for commands.  A command
is shorter: `update` sends it with the bytes that lie behind it, and a call that takes it off the
queue has these bytes written behind its local `dequeued`.  The language leaves open what comes of
that, and so does the model: what lies behind a command, and what becomes of a call that has been
written over, are parameters too (`Platform`).

* `EbusItem.prepareCommand`, `EbusItem.reply`, `Item.processReceived`: what the items do;
* `EbusComponent`, `EbusComponent.step`: the component and the steps of its tasks;
* `Spares`: a platform where what is written behind `dequeued` does no harm;
* `process`, `Turn`: what a step can do;
* `ebus_run`, `queued_run`: the driver in all this.
-/

namespace EsphomeEbus

open Elf Transducer

/-! ### Items -/

/-- The one reply that items have: an identification. -/
def identification : List Byte :=
  [0xE3#8, 0x45#8, 0x53#8, 0x50#8, 0x48#8, 0x4D#8, 0x12#8, 0x34#8, 0x56#8, 0x78#8]

namespace EbusItem

variable (item : EbusItem)

/-- `EbusItem::set_address`. -/
def setAddress (address : Byte) : EbusItem := { item with address := toSecondary address }

/-- `EbusItem::reply`, whatever the item and the telegram. -/
def reply (_item : EbusItem) (_telegram : Telegram) : List Byte := identification

/-- `EbusItem::prepare_command`, for a parent with this address. -/
def prepareCommand (primaryAddress : Byte) : Option SendCommand :=
  if item.sendPoll then some (.new primaryAddress item.address item.command item.payload) else none

end EbusItem

/-- A binary sensor; the mask is read as an `int8_t`. -/
structure EbusBinarySensor extends EbusItem where
  mask : Byte
  deriving DecidableEq

/-- `EbusBinarySensor::process_received`: the state it publishes, if it publishes one.  Both
operands of the `&` are made an `int` first, the mask with its sign. -/
def EbusBinarySensor.processReceived (s : EbusBinarySensor) (t : Telegram) : Option Bool :=
  if !s.isMine t then none
  else
    let result := (getResponseBytes t s.responsePosition 1).setWidth 8
    some (result.setWidth 32 &&& s.mask.signExtend 32 != 0)

theorem setWidth_and_signExtend (a b : Byte) :
    a.setWidth 32 &&& b.signExtend 32 = (a &&& b).setWidth 32 := by
  ext i hi
  simp only [BitVec.getElem_and, BitVec.getElem_setWidth, BitVec.getElem_signExtend,
    BitVec.getLsbD_and]
  by_cases h : i < 8
  · simp [h]
  · rw [BitVec.getLsbD_of_ge a i (by omega)]
    rfl

/-- The sign of the mask makes no difference. -/
theorem EbusBinarySensor.processReceived_eq (s : EbusBinarySensor) (t : Telegram) :
    s.processReceived t = if s.isMine t then
      some ((getResponseBytes t s.responsePosition 1).setWidth 8 &&& s.mask != 0) else none := by
  have hzero : ∀ a : Byte, (a.setWidth 32 != 0) = (a != 0) := by
    intro a
    rw [Bool.eq_iff_iff, bne_iff_ne, bne_iff_ne, ne_eq, ne_eq, not_iff_not]
    constructor
    · intro h
      simpa using congrArg (BitVec.setWidth 8) h
    · rintro rfl
      rfl
  rw [processReceived]
  simp only [setWidth_and_signExtend, hzero]
  cases s.isMine t <;> rfl

deriving instance DecidableEq for EbusSensor

/-- The items there are; `F` is the type of floating point numbers. -/
inductive Item (F : Type*) where
  | sensor (s : EbusSensor F)
  | binarySensor (s : EbusBinarySensor)
  deriving DecidableEq

/-- What an item publishes. -/
inductive Publication (F : Type*) where
  | number (value : F)
  | state (value : Bool)
  deriving DecidableEq

namespace Item

variable {F : Type*}

def toEbusItem : Item F → EbusItem
  | sensor s => s.toEbusItem
  | binarySensor s => s.toEbusItem

/-- `process_received` of either item. -/
def processReceived (divide : BitVec 32 → F → F) (t : Telegram) : Item F → Option (Publication F)
  | sensor s => (s.processReceived divide t).map .number
  | binarySensor s => (s.processReceived t).map .state

/-- An item publishes nothing for a telegram that is not its own. -/
theorem isMine_of_processReceived {divide : BitVec 32 → F → F} {item : Item F} {t : Telegram}
    {v : Publication F} (h : item.processReceived divide t = some v) :
    item.toEbusItem.isMine t = true := by
  by_contra hmine
  rw [Bool.not_eq_true] at hmine
  cases item with
  | sensor s =>
    have hmine' : s.isMine t = false := hmine
    simp [processReceived, EbusSensor.processReceived, hmine'] at h
  | binarySensor s =>
    have hmine' : s.isMine t = false := hmine
    simp [processReceived, EbusBinarySensor.processReceived, hmine'] at h

end Item

/-! ### The component -/

/-- What the setters and `add_item` have set when `setup` is called. -/
structure ComponentSettings (F : Type*) where
  primaryAddress : Byte
  maxTries : Byte
  maxLockCounter : Byte
  historyQueueSize : Byte
  commandQueueSize : Byte
  items : List (Item F)

/-- The driver's configuration: `setup_ebus_` installs both functions. -/
def ComponentSettings.config {F : Type*} (c : ComponentSettings F) : Config :=
  { primaryAddress := c.primaryAddress
    maxTries := c.maxTries
    maxLockCounter := c.maxLockCounter
    queueReceivedTelegram := true
    dequeueCommand := true }

/-- The component; `polling` are the items that a running `update` has still to ask. -/
structure EbusComponent (Q : QueueApi Byte) (F : Type*) extends ComponentSettings F where
  ebus : Ebus
  historyQueue : Q.Queue
  commandQueue : Q.Queue
  polling : List (Item F) := []

/-- A step of the tasks that do not receive bytes: the message task looks into the history queue,
the main loop calls `update`, or goes on in it. -/
inductive TaskStep where
  | message
  | update
  | poll
  deriving DecidableEq, Repr

/-- A step of any task. -/
inductive ComponentStep where
  | byte (receivedByte : Byte)
  | task (t : TaskStep)
  deriving DecidableEq, Repr

/-- The byte that a step receives, if any. -/
def ComponentStep.bytes : ComponentStep → List Byte
  | byte b => [b]
  | task _ => []

/-- What a step does: the call of `process_received_char` it makes, the bytes this sends, the
telegrams it queues and those for which there is room, the command it takes off the queue; whether
it begins an `update`; the telegram it handles, and what the items publish. -/
structure ComponentOutput (F : Type*) where
  called : List Call := []
  sent : List Byte := []
  queued : List Telegram := []
  accepted : List Telegram := []
  dequeued : List SendCommand := []
  begun : Bool := false
  handled : List Telegram := []
  published : List (Item F × Publication F) := []

/-- What the language leaves open, for a component `C` with commands `S` whose steps put out `O`:
the bytes that lie behind a command in memory, and what becomes of a call of
`process_received_char`, whose outcome would be the given one, if these bytes are written behind its
local `dequeued`. -/
structure Memory (C S O : Type*) where
  behind : C → S → Vector Byte excess
  overrun : List Byte → C × O → C × O

namespace Memory

variable {C S O : Type*}

/-- The frame of `process_received_char` has room for as many bytes as a telegram is longer than a
command, and nobody reads them. -/
def Spares (memory : Memory C S O) : Prop :=
  ∀ bytes outcome, bytes.length ≤ excess → memory.overrun bytes outcome = outcome

/-- A call that takes an item has it copied to `dequeued` as a whole. -/
def deliver (memory : Memory C S O) (r : (C × O) × Option (List Byte)) : C × O :=
  match r.2 with
  | none => r.1
  | some item => memory.overrun (item.drop sizeofSendCommand) r.1

theorem deliver_of_none (memory : Memory C S O) {r : (C × O) × Option (List Byte)}
    (h : r.2 = none) : memory.deliver r = r.1 := by
  rw [deliver, h]

/-- With room behind `dequeued`, the call does what it would do. -/
theorem Spares.deliver_eq {memory : Memory C S O} (h : memory.Spares)
    {r : (C × O) × Option (List Byte)}
    (hlen : ∀ item, r.2 = some item → item.length ≤ sizeofTelegram) : memory.deliver r = r.1 := by
  unfold deliver
  split
  · rfl
  · rename_i item hitem
    have hle := hlen item hitem
    rw [sizeofTelegram_eq] at hle
    refine h _ _ ?_
    rw [List.length_drop]
    omega

/-- Zeros behind a command, and room behind `dequeued`. -/
def spacious : Memory C S O := ⟨fun _ _ => .replicate excess 0, fun _ outcome => outcome⟩

theorem spares_spacious : (spacious : Memory C S O).Spares := fun _ _ _ => rfl

end Memory

/-- What a component finds on its device: the division of floating point numbers, and the memory.
-/
structure Platform (Q : QueueApi Byte) (F : Type*) where
  divide : BitVec 32 → F → F
  memory : Memory (EbusComponent Q F) SendCommand (ComponentOutput F)

namespace EbusComponent

variable {Q : QueueApi Byte} {F : Type*}

/-- `EbusComponent::setup`, without the UART; `setup_queues_` gives both queues items of the size of
a telegram.  Of a component that gets no queue nothing is said. -/
def setup (Q : QueueApi Byte) (settings : ComponentSettings F) : Option (EbusComponent Q F) :=
  (Q.create settings.historyQueueSize.toNat sizeofTelegram).bind fun historyQueue =>
    (Q.create settings.commandQueueSize.toNat sizeofTelegram).map fun commandQueue =>
      { settings with
        ebus := .init settings.config
        historyQueue := historyQueue
        commandQueue := commandQueue }

variable (P : Platform Q F) (c : EbusComponent Q F)

/-- The handler that `setup_ebus_` installs: the first reply of an item that is not empty. -/
def sendResponseHandler (t : Telegram) : List Byte :=
  findReply (c.items.map fun item => item.toEbusItem.reply) t

/-- What a call of `process_received_char` finds: the command is the beginning of the item. -/
def intake : Intake :=
  ⟨(Q.receiveFromIsr c.commandQueue).map fun r => .ofImage r.1, [c.sendResponseHandler]⟩

/-- What a call of `process_received_char` does, and the item it takes off the command queue.  Each
queue is used once at most, and a telegram that finds the history queue full is dropped. -/
def process (receivedByte : Byte) :
    (EbusComponent Q F × ComponentOutput F) × Option (List Byte) :=
  let call := c.intake.call receivedByte
  let r := c.ebus.processReceivedChar call
  let received := if r.2.dequeueCalled then Q.receiveFromIsr c.commandQueue else none
  (({ c with
      ebus := r.1
      historyQueue := r.2.queued.foldl
        (fun queue t => (Q.sendToBackFromIsr queue t.image).getD queue) c.historyQueue
      commandQueue := (received.map Prod.snd).getD c.commandQueue },
    { called := [call]
      sent := r.2.sent
      queued := r.2.queued
      accepted := r.2.queued.filter fun t => (Q.sendToBackFromIsr c.historyQueue t.image).isSome
      dequeued := (received.map fun r => .ofImage r.1).toList }), received.map Prod.fst)

/-- A turn of `process_received_bytes`. -/
def processReceivedByte (receivedByte : Byte) : EbusComponent Q F × ComponentOutput F :=
  P.memory.deliver (c.process receivedByte)

/-- What the items publish when `handle_message_` passes them a telegram. -/
def publications (t : Telegram) : List (Item F × Publication F) :=
  (handleMessage c.items t).flatMap fun p =>
    ((p.1.processReceived P.divide p.2).map (Prod.mk p.1)).toList

/-- A turn of `process_received_messages`. -/
def processReceivedMessage : EbusComponent Q F × ComponentOutput F :=
  match Q.receive c.historyQueue with
  | none => (c, {})
  | some (item, historyQueue) =>
    let t := Telegram.ofImage item
    ({ c with historyQueue := historyQueue },
      { handled := [t], published := c.publications P t })

/-- The main loop calls `update`, unless it is still in it. -/
def update : EbusComponent Q F × ComponentOutput F :=
  if c.polling ≠ [] ∨ c.primaryAddress = syn then (c, {})
  else ({ c with polling := c.items }, { begun := true })

/-- A turn of the loop of `update`; it waits while the command queue is full. -/
def poll : EbusComponent Q F × ComponentOutput F :=
  match c.polling with
  | [] => (c, {})
  | item :: polling =>
    match item.toEbusItem.prepareCommand c.primaryAddress with
    | none => ({ c with polling := polling }, {})
    | some command =>
      let bytes := command.image ++ (P.memory.behind c command).toList
      match Q.sendToBack c.commandQueue bytes with
      | none => (c, {})
      | some commandQueue => ({ c with commandQueue := commandQueue, polling := polling }, {})

/-- A step of the other tasks. -/
def taskStep : TaskStep → EbusComponent Q F × ComponentOutput F
  | .message => c.processReceivedMessage P
  | .update => c.update
  | .poll => c.poll P

/-- A step of the component. -/
def step : ComponentStep → EbusComponent Q F × ComponentOutput F
  | .byte b => c.processReceivedByte P b
  | .task t => c.taskStep P t

/-! ### What the queues hold -/

/-- The commands in the command queue. -/
def commands : List SendCommand := (Q.contents c.commandQueue).map .ofImage

/-- The telegrams in the history queue. -/
def history : List Telegram := (Q.contents c.historyQueue).map .ofImage

/-- The queues are as they were created. -/
structure Sized (c : EbusComponent Q F) : Prop where
  history : Q.itemSize c.historyQueue = sizeofTelegram
  commands : Q.itemSize c.commandQueue = sizeofTelegram

variable {P c}

theorem setup_eq_some {settings : ComponentSettings F} (h : setup Q settings = some c) :
    Q.create settings.historyQueueSize.toNat sizeofTelegram = some c.historyQueue ∧
      Q.create settings.commandQueueSize.toNat sizeofTelegram = some c.commandQueue ∧
      c.toComponentSettings = settings ∧ c.ebus = .init settings.config ∧ c.polling = [] := by
  obtain ⟨historyQueue, hhistory, h⟩ := Option.bind_eq_some_iff.mp h
  obtain ⟨commandQueue, hcommands, rfl⟩ := Option.map_eq_some_iff.mp h
  exact ⟨hhistory, hcommands, rfl, rfl, rfl⟩

section Setup

variable {settings : ComponentSettings F} (hQ : Q.Lawful) (h : setup Q settings = some c)

include hQ h

theorem sized_setup : c.Sized where
  history := (hQ.create (setup_eq_some h).1).2.2
  commands := (hQ.create (setup_eq_some h).2.1).2.2

theorem commands_setup : c.commands = [] := by
  rw [commands, (hQ.create (setup_eq_some h).2.1).1]
  rfl

theorem history_setup : c.history = [] := by
  rw [history, (hQ.create (setup_eq_some h).1).1]
  rfl

/-- There is a component only if both queues have room for something. -/
theorem pos_of_setup : 0 < settings.historyQueueSize.toNat ∧
    0 < settings.commandQueueSize.toNat := by
  obtain ⟨hhistory, hcommands, -⟩ := setup_eq_some h
  constructor
  · by_contra hzero
    rw [Nat.eq_zero_of_not_pos hzero, hQ.create_zero] at hhistory
    cases hhistory
  · by_contra hzero
    rw [Nat.eq_zero_of_not_pos hzero, hQ.create_zero] at hcommands
    cases hcommands

end Setup

/-- A component whose queues are lists. -/
def bounded (settings : ComponentSettings F) : EbusComponent (boundedQueues Byte) F where
  toComponentSettings := settings
  ebus := .init settings.config
  historyQueue := .empty settings.historyQueueSize.toNat sizeofTelegram
  commandQueue := .empty settings.commandQueueSize.toNat sizeofTelegram

theorem setup_bounded {settings : ComponentSettings F} (h : settings.historyQueueSize.toNat ≠ 0)
    (h' : settings.commandQueueSize.toNat ≠ 0) :
    setup (boundedQueues Byte) settings = some (bounded settings) := by
  have hcreate : ∀ {size : ℕ}, size ≠ 0 → (boundedQueues Byte).create size sizeofTelegram =
      some (.empty size sizeofTelegram) := fun hne => if_neg hne
  rw [setup, hcreate h, hcreate h']
  rfl

/-! ### What a byte does -/

/-- What a call finds in the command queue is its first command. -/
theorem dequeued_intake (hQ : Q.Lawful) : c.intake.dequeued = c.commands.head? := by
  show (Q.receiveFromIsr c.commandQueue).map _ = _
  rw [commands, List.head?_map, ← hQ.receiveFromIsr.map_fst, Option.map_map]
  rfl

/-- Where the platform has room behind `dequeued`, a turn does what the call does. -/
theorem processReceivedByte_eq (hQ : Q.Lawful) (hP : P.memory.Spares) (h : c.Sized) (b : Byte) :
    c.processReceivedByte P b = (c.process b).1 := by
  refine hP.deliver_eq fun item hitem => ?_
  obtain ⟨⟨item, rest⟩, hr, rfl⟩ := Option.map_eq_some_iff.mp hitem
  obtain ⟨-, hreceived⟩ := Option.ite_none_right_eq_some.mp hr
  exact h.commands ▸ hQ.receiveFromIsr.length_le hQ hreceived

/-- It also does so, on any platform, where there is no command to take. -/
theorem processReceivedByte_of_nil (hQ : Q.Lawful) (h : c.commands = []) (b : Byte) :
    c.processReceivedByte P b = (c.process b).1 := by
  have hnone : Q.receiveFromIsr c.commandQueue = none :=
    hQ.receiveFromIsr.eq_none_iff.mpr (List.map_eq_nil_iff.mp h)
  have hitem : (c.process b).2 = none := by
    show Option.map _ (if _ then Q.receiveFromIsr c.commandQueue else none) = none
    rw [hnone, ite_self]
    rfl
  exact P.memory.deliver_of_none hitem

/-- What the call takes off the command queue. -/
theorem commands_process (hQ : Q.Lawful) (b : Byte) :
    let called := (c.ebus.processReceivedChar (c.intake.call b)).2.dequeueCalled
    (c.process b).1.1.commands = (if called then c.commands.tail else c.commands) ∧
      (c.process b).1.2.dequeued = (if called then c.commands.take 1 else []) ∧
      Q.Same c.commandQueue (c.process b).1.1.commandQueue :=
  hQ.receiveFromIsr.map_ite SendCommand.ofImage _ c.commandQueue

theorem same_process (hQ : Q.Lawful) (b : Byte) :
    Q.Same c.historyQueue (c.process b).1.1.historyQueue :=
  hQ.sendToBackFromIsr.same_foldl Telegram.image _ _

/-! ### What the other tasks can do -/

variable (P c)

/-- The turns of the message task and of the main loop. -/
inductive Turn : EbusComponent Q F × ComponentOutput F → Prop
  | waits : Turn (c, {})
  | handles {item : List Byte} {historyQueue : Q.Queue} :
      Q.receive c.historyQueue = some (item, historyQueue) →
      Turn ({ c with historyQueue := historyQueue },
        { handled := [.ofImage item], published := c.publications P (.ofImage item) })
  | begins : c.polling = [] → c.primaryAddress ≠ syn →
      Turn ({ c with polling := c.items }, { begun := true })
  | passes {item : Item F} {polling : List (Item F)} : c.polling = item :: polling →
      item.toEbusItem.prepareCommand c.primaryAddress = none →
      Turn ({ c with polling := polling }, {})
  | polls {item : Item F} {polling : List (Item F)} {command : SendCommand}
      {commandQueue : Q.Queue} : c.polling = item :: polling →
      item.toEbusItem.prepareCommand c.primaryAddress = some command →
      Q.sendToBack c.commandQueue (command.image ++ (P.memory.behind c command).toList) =
        some commandQueue →
      Turn ({ c with commandQueue := commandQueue, polling := polling }, {})

theorem turn_taskStep (t : TaskStep) : c.Turn P (c.taskStep P t) := by
  cases t with
  | message =>
    show c.Turn P (c.processReceivedMessage P)
    unfold processReceivedMessage
    split
    · exact .waits
    · rename_i h
      exact .handles h
  | update =>
    show c.Turn P c.update
    unfold update
    split
    · exact .waits
    · rename_i h
      rw [not_or, not_not] at h
      exact .begins h.1 h.2
  | poll =>
    show c.Turn P (c.poll P)
    unfold poll
    split
    · exact .waits
    · rename_i hpolling
      split
      · rename_i hprepare
        exact .passes hpolling hprepare
      · rename_i hprepare
        dsimp only
        split
        · exact .waits
        · rename_i hsend
          exact .polls hpolling hprepare hsend

variable {P c}

/-- The other tasks leave the driver alone. -/
theorem Turn.frame {r : EbusComponent Q F × ComponentOutput F} (h : c.Turn P r) :
    r.1.ebus = c.ebus ∧ r.1.toComponentSettings = c.toComponentSettings ∧ r.2.called = [] ∧
      r.2.sent = [] ∧ r.2.queued = [] ∧ r.2.accepted = [] ∧ r.2.dequeued = [] := by
  cases h <;> exact ⟨rfl, rfl, rfl, rfl, rfl, rfl, rfl⟩

/-- They leave the queues as they were created. -/
theorem Turn.same (hQ : Q.Lawful) {r : EbusComponent Q F × ComponentOutput F} (h : c.Turn P r) :
    Q.Same c.historyQueue r.1.historyQueue ∧ Q.Same c.commandQueue r.1.commandQueue := by
  cases h with
  | handles hreceive => exact ⟨(hQ.receive.of_eq_some hreceive).2, rfl, rfl⟩
  | polls _ _ hsend => exact ⟨⟨rfl, rfl⟩, (hQ.sendToBack.of_eq_some hsend).2.2⟩
  | _ => exact ⟨⟨rfl, rfl⟩, rfl, rfl⟩

theorem taskStep_settings (t : TaskStep) :
    (c.taskStep P t).1.toComponentSettings = c.toComponentSettings :=
  (c.turn_taskStep P t).frame.2.1

/-! ### Whole runs -/

section Runs

variable (hQ : Q.Lawful) (hP : P.memory.Spares)

include hQ in
theorem Sized.task (h : c.Sized) (t : TaskStep) : (c.taskStep P t).1.Sized := by
  obtain ⟨hhistory, hcommands⟩ := (c.turn_taskStep P t).same hQ
  exact ⟨hhistory.2.trans h.history, hcommands.2.trans h.commands⟩

include hQ in
theorem Sized.tasks (h : c.Sized) (ts : List TaskStep) : (Transducer.run (taskStep P) c ts).Sized :=
  run_keeps (C := fun _ _ => True) _ (fun _ t h _ => h.task hQ t) c ts h
    (along_of_forall (P := fun _ => True) _ c ts fun _ _ => trivial)

include hQ in
theorem Sized.process (h : c.Sized) (b : Byte) : (c.process b).1.1.Sized :=
  ⟨(same_process hQ b).2.trans h.history, (commands_process hQ b).2.2.2.trans h.commands⟩

include hQ hP

/-- A step that receives a byte is a call; the others are turns. -/
theorem step_byte (h : c.Sized) (b : Byte) : c.step P (.byte b) = (c.process b).1 :=
  processReceivedByte_eq hQ hP h b

theorem Sized.step (h : c.Sized) (a : ComponentStep) : (c.step P a).1.Sized := by
  cases a with
  | byte b =>
    rw [step_byte hQ hP h]
    exact h.process hQ b
  | task t => exact h.task hQ t

theorem Sized.run (h : c.Sized) (as : List ComponentStep) :
    (Transducer.run (EbusComponent.step P) c as).Sized :=
  run_keeps (C := fun _ _ => True) _ (fun _ a h _ => h.step hQ hP a) c as h
    (along_of_forall (P := fun _ => True) _ c as fun _ _ => trivial)

theorem step_settings (h : c.Sized) (a : ComponentStep) :
    (c.step P a).1.toComponentSettings = c.toComponentSettings := by
  cases a with
  | byte b =>
    rw [step_byte hQ hP h]
    rfl
  | task t => exact taskStep_settings t

/-- A step is a run of the driver, on the calls it makes. -/
theorem unrolls : Unrolls Sized (step P) Ebus.processReceivedChar ebus ComponentOutput.called := by
  intro c a h
  refine ⟨h.step hQ hP a, ?_⟩
  cases a with
  | byte b =>
    rw [step_byte hQ hP h]
    rfl
  | task t =>
    obtain ⟨hebus, -, hcalled, -⟩ := (c.turn_taskStep P t).frame
    show (c.taskStep P t).1.ebus = run _ c.ebus (c.taskStep P t).2.called
    rw [hebus, hcalled]
    rfl

omit hQ hP

/-- The calls that the byte task makes in a run. -/
def callsOf (P : Platform Q F) (c : EbusComponent Q F) (as : List ComponentStep) : List Call :=
  (outputs (step P) c as).flatMap ComponentOutput.called

/-- The other tasks make no calls. -/
theorem callsOf_task (t : TaskStep) (as : List ComponentStep) :
    callsOf P c (.task t :: as) = callsOf P (c.taskStep P t).1 as := by
  obtain ⟨-, -, hcalled, -⟩ := (c.turn_taskStep P t).frame
  show (c.taskStep P t).2.called ++ _ = _
  rw [hcalled]
  rfl

include hQ hP

theorem callsOf_byte (h : c.Sized) (b : Byte) (as : List ComponentStep) :
    callsOf P c (.byte b :: as) = c.intake.call b :: callsOf P (c.process b).1.1 as := by
  rw [callsOf, outputs_cons, List.flatMap_cons, step_byte hQ hP h]
  rfl

theorem bytesOf_callsOf (h : c.Sized) (as : List ComponentStep) :
    bytesOf (callsOf P c as) = as.flatMap ComponentStep.bytes := by
  induction as generalizing c with
  | nil => rfl
  | cons a as ih =>
    cases a with
    | byte b =>
      rw [callsOf_byte hQ hP h, List.flatMap_cons, ← ih (h.process hQ b)]
      rfl
    | task t =>
      rw [callsOf_task, ih (h.task hQ t)]
      rfl

/-- **The driver runs on the calls of the byte task**, whatever the other tasks do. -/
theorem ebus_run (h : c.Sized) (as : List ComponentStep) :
    (run (step P) c as).ebus = c.ebus.after (callsOf P c as) :=
  run_unrolled (unrolls hQ hP) c h as

theorem sent_run (h : c.Sized) (as : List ComponentStep) :
    (outputs (step P) c as).flatMap ComponentOutput.sent =
      (outputs Ebus.processReceivedChar c.ebus (callsOf P c as)).flatMap Output.sent := by
  refine outputs_unrolled (unrolls hQ hP) (fun c a h => ?_) c h as
  cases a with
  | byte b =>
    rw [step_byte hQ hP h]
    exact (List.append_nil _).symm
  | task t =>
    obtain ⟨-, -, hcalled, hsent, -⟩ := (c.turn_taskStep P t).frame
    show (c.taskStep P t).2.sent = (outputs _ _ (c.taskStep P t).2.called).flatMap _
    rw [hsent, hcalled]
    rfl

theorem queued_run (h : c.Sized) (as : List ComponentStep) :
    (outputs (step P) c as).flatMap ComponentOutput.queued =
      c.ebus.queuedDuring (callsOf P c as) := by
  refine outputs_unrolled (unrolls hQ hP) (fun c a h => ?_) c h as
  cases a with
  | byte b =>
    rw [step_byte hQ hP h]
    exact (List.append_nil _).symm
  | task t =>
    obtain ⟨-, -, hcalled, -, hqueued, -⟩ := (c.turn_taskStep P t).frame
    show (c.taskStep P t).2.queued = (outputs _ _ (c.taskStep P t).2.called).flatMap _
    rw [hqueued, hcalled]
    rfl

end Runs

end EbusComponent

end EsphomeEbus
