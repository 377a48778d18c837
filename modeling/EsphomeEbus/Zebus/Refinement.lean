import EsphomeEbus.Zebus.Handlers
import EsphomeEbus.Queues

/-!
# A component in place of the legacy application

With one item for each sensor of the legacy application a component does its work.

* `Refines`: what the two have in common between any two steps;
* `legacySteps`, `simulates`: the steps of the application that a step of the component stands for;
* `component_refines`: whole runs.
-/

namespace EsphomeEbus.Zebus

open Transducer EbusComponent

/-! ### One step -/

section Steps

variable {Q : QueueApi Byte} {F : Type*} [NatCast F]

/-- The settings of the component that takes the place of an application. -/
def ZebusConfig.settings (config : ZebusConfig) : ComponentSettings F where
  primaryAddress := config.masterAddress
  maxTries := config.maxTries
  maxLockCounter := config.maxLockCounter
  historyQueueSize := config.historySize
  commandQueueSize := config.commandSize
  items := channels.map Channel.item

theorem payloadsFit_settings (config : ZebusConfig) :
    (config.settings : ComponentSettings F).PayloadsFit := by
  intro item hitem _
  obtain ⟨channel, -, rfl⟩ := List.mem_map.mp hitem
  have hpayload :
      (Channel.item channel : Item F).toEbusItem.payload = channel.ebusItem.payload := by
    cases channel <;> rfl
  rw [hpayload]
  cases channel <;> decide

/-- The steps of the application that a step of the component stands for.  Of items that do not poll
it knows nothing. -/
def legacySteps (c : EbusComponent Q F) : ComponentStep → List ComponentStep
  | .byte b => [.byte b]
  | .task .message => [.task .message]
  | .task .update => if c.polling ≠ [] ∨ c.primaryAddress = syn then [] else [.task .update]
  | .task .poll =>
    match c.polling with
    | [] => []
    | item :: _ =>
      if (item.toEbusItem.prepareCommand c.primaryAddress).isSome then [.task .poll] else []

/-- The component does what the application does: their drivers are in the same state, their queues
are alike and hold the same, and they have the same commands still to enqueue. -/
structure Refines (config : ZebusConfig) (c : EbusComponent Q F) (z : Zebus Q) : Prop where
  kept : c.Kept config.settings
  config : z.toZebusConfig = config
  ebus : SameState z.ebus c.ebus
  historyQueue : Q.Same c.historyQueue z.telegramHistoryQueue
  commandQueue : Q.Same c.commandQueue z.telegramCommandQueue
  history : c.history = z.history.map Telegram.port
  commands : c.commands = z.commands.map SendCommand.port
  polling : pollsOf c.primaryAddress c.polling = z.enqueuing.map SendCommand.port
  same : ∀ command ∈ z.commands ++ z.enqueuing, SameCommand (some command) (some command.port)

/-- The step receives no ESC. -/
def NoEsc (a : ComponentStep) : Prop := ∀ b ∈ a.bytes, b ≠ esc

instance (a : ComponentStep) : Decidable (NoEsc a) :=
  inferInstanceAs (Decidable (∀ b ∈ a.bytes, b ≠ esc))

/-- A command to read an element of the configuration, as a command of the component. -/
theorem createReadConfigCommand_port {z : Zebus Q} (hz : z.masterAddress ≠ esc) (target : Byte)
    (element : BitVec 16) (hplain : ∀ b ∈ [Elf.toSlave target, getByte cmdDeviceConfig 1,
      getByte cmdDeviceConfig 0, deviceConfigSubcommandRead, getByte element 1, getByte element 0],
      b ≠ esc) :
    (z.createReadConfigCommand target element).port =
        .new z.masterAddress (EsphomeEbus.Elf.toSecondary target) cmdDeviceConfig
          [deviceConfigSubcommandRead, getByte element 1, getByte element 0] ∧
      SameCommand (some (z.createReadConfigCommand target element))
        (some (z.createReadConfigCommand target element).port) := by
  have hall : ∀ b ∈ z.masterAddress :: Elf.toSlave target :: getByte cmdDeviceConfig 1 ::
      getByte cmdDeviceConfig 0 ::
        [deviceConfigSubcommandRead, getByte element 1, getByte element 0], b ≠ esc :=
    List.forall_mem_cons.mpr ⟨hz, hplain⟩
  have hlen : [deviceConfigSubcommandRead, getByte element 1, getByte element 0].length ≤
      maxDataLength := by
    show 3 ≤ 16
    decide
  have hport := SendCommand.port_new hlen hall
  refine ⟨hport, ?_⟩
  have hsame := SameCommand.some hlen hall
  rw [← hport] at hsame
  exact hsame

/-- An `update` of the component begins with the commands of one of the application. -/
theorem pollsOf_items {z : Zebus Q} (hz : z.masterAddress ≠ esc) :
    pollsOf z.masterAddress (channels.map (Channel.item (F := F))) =
        z.readCommands.map SendCommand.port ∧
      ∀ command ∈ z.readCommands, SameCommand (some command) (some command.port) := by
  obtain ⟨hwater, hwater'⟩ := createReadConfigCommand_port hz masterHeater
    deviceConfigWaterPressure (by decide)
  obtain ⟨hroom, hroom'⟩ := createReadConfigCommand_port hz masterExa
    deviceConfigDispRoomTemp (by decide)
  refine ⟨?_, ?_⟩
  · rw [readCommands, List.map_cons, List.map_cons, List.map_nil, hwater, hroom]
    rfl
  · rw [readCommands, List.forall_mem_cons, List.forall_mem_cons]
    exact ⟨hwater', hroom', fun command h => nomatch h⟩

variable {P : EsphomeEbus.Platform Q F} {M : Platform Q F} {config : ZebusConfig}
  {c : EbusComponent Q F} {z : Zebus Q}

section Kernel

variable (hQ : Q.Lawful)

include hQ

omit [NatCast F] in
/-- What the legacy call takes off the command queue. -/
theorem commands_process_legacy (b : Byte) :
    let called := (z.ebus.processReceivedChar (z.call b)).2.dequeueCalled
    let r : (Zebus Q × ZebusOutput F) × Option (List Byte) := z.process b
    r.1.1.commands = (if called then z.commands.tail else z.commands) ∧
      r.1.2.dequeued = (if called then z.commands.take 1 else []) ∧
      Q.Same z.telegramCommandQueue r.1.1.telegramCommandQueue :=
  hQ.receiveFromIsr.map_ite SendCommand.ofImage _ z.telegramCommandQueue

/-- The heads of the two command queues are the same. -/
theorem Refines.dequeued (h : Refines config c z) (b : Byte) :
    SameCommand (z.call b).dequeued (c.intake.call b).dequeued := by
  have hlegacy : (z.call b).dequeued = z.commands.head? := by
    rw [Zebus.commands, List.head?_map, ← hQ.receiveFromIsr.map_fst, Option.map_map]
    rfl
  have hported : (c.intake.call b).dequeued = c.commands.head? := dequeued_intake hQ
  rw [hlegacy, hported, h.commands, List.head?_map]
  cases hitems : z.commands with
  | nil => exact .none
  | cons command commands =>
    exact h.same command (by rw [hitems]; exact List.mem_append_left _ List.mem_cons_self)

/-- Both drivers on a byte. -/
theorem Refines.driver (h : Refines config c z) {b : Byte} (hb : b ≠ esc) :
    let r := c.ebus.processReceivedChar (c.intake.call b)
    let r' := z.ebus.processReceivedChar (z.call b)
    SameState r'.1 r.1 ∧ r.2.dequeueCalled = r'.2.dequeueCalled ∧
      r.2.queued = r'.2.queued.map Telegram.port ∧
      (EsphomeEbus.handleResponse c.ebus.config.primaryAddress [c.sendResponseHandler]
          r'.1.receivingTelegram.port =
        handleResponse c.ebus.config.primaryAddress [identificationHandler z.identification]
          r'.1.receivingTelegram → r.2.sent = r'.2.sent) :=
  lockstep_alike h.ebus rfl hb (h.dequeued hQ b)

omit hQ in
/-- Both history queues are full, or neither is. -/
theorem Refines.isFull_iff (h : Refines config c z) :
    Q.IsFull z.telegramHistoryQueue ↔ Q.IsFull c.historyQueue := by
  have hlen := congrArg List.length h.history
  rw [Zebus.history, EbusComponent.history, List.length_map, List.length_map,
    List.length_map] at hlen
  exact QueueApi.isFull_iff hlen.symm h.historyQueue

omit hQ in
/-- So are the command queues. -/
theorem Refines.isFull_commands (h : Refines config c z) :
    Q.IsFull z.telegramCommandQueue ↔ Q.IsFull c.commandQueue := by
  have hlen := congrArg List.length h.commands
  rw [Zebus.commands, EbusComponent.commands, List.length_map, List.length_map,
    List.length_map] at hlen
  exact QueueApi.isFull_iff hlen.symm h.commandQueue

/-- What the legacy call adds to the history queue. -/
theorem Refines.history_process (h : Refines config c z) {b : Byte} (hb : b ≠ esc) :
    (z.process b : (Zebus Q × ZebusOutput F) × _).1.1.history = z.history ++
      if Q.IsFull z.telegramHistoryQueue then []
        else (z.ebus.processReceivedChar (z.call b)).2.queued := by
  obtain ⟨-, -, hqueued, -⟩ := h.driver hQ hb
  have hbounds := h.kept.fits.2.inBounds
  refine hQ.sendToBackFromIsr.map_foldl ?_ fun t ht => ?_
  · rw [← List.length_map Telegram.port, ← hqueued]
    rcases c.ebus.queued_nil_or_single (c.intake.call b) with hnone | hone
    · rw [hnone]
      exact Nat.zero_le 1
    · rw [hone]
      exact Nat.le_refl 1
  · -- the telegram has the buffers of the component's
    have hport : t.port = c.ebus.receivingTelegram := by
      have hmem : t.port ∈ (c.ebus.processReceivedChar (c.intake.call b)).2.queued := by
        rw [hqueued]
        exact List.mem_map_of_mem ht
      rcases c.ebus.queued_nil_or_single (c.intake.call b) with hnone | hone
      · rw [hnone] at hmem
        cases hmem
      · rw [hone] at hmem
        exact List.mem_singleton.mp hmem
    rw [← hport] at hbounds
    rw [h.historyQueue.2, h.kept.sized.history]
    exact Telegram.ofImage_take (Nat.lt_of_le_of_lt hbounds.requestPos (by decide))
      (Nat.lt_of_le_of_lt hbounds.responsePos (by decide))

theorem Refines.process (h : Refines config c z) {b : Byte} (hb : b ≠ esc) :
    Refines config (c.process b).1.1 (z.process b : (Zebus Q × ZebusOutput F) × _).1.1 := by
  obtain ⟨hstate, hcalled, hqueued, -⟩ := h.driver hQ hb
  obtain ⟨hcommands, -, hsame⟩ := EbusComponent.commands_process (c := c) hQ b
  obtain ⟨hcommands', -, hsame'⟩ := @commands_process_legacy Q F z hQ b
  refine ⟨h.kept.process hQ b, h.config, hstate, ?_, ?_, ?_, ?_, h.polling, ?_⟩
  · exact (same_process hQ b).symm.trans (h.historyQueue.trans
      (hQ.sendToBackFromIsr.same_foldl Telegram.image _ _))
  · exact hsame.symm.trans (h.commandQueue.trans hsame')
  · rw [h.kept.history_process hQ, accepted_process hQ, h.history_process hQ hb, List.map_append,
      ← h.history, if_congr h.isFull_iff rfl rfl]
    split
    · rfl
    · exact congrArg (c.history ++ ·) hqueued
  · rw [hcommands, hcommands', hcalled, h.commands]
    split
    · exact List.map_tail.symm
    · rfl
  · intro command hcommand
    refine h.same command ?_
    rcases List.mem_append.mp hcommand with hqueue | hleft
    · refine List.mem_append_left _ ?_
      rw [hcommands'] at hqueue
      split at hqueue
      · exact List.mem_of_mem_tail hqueue
      · exact hqueue
    · exact List.mem_append_right _ hleft

/-- On a platform with room behind `dequeued`, a turn of the application does what the call does. -/
theorem processReceivedByte_legacy (hM : M.memory.Spares) (h : Refines config c z) (b : Byte) :
    z.processReceivedByte M b = (z.process b).1 := by
  refine hM.deliver_eq fun item hitem => ?_
  obtain ⟨⟨item, rest⟩, hr, rfl⟩ := Option.map_eq_some_iff.mp hitem
  obtain ⟨-, hreceived⟩ := Option.ite_none_right_eq_some.mp hr
  have hlen := hQ.receiveFromIsr.length_le hQ hreceived
  rwa [h.commandQueue.2, h.kept.sized.commands] at hlen

theorem Refines.message (h : Refines config c z) (hdivide : P.divide = M.divide) :
    Refines config (c.processReceivedMessage P).1 (z.processReceivedMessage M).1 ∧
      (c.processReceivedMessage P).2.handled =
        (z.processReceivedMessage M).2.handled.map Telegram.port ∧
      numbers (c.processReceivedMessage P).2.published =
        addressed (z.processReceivedMessage M).2.published := by
  have hitems : c.items = channels.map Channel.item :=
    congrArg ComponentSettings.items h.kept.sameSettings
  have hkept : (c.processReceivedMessage P).1.Kept config.settings := h.kept.task hQ .message
  have hhistory := h.history
  rw [Zebus.history, EbusComponent.history] at hhistory
  unfold EbusComponent.processReceivedMessage at hkept ⊢
  unfold processReceivedMessage
  cases hreceive : Q.receive z.telegramHistoryQueue with
  | none =>
    have hempty := hQ.receive.eq_none_iff.mp hreceive
    rw [hempty] at hhistory
    rw [hQ.receive.eq_none_iff.mpr (List.map_eq_nil_iff.mp hhistory)]
    exact ⟨h, rfl, rfl⟩
  | some taken =>
    obtain ⟨item', historyQueue'⟩ := taken
    obtain ⟨hcontents', hsame'⟩ := hQ.receive.of_eq_some hreceive
    rw [hcontents', List.map_cons, List.map_cons] at hhistory
    obtain ⟨item, items, hcontents, hitem, hrest⟩ := List.map_eq_cons_iff.mp hhistory
    obtain ⟨historyQueue, hreceive', hcontents'', hsame⟩ := hQ.receive.front hcontents
    rw [hreceive'] at hkept ⊢
    refine ⟨⟨hkept, h.config, h.ebus, ?_, h.commandQueue, ?_, h.commands, h.polling, h.same⟩,
      ?_, ?_⟩
    · exact hsame.symm.trans (h.historyQueue.trans hsame')
    · exact (congrArg (List.map EsphomeEbus.Telegram.ofImage) hcontents'').trans hrest
    · exact congrArg (fun t => [t]) hitem
    · exact (congrArg (fun t => numbers (c.publications P t)) hitem).trans
        (publications_eq hitems hdivide)

omit hQ in
/-- An `update` of the component that begins is one of the application. -/
theorem Refines.update (h : Refines config c z) (hmaster : config.masterAddress ≠ esc) :
    Refines config c.update.1 (run (step M) z (legacySteps c (.task .update))) := by
  unfold EbusComponent.update legacySteps
  split
  · exact h
  · rename_i hbegins
    rw [not_or, not_not] at hbegins
    have henqueuing : z.enqueuing = [] := by
      have hpolling := h.polling
      rw [hbegins.1] at hpolling
      exact List.map_eq_nil_iff.mp hpolling.symm
    have hz : z.masterAddress = config.masterAddress :=
      congrArg ZebusConfig.masterAddress h.config
    have haddress : c.primaryAddress = z.masterAddress :=
      (congrArg ComponentSettings.primaryAddress h.kept.sameSettings).trans hz.symm
    have hitems : c.items = channels.map Channel.item :=
      congrArg ComponentSettings.items h.kept.sameSettings
    obtain ⟨hpolls, hsame⟩ := pollsOf_items (F := F) (hz ▸ hmaster)
    have hupdate : (Zebus.update z : Zebus Q × ZebusOutput F).1 =
        { z with enqueuing := z.readCommands } := by
      rw [Zebus.update, if_neg (not_not.mpr henqueuing)]
    show Refines config { c with polling := c.items } (Zebus.update z : Zebus Q × ZebusOutput F).1
    rw [hupdate]
    have hkept : { c with polling := c.items }.Kept config.settings :=
      ⟨⟨h.kept.sized.history, h.kept.sized.commands⟩, h.kept.sameSettings, h.kept.historyCapacity,
        h.kept.commandCapacity, h.kept.fits, fun _ hitem => hitem⟩
    refine ⟨hkept, h.config, h.ebus, h.historyQueue, h.commandQueue, h.history, h.commands, ?_, ?_⟩
    · show pollsOf c.primaryAddress c.items = z.readCommands.map SendCommand.port
      rw [haddress, hitems, hpolls]
    · intro command hcommand
      rcases List.mem_append.mp hcommand with hqueue | hleft
      · exact h.same command (List.mem_append_left _ hqueue)
      · exact hsame command hleft

/-- Where the component asks an item for its poll, the application enqueues its next command. -/
theorem Refines.poll (h : Refines config c z) :
    Refines config (c.poll P).1 (run (step M) z (legacySteps c (.task .poll))) := by
  have hkept : (c.poll P).1.Kept config.settings := h.kept.task hQ .poll
  have hpolling := h.polling
  unfold EbusComponent.poll at hkept ⊢
  unfold legacySteps
  cases hitems : c.polling with
  | nil => exact h
  | cons item items =>
    rw [hitems] at hpolling hkept
    cases hprepare : item.toEbusItem.prepareCommand c.primaryAddress with
    | none =>
      rw [pollsOf, List.filterMap_cons, hprepare] at hpolling
      simp only [hprepare] at hkept ⊢
      exact ⟨hkept, h.config, h.ebus, h.historyQueue, h.commandQueue, h.history, h.commands,
        hpolling, h.same⟩
    | some command =>
      rw [pollsOf, List.filterMap_cons, hprepare] at hpolling
      obtain ⟨command', commands', henqueuing, rfl, hcommands⟩ :=
        List.map_eq_cons_iff.mp hpolling.symm
      have henqueue : run (step M) z [.task .poll] = (z.enqueueCommand M).1 := rfl
      simp only [hprepare, Option.isSome_some, if_true, henqueue, enqueueCommand, henqueuing]
        at hkept ⊢
      cases hsend : Q.sendToBack c.commandQueue
          (command'.port.image ++ (P.memory.behind c command'.port).toList) with
      | none =>
        have hfull := h.isFull_commands.mpr (hQ.sendToBack.eq_none_iff.mp hsend)
        rw [hQ.sendToBack.eq_none_iff.mpr hfull]
        exact h
      | some commandQueue =>
        obtain ⟨hroom, -, hsame⟩ := hQ.sendToBack.of_eq_some hsend
        obtain ⟨queue, hsend', hcontents, hsame'⟩ := hQ.sendToBack.room
          (mt h.isFull_commands.mp hroom) (command'.image ++ (M.memory.behind z command').toList)
        have hitem : item ∈ (config.settings : ComponentSettings F).items :=
          h.kept.sameSettings ▸ h.kept.polling item (hitems ▸ List.mem_cons_self)
        have hpos : command'.request.pos < 256 := EbusItem.pos_prepareCommand hprepare fun hpoll =>
          payloadsFit_settings config item hitem hpoll
        have hqueued : (Q.contents queue).map SendCommand.ofImage = z.commands ++ [command'] := by
          rw [hcontents, h.commandQueue.2, h.kept.sized.commands, List.map_append,
            List.map_singleton, SendCommand.ofImage_take hpos]
          rfl
        simp only [hsend] at hkept
        rw [hsend']
        refine ⟨hkept, h.config, h.ebus, h.historyQueue, ?_, h.history, ?_, hcommands.symm, ?_⟩
        · exact hsame.symm.trans (h.commandQueue.trans hsame')
        · have hfits : (config.settings : ComponentSettings F).PayloadsFit :=
            payloadsFit_settings config
          refine (h.kept.commands_poll hQ hfits hitems hprepare hsend).trans ?_
          show c.commands ++ [command'.port] =
            ((Q.contents queue).map SendCommand.ofImage).map SendCommand.port
          rw [h.commands, hqueued, List.map_append, List.map_singleton]
        · intro command hcommand
          refine h.same command ?_
          rw [Zebus.commands, hqueued] at hcommand
          rw [henqueuing, List.append_cons]
          exact hcommand

end Kernel

/-- **One step of the component** is none or one of the application. -/
theorem simulates (hQ : Q.Lawful) (hP : P.memory.Spares) (hM : M.memory.Spares)
    (hdivide : P.divide = M.divide) (hmaster : config.masterAddress ≠ esc) :
    Simulates (Refines config) (fun (_ : EbusComponent Q F) a => NoEsc a) legacySteps
      (EbusComponent.step P) (step M) := by
  intro c z a h ha
  cases a with
  | byte b =>
    show Refines config (c.step P (.byte b)).1 (z.processReceivedByte M b).1
    rw [step_byte hQ hP h.kept.sized, processReceivedByte_legacy hQ hM h]
    exact h.process hQ (ha b (List.mem_singleton_self b))
  | task t =>
    cases t with
    | message => exact (h.message hQ hdivide).1
    | update => exact h.update hmaster
    | poll => exact h.poll hQ

/-- The two are created on the same queues. -/
theorem refines_setup (hQ : Q.Lawful) (hc : EbusComponent.setup Q config.settings = some c)
    (hz : setup Q config = some z) : Refines config c z := by
  obtain ⟨historyQueue, hhistory, hz⟩ := Option.bind_eq_some_iff.mp hz
  obtain ⟨commandQueue, hcommands, rfl⟩ := Option.map_eq_some_iff.mp hz
  have hhistory' : Q.create config.historySize.toNat sizeofTelegram = some c.historyQueue :=
    (setup_eq_some hc).1
  have hcommands' : Q.create config.commandSize.toNat sizeofTelegram = some c.commandQueue :=
    (setup_eq_some hc).2.1
  obtain rfl := Option.some.inj (hhistory'.symm.trans hhistory)
  obtain rfl := Option.some.inj (hcommands'.symm.trans hcommands)
  obtain ⟨-, -, -, hebus, hpolling⟩ := setup_eq_some hc
  have hnone : Q.contents c.commandQueue = [] := (hQ.create hcommands).1
  refine ⟨kept_setup hQ hc, rfl, ?_, .refl _, .refl _, ?_, ?_, ?_, ?_⟩
  · rw [hebus]
    exact sameState_port Telegram.plain_new
  · rw [history_setup hQ hc, Zebus.history, (hQ.create hhistory).1]
    rfl
  · rw [commands_setup hQ hc, Zebus.commands, hnone]
    rfl
  · rw [hpolling]
    rfl
  · intro command hcommand
    rw [Zebus.commands, hnone] at hcommand
    cases hcommand

/-! ### What the steps put out -/

omit [NatCast F] in
/-- A step of the other tasks is none or the same one. -/
theorem legacySteps_task (c : EbusComponent Q F) (t : TaskStep) :
    legacySteps c (.task t) = [] ∨ legacySteps c (.task t) = [.task t] := by
  cases t with
  | message => exact .inr rfl
  | update =>
    simp only [legacySteps]
    split
    · exact .inl rfl
    · exact .inr rfl
  | poll =>
    simp only [legacySteps]
    split
    · exact .inl rfl
    · split
      · exact .inr rfl
      · exact .inl rfl

omit [NatCast F] in
theorem bytes_legacySteps (c : EbusComponent Q F) (a : ComponentStep) :
    (legacySteps c a).flatMap ComponentStep.bytes = a.bytes := by
  cases a with
  | byte b => rfl
  | task t => rcases legacySteps_task c t with h | h <;> rw [h] <;> rfl

/-- The other tasks of the application send nothing and take no command, and only the message task
handles telegrams. -/
theorem task_frame (z : Zebus Q) (t : TaskStep) :
    (z.step M (.task t)).2.sent = [] ∧ (z.step M (.task t)).2.dequeued = [] ∧
      (t ≠ .message → (z.step M (.task t)).2.handled = [] ∧
        (z.step M (.task t)).2.published = []) := by
  cases t with
  | message =>
    simp only [step, processReceivedMessage]
    split <;> exact ⟨rfl, rfl, fun h => absurd rfl h⟩
  | update =>
    simp only [step, Zebus.update]
    split <;> exact ⟨rfl, rfl, fun _ => ⟨rfl, rfl⟩⟩
  | poll =>
    simp only [step, enqueueCommand]
    split
    · exact ⟨rfl, rfl, fun _ => ⟨rfl, rfl⟩⟩
    · split <;> exact ⟨rfl, rfl, fun _ => ⟨rfl, rfl⟩⟩

omit [NatCast F] in
/-- In the component, too, only the message task does. -/
theorem handled_task (c : EbusComponent Q F) {t : TaskStep} (ht : t ≠ .message) :
    (c.taskStep P t).2.handled = [] ∧ (c.taskStep P t).2.published = [] := by
  cases t with
  | message => exact absurd rfl ht
  | update =>
    simp only [taskStep, EbusComponent.update]
    split <;> exact ⟨rfl, rfl⟩
  | poll =>
    simp only [taskStep, EbusComponent.poll]
    split
    · exact ⟨rfl, rfl⟩
    · split
      · exact ⟨rfl, rfl⟩
      · split <;> exact ⟨rfl, rfl⟩

/-- What a step of the other tasks puts out is nothing, if that is so on either side. -/
theorem flatMap_legacySteps {α : Type*} {k : ZebusOutput F → List α} {t : TaskStep}
    (hk : k (z.step M (.task t)).2 = []) :
    (outputs (step M) z (legacySteps c (.task t))).flatMap k = [] := by
  rcases legacySteps_task c t with h | h
  · rw [h]
    rfl
  · rw [h]
    show k (z.step M (.task t)).2 ++ [] = []
    rw [hk, List.append_nil]

section Outputs

variable (hQ : Q.Lawful) (hP : P.memory.Spares) (hM : M.memory.Spares)

include hQ hP hM

/-- A byte has one call on either side. -/
theorem outputs_byte (h : Refines config c z) (b : Byte) :
    c.step P (.byte b) = (c.process b).1 ∧
      outputs (step M) z (legacySteps c (.byte b)) = [(z.process b).1.2] :=
  ⟨step_byte hQ hP h.kept.sized b,
    congrArg (fun r => [Prod.snd r]) (processReceivedByte_legacy hQ hM h b)⟩

/-- The commands taken. -/
theorem Refines.dequeued_step (h : Refines config c z) {a : ComponentStep} (ha : NoEsc a) :
    (c.step P a).2.dequeued = (outputs (step M) z (legacySteps c a)).flatMap
      fun o => o.dequeued.map SendCommand.port := by
  cases a with
  | byte b =>
    obtain ⟨-, hcalled, -, -⟩ := h.driver hQ (ha b (List.mem_singleton_self b))
    obtain ⟨-, hdequeued, -⟩ := EbusComponent.commands_process (c := c) hQ b
    obtain ⟨-, hdequeued', -⟩ := @commands_process_legacy Q F z hQ b
    obtain ⟨hstep, hout⟩ := outputs_byte hQ hP hM h b
    rw [hstep, hout, List.flatMap_singleton, hdequeued, hdequeued', hcalled, h.commands]
    split
    · exact List.map_take.symm
    · rfl
  | task t =>
    obtain ⟨-, -, -, -, -, -, hdequeued⟩ := (c.turn_taskStep P t).frame
    rw [flatMap_legacySteps (by rw [(task_frame z t).2.1]; rfl)]
    exact hdequeued

/-- The telegrams handled, and what is published for them. -/
theorem Refines.handled_step (hdivide : P.divide = M.divide) (h : Refines config c z)
    (a : ComponentStep) :
    (c.step P a).2.handled = (outputs (step M) z (legacySteps c a)).flatMap
        (fun o => o.handled.map Telegram.port) ∧
      numbers (c.step P a).2.published = (outputs (step M) z (legacySteps c a)).flatMap
        fun o => addressed o.published := by
  cases a with
  | byte b =>
    obtain ⟨hstep, hout⟩ := outputs_byte hQ hP hM h b
    rw [hstep, hout]
    exact ⟨rfl, rfl⟩
  | task t =>
    by_cases ht : t = .message
    · subst ht
      obtain ⟨-, hhandled, hpublished⟩ := h.message hQ hdivide
      exact ⟨hhandled.trans (List.append_nil _).symm, hpublished.trans (List.append_nil _).symm⟩
    · obtain ⟨-, -, hidle⟩ := task_frame (M := M) z t
      obtain ⟨hhandled, hpublished⟩ := handled_task (P := P) c ht
      rw [flatMap_legacySteps (by rw [(hidle ht).1]; rfl),
        flatMap_legacySteps (by rw [(hidle ht).2]; rfl)]
      exact ⟨hhandled, congrArg numbers hpublished⟩

end Outputs

/-- A request that the component is asked to answer is for an identification. -/
def AsksIdentification (P : EsphomeEbus.Platform Q F) (c : EbusComponent Q F) (a : ComponentStep) :
    Prop :=
  let t := (c.step P a).1.ebus.receivingTelegram
  t.state = .waitForRequestAck →
    t.getZz = EsphomeEbus.Elf.toSecondary c.ebus.config.primaryAddress →
    t.isRequestValid = true → t.getCommand = cmdIdentification

instance (a : ComponentStep) : Decidable (AsksIdentification P c a) :=
  inferInstanceAs (Decidable (_ → _ → _ → _))

/-- The bytes sent. -/
theorem Refines.sent_step (hQ : Q.Lawful) (hP : P.memory.Spares) (hM : M.memory.Spares)
    (h : Refines config c z) {a : ComponentStep} (ha : NoEsc a)
    (hid : fixedIdentificationResponse config.identification = identification)
    (hasks : AsksIdentification P c a) :
    (c.step P a).2.sent =
      (outputs (step M) z (legacySteps c a)).flatMap ZebusOutput.sent := by
  cases a with
  | byte b =>
    obtain ⟨hstate, -, -, hsent⟩ := h.driver hQ (ha b (List.mem_singleton_self b))
    obtain ⟨hstep, hout⟩ := outputs_byte hQ hP hM h b
    rw [AsksIdentification, hstep] at hasks
    rw [hstep, hout]
    refine (hsent (handleResponse_alike hstate.plain ?_)).trans (List.append_nil _).symm
    intro hs hzz hvalid
    have hasked : (z.ebus.processReceivedChar (z.call b)).1.receivingTelegram.port.getCommand =
        cmdIdentification := by
      have hport := hstate.receivingTelegram
      rw [← hport]
      refine hasks ?_ ?_ ?_
      · exact (congrArg (fun t => t.state) hport).trans hs
      · exact (congrArg (fun t => t.getZz) hport).trans hzz
      · exact (congrArg (fun t => t.isRequestValid) hport).trans
          (hstate.plain.isRequestValid.symm.trans hvalid)
    have hitems : c.items = channels.map Channel.item :=
      congrArg ComponentSettings.items h.kept.sameSettings
    have hreply : ∀ t, c.sendResponseHandler t = identification := by
      intro t
      rw [sendResponseHandler, hitems]
      rfl
    have hid' : fixedIdentificationResponse z.identification = identification := by
      rw [congrArg ZebusConfig.identification h.config, hid]
    rw [getCommand_port] at hasked
    simp only [hreply, identificationHandler, hasked, hid', ne_eq, not_true_eq_false, if_false]
    exact sameReply_writes (by decide)
  | task t =>
    obtain ⟨-, -, -, hsent, -⟩ := (c.turn_taskStep P t).frame
    rw [flatMap_legacySteps (task_frame z t).1]
    exact hsent

/-! ### Whole runs -/

/-- **A component does the work of the application.**  With an item for each sensor, on one kernel
and on platforms that spare both what is written behind their commands and divide alike, every run
of the component on bytes other than ESC is one of the application on the same bytes, whatever the
order of the tasks: it takes the same commands, handles the same telegrams, and publishes what the
application publishes for telegrams to the address of the item.  Given the same identification it
also sends the same bytes, unless it is asked for something else. -/
theorem component_refines (hQ : Q.Lawful) (hP : P.memory.Spares) (hM : M.memory.Spares)
    (hdivide : P.divide = M.divide) (hmaster : config.masterAddress ≠ esc)
    (hc : EbusComponent.setup Q config.settings = some c) (hz : setup Q config = some z)
    {as : List ComponentStep} (has : ∀ a ∈ as, NoEsc a) :
    let as' := unroll (EbusComponent.step P) legacySteps c as
    let os := outputs (EbusComponent.step P) c as
    let os' := outputs (step M) z as'
    as'.flatMap ComponentStep.bytes = as.flatMap ComponentStep.bytes ∧
      os.flatMap ComponentOutput.dequeued =
        (os'.flatMap ZebusOutput.dequeued).map SendCommand.port ∧
      os.flatMap ComponentOutput.handled = (os'.flatMap ZebusOutput.handled).map Telegram.port ∧
      numbers (os.flatMap ComponentOutput.published) =
        addressed (os'.flatMap ZebusOutput.published) ∧
      (fixedIdentificationResponse config.identification = identification →
        Along (EbusComponent.step P) (AsksIdentification P) c as →
        os.flatMap ComponentOutput.sent = os'.flatMap ZebusOutput.sent) := by
  intro as' os os'
  have hsim := @simulates Q F _ P M config hQ hP hM hdivide hmaster
  have hstart : Refines config c z := refines_setup hQ hc hz
  have hplain : Along (EbusComponent.step P) (fun _ a => NoEsc a) c as :=
    along_of_forall _ c as has
  refine ⟨?_, ?_, ?_, ?_, ?_⟩
  · show (unroll (EbusComponent.step P) legacySteps c as).flatMap ComponentStep.bytes = _
    rw [flatMap_unroll]
    simp only [bytes_legacySteps]
    exact unroll_inputs ComponentStep.bytes c as
  · rw [List.map_flatMap]
    exact hsim.outputs_related (fun c z a h ha => h.dequeued_step hQ hP hM ha) hstart hplain
  · rw [List.map_flatMap]
    exact hsim.outputs_related (fun c z a h _ => (h.handled_step hQ hP hM hdivide a).1) hstart
      hplain
  · rw [numbers, List.map_flatMap, addressed, List.filter_flatMap, List.map_flatMap]
    exact hsim.outputs_related (fun c z a h _ => (h.handled_step hQ hP hM hdivide a).2) hstart
      hplain
  · intro hid hasks
    exact Simulates.outputs_related (fun c z a h ha => hsim c z a h ha.1)
      (fun c z a h ha => h.sent_step hQ hP hM ha.1 hid ha.2) hstart (along_and _ hplain hasks)

end Steps

/-- An application whose queues are lists. -/
def bounded (config : ZebusConfig) : Zebus (boundedQueues Byte) where
  toZebusConfig := config
  ebus := .init config.ebusConfig
  telegramHistoryQueue := .empty config.historySize.toNat sizeofTelegram
  telegramCommandQueue := .empty config.commandSize.toNat sizeofTelegram

/-- An application that identifies itself as the component does. -/
def espConfig : ZebusConfig where
  masterAddress := 0x00#8
  maxTries := 2
  maxLockCounter := 4
  historySize := 50
  commandSize := 20
  identification :=
    { deviceName := ⟨[0x45#8, 0x53#8, 0x50#8, 0x48#8, 0x4D#8], by decide⟩
      vendorId := 0xE3#8
      softwareVersion := 0x1234#16
      hardwareVersion := 0x5678#16 }

theorem setup_esp : setup (boundedQueues Byte) espConfig = some (bounded espConfig) := rfl

/-- The platform of the application. -/
def legacyDividing : Platform (boundedQueues Byte) ℕ where
  divide := dividing.divide
  memory := .spacious

/-- The polls of an `update`, and the exchange that the first of them sets off: the request, an ACK,
two bytes, the ACK for them and a SYN.  Then it is handled. -/
def reading : List ComponentStep :=
  [.task .update, .task .poll, .task .poll] ++
    [syn, 0x00#8, 0x08#8, 0xB5#8, 0x09#8, 0x03#8, 0x0D#8, 0x02#8, 0x00#8, 0x03#8, ack, 0x02#8,
      0xE8#8, 0x03#8, 0x91#8, ack, syn, syn].map .byte ++
    [.task .message]

/-- Both send the request and acknowledge the response, and publish the same pressure. -/
theorem reading_refines :
    let c : EbusComponent (boundedQueues Byte) ℕ := EbusComponent.bounded espConfig.settings
    let as' := unroll (EbusComponent.step dividing) legacySteps c reading
    let os := outputs (EbusComponent.step dividing) c reading
    let os' := outputs (step legacyDividing) (bounded espConfig) as'
    os.flatMap ComponentOutput.sent = os'.flatMap ZebusOutput.sent ∧
      os'.flatMap ZebusOutput.sent =
        [0x00#8, 0x08#8, 0xB5#8, 0x09#8, 0x03#8, 0x0D#8, 0x02#8, 0x00#8, 0x03#8, ack, syn] ∧
      addressed (os'.flatMap ZebusOutput.published) = [(Channel.waterPressure.item, 1)] := by
  intro c as' os os'
  have hc : EbusComponent.setup (boundedQueues Byte) espConfig.settings = some c :=
    setup_bounded (by decide) (by decide)
  have hplain : ∀ a ∈ reading, NoEsc a := by decide
  obtain ⟨-, -, -, hpublished, hsent⟩ := component_refines lawful_bounded spares_dividing
    (M := legacyDividing) Memory.spares_spacious rfl (by decide) hc setup_esp hplain
  have hsame := hsent (by decide) (by decide +kernel)
  refine ⟨hsame, ?_, ?_⟩
  · rw [← hsame]
    decide +kernel
  · rw [← hpublished]
    decide +kernel

end EsphomeEbus.Zebus
