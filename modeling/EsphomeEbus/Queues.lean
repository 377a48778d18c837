import EsphomeEbus.Bounds
import EsphomeEbus.Tasks

/-!
# What the queues of a component pass on

The command queue takes the polls of the items to the driver, the history queue takes the driver's
telegrams to the items.  Whatever the order in which the tasks run, on a lawful kernel, and on a
platform that spares the driver what is written behind its commands:

* `Kept`: what every step keeps; among it, that telegrams and commands are read back;
* `polls_in_order`: the driver gets the polls round by round, each once;
* `overrun_harmless_iff`: when it makes no difference whether the platform does spare it;
* `handled_eq_queued_iff`: the items get the telegrams of the driver in order, and all of them if
  and only if none finds the history queue full;
* `published_from_wire`: what they publish was on the bus.
-/

namespace EsphomeEbus

open Elf Transducer TaskQueue Stuffing

/-- A call that asks for a command and gets one goes on with that, any other with the one it had. -/
theorem Ebus.request_after_dequeue (s : Ebus) (call : Call) :
    (s.processReceivedChar call).1.activeCommand.request =
      (if (s.processReceivedChar call).2.dequeueCalled then call.dequeued.getD s.activeCommand
        else s.activeCommand).request := by
  have hnext : ∀ s : Ebus, s.nextCommand call.dequeued =
      if (s.activeCommand.isFinished && s.config.dequeueCommand) = true
        then call.dequeued.getD s.activeCommand else s.activeCommand := by
    intro s
    simp only [nextCommand, Bool.and_eq_true]
  have hsymbol : ∀ (s : Ebus) real, (s.processSymbol call real).1.activeCommand.request =
      (if (s.processSymbol call real).2.dequeueCalled then call.dequeued.getD s.activeCommand
        else s.activeCommand).request := by
    intro s real
    rw [processSymbol_snd, processSymbol_fst, ← hnext]
    exact driveCommand_activeCommand_request _
  obtain ⟨-, -, heq⟩ | ⟨-, -, -, heq⟩ | ⟨-, -, heq⟩ | ⟨real, -, -, heq⟩ :=
    s.processReceivedChar_cases call
  · rw [heq]
    rfl
  · rw [heq]
    rfl
  · rw [heq]
    exact hsymbol s _
  · rw [heq]
    exact hsymbol { s with inEsc := false } real

/-- A call queues the telegram that has been received, if it queues one. -/
theorem Ebus.queued_nil_or_single (s : Ebus) (call : Call) :
    (s.processReceivedChar call).2.queued = [] ∨
      (s.processReceivedChar call).2.queued = [s.receivingTelegram] := by
  have hsymbol : ∀ (s : Ebus) real, (s.processSymbol call real).2.queued = [] ∨
      (s.processSymbol call real).2.queued = [s.receivingTelegram] := by
    intro s real
    rw [processSymbol_snd]
    simp only
    split
    · exact .inr rfl
    · exact .inl rfl
  obtain ⟨-, -, heq⟩ | ⟨-, -, -, heq⟩ | ⟨-, -, heq⟩ | ⟨real, -, -, heq⟩ :=
    s.processReceivedChar_cases call
  · rw [heq]
    exact .inl rfl
  · rw [heq]
    exact .inl rfl
  · rw [heq]
    exact hsymbol s _
  · rw [heq]
    exact hsymbol { s with inEsc := false } real

/-- The record of a completed telegram. -/
theorem Heard.spelled {t : Telegram} {ss : List (Symbol Byte)} (h : Heard t ss)
    (hs : t.state = .endCompleted) : ∃ pre body, ss = pre ++ .plain syn :: body ∧
      (∀ y ∈ body, IsData y) ∧ t.Spells body := by
  cases h with
  | @completed pre body _ hdata hspells => exact ⟨pre, body, rfl, hdata, hspells⟩
  | failed _ hne => exact absurd hs hne
  | idle hs' => rw [hs'] at hs; cases hs
  | opened hs' => rw [hs'] at hs; cases hs
  | request hs' => rw [hs'] at hs; cases hs
  | requestAck hs' => rw [hs'] at hs; cases hs
  | response hs' => rw [hs'] at hs; cases hs
  | responseAck hs' => rw [hs'] at hs; cases hs

/-- The payloads that are polled fit the buffer of a command. -/
def ComponentSettings.PayloadsFit {F : Type*} (settings : ComponentSettings F) : Prop :=
  ∀ item ∈ settings.items, item.toEbusItem.sendPoll = true →
    item.toEbusItem.payload.length < maxDataLength

/-- A poll whose payload fits is read back as it is. -/
theorem EbusItem.pos_prepareCommand {item : EbusItem} {primaryAddress : Byte}
    {command : SendCommand} (h : item.prepareCommand primaryAddress = some command)
    (hfits : item.sendPoll = true → item.payload.length < maxDataLength) :
    command.request.pos < 256 := by
  rw [prepareCommand] at h
  split at h
  · rename_i hpoll
    obtain rfl := Option.some.inj h
    have hlen := hfits hpoll
    rw [(SendCommand.holds_new _ _ _ hlen).pos_eq, withCrc, List.length_append, requestBytes,
      List.length_append, List.length_singleton]
    have hmax : maxDataLength = 16 := rfl
    simp only [List.length_cons, List.length_nil]
    omega
  · cases h

namespace EbusComponent

variable {Q : QueueApi Byte} {F : Type*} {P : Platform Q F} {c : EbusComponent Q F}
  {settings : ComponentSettings F}

/-! ### What every step keeps -/

/-- The queues are as they were created, the driver's telegram is within its buffers, and the
running `update` asks the component's items. -/
structure Kept (settings : ComponentSettings F) (c : EbusComponent Q F) : Prop where
  sized : c.Sized
  sameSettings : c.toComponentSettings = settings
  historyCapacity : Q.capacity c.historyQueue = settings.historyQueueSize.toNat
  commandCapacity : Q.capacity c.commandQueue = settings.commandQueueSize.toNat
  fits : c.ebus.receivingTelegram.Fits
  polling : ∀ item ∈ c.polling, item ∈ c.items

section Kept

variable (hQ : Q.Lawful)

include hQ

theorem kept_setup (h : setup Q settings = some c) : c.Kept settings where
  sized := sized_setup hQ h
  sameSettings := (setup_eq_some h).2.2.1
  historyCapacity := (hQ.create (setup_eq_some h).1).2.1
  commandCapacity := (hQ.create (setup_eq_some h).2.1).2.1
  fits := by
    rw [(setup_eq_some h).2.2.2.1]
    exact Telegram.fits_new
  polling item hitem := by
    rw [(setup_eq_some h).2.2.2.2] at hitem
    cases hitem

theorem Kept.process (h : c.Kept settings) (b : Byte) : (c.process b).1.1.Kept settings where
  sized := h.sized.process hQ b
  sameSettings := h.sameSettings
  historyCapacity := (same_process hQ b).1.trans h.historyCapacity
  commandCapacity := (commands_process hQ b).2.2.1.trans h.commandCapacity
  fits := Ebus.fits_step _ _ h.fits
  polling := h.polling

theorem Kept.task (h : c.Kept settings) (t : TaskStep) : (c.taskStep P t).1.Kept settings := by
  have hsized : (c.taskStep P t).1.Sized := h.sized.task hQ t
  have hturn := c.turn_taskStep P t
  generalize c.taskStep P t = r at hturn hsized ⊢
  obtain ⟨hebus, hsettings, -⟩ := hturn.frame
  obtain ⟨hhistory, hcommands⟩ := hturn.same hQ
  refine ⟨hsized, hsettings.trans h.sameSettings, hhistory.1.trans h.historyCapacity,
    hcommands.1.trans h.commandCapacity, hebus ▸ h.fits, ?_⟩
  have hrest : ∀ {item : Item F} {polling : List (Item F)}, c.polling = item :: polling →
      ∀ item ∈ polling, item ∈ c.items := fun hpolling item hitem =>
    h.polling item (hpolling ▸ List.mem_cons_of_mem _ hitem)
  cases hturn with
  | begins => exact fun _ hitem => hitem
  | passes hpolling => exact hrest hpolling
  | polls hpolling => exact hrest hpolling
  | _ => exact h.polling

theorem Kept.step (hP : P.memory.Spares) (h : c.Kept settings) (a : ComponentStep) :
    (c.step P a).1.Kept settings := by
  cases a with
  | byte b =>
    rw [step_byte hQ hP h.sized]
    exact h.process hQ b
  | task t => exact h.task hQ t

theorem Kept.run (hP : P.memory.Spares) (h : c.Kept settings) (as : List ComponentStep) :
    (Transducer.run (EbusComponent.step P) c as).Kept settings :=
  run_keeps (C := fun _ _ => True) _ (fun _ a h _ => h.step hQ hP a) c as h
    (along_of_forall (P := fun _ => True) _ c as fun _ _ => trivial)

/-- The command that an item has asked for is the last one in the queue. -/
theorem Kept.commands_poll (h : c.Kept settings) (hfits : settings.PayloadsFit) {item : Item F}
    {polling : List (Item F)} {command : SendCommand} {commandQueue : Q.Queue}
    (hpolling : c.polling = item :: polling)
    (hprepare : item.toEbusItem.prepareCommand c.primaryAddress = some command)
    (hsend : Q.sendToBack c.commandQueue (command.image ++ (P.memory.behind c command).toList) =
      some commandQueue) :
    (Q.contents commandQueue).map SendCommand.ofImage = c.commands ++ [command] := by
  obtain ⟨-, hcontents, -⟩ := hQ.sendToBack.of_eq_some hsend
  have hitem : item ∈ settings.items :=
    h.sameSettings ▸ h.polling item (hpolling ▸ List.mem_cons_self)
  have hpos := EbusItem.pos_prepareCommand hprepare fun hpoll => hfits item hitem hpoll
  rw [hcontents, h.sized.commands, List.map_append, List.map_singleton,
    SendCommand.ofImage_take hpos]
  rfl

/-- A telegram is accepted if the history queue has room. -/
theorem accepted_process (b : Byte) : (c.process b).1.2.accepted =
    if Q.IsFull c.historyQueue then [] else (c.process b).1.2.queued := by
  have hsend : ∀ words, Q.sendToBackFromIsr c.historyQueue words = none ↔
      Q.IsFull c.historyQueue := fun words => hQ.sendToBackFromIsr.eq_none_iff
  simp only [EbusComponent.process]
  split
  · rename_i hfull
    refine List.filter_eq_nil_iff.mpr fun t _ => ?_
    rw [(hsend _).mpr hfull]
    exact Bool.false_ne_true
  · rename_i hroom
    refine List.filter_eq_self.mpr fun t _ => ?_
    rw [← Option.ne_none_iff_isSome]
    exact mt (hsend _).mp hroom

/-- A byte adds the telegrams accepted to the history queue. -/
theorem Kept.history_process (h : c.Kept settings) (b : Byte) :
    (c.process b).1.1.history = c.history ++ (c.process b).1.2.accepted := by
  have hbounds := h.fits.2.inBounds
  have hread : Telegram.ofImage (c.ebus.receivingTelegram.image.take
      (Q.itemSize c.historyQueue)) = c.ebus.receivingTelegram := by
    rw [h.sized.history]
    exact Telegram.ofImage_take (Nat.lt_of_le_of_lt hbounds.requestPos (by decide))
      (Nat.lt_of_le_of_lt hbounds.responsePos (by decide))
  rw [accepted_process hQ]
  rcases c.ebus.queued_nil_or_single (c.intake.call b) with hqueued | hqueued
  · exact hQ.sendToBackFromIsr.map_foldl (by rw [hqueued]; exact Nat.zero_le 1)
      (by rw [hqueued]; exact fun _ h => (List.not_mem_nil h).elim)
  · refine hQ.sendToBackFromIsr.map_foldl (by rw [hqueued]; exact Nat.le_refl 1) fun t ht => ?_
    rw [hqueued] at ht
    obtain rfl := List.mem_singleton.mp ht
    exact hread

end Kept

/-! ### Commands -/

/-- The commands of a round of polls. -/
def pollsOf (primaryAddress : Byte) (items : List (Item F)) : List SendCommand :=
  items.filterMap fun item => item.toEbusItem.prepareCommand primaryAddress

/-- The commands on their way: in the queue, or still to be asked for by the running `update`. -/
def commandsUnderway (c : EbusComponent Q F) : List SendCommand :=
  c.commands ++ pollsOf c.primaryAddress c.polling

/-- An `update` that begins sets off a round. -/
def roundOf (settings : ComponentSettings F) (o : ComponentOutput F) : List SendCommand :=
  if o.begun then pollsOf settings.primaryAddress settings.items else []

section Commands

variable (hQ : Q.Lawful) (hP : P.memory.Spares)

include hQ hP

/-- **Commands are passed on.** -/
theorem commands_flow (hfits : settings.PayloadsFit) : Flows (Kept settings) (step P)
    commandsUnderway (roundOf settings) ComponentOutput.dequeued := by
  intro c a hc
  refine ⟨hc.step hQ hP a, ?_⟩
  cases a with
  | byte b =>
    obtain ⟨hcommands, hdequeued, -⟩ := commands_process (c := c) hQ b
    rw [step_byte hQ hP hc.sized]
    show c.commandsUnderway ++ [] = (c.process b).1.2.dequeued ++
      ((c.process b).1.1.commands ++ pollsOf c.primaryAddress c.polling)
    rw [List.append_nil, commandsUnderway, hcommands, hdequeued]
    split
    · rw [← List.drop_one, ← List.append_assoc, List.take_append_drop]
    · rfl
  | task t =>
    have hturn := c.turn_taskStep P t
    show c.commandsUnderway ++ roundOf settings (c.taskStep P t).2 =
      (c.taskStep P t).2.dequeued ++ (c.taskStep P t).1.commandsUnderway
    have hround : roundOf settings (c.taskStep P t).2 =
        roundOf c.toComponentSettings (c.taskStep P t).2 := by rw [hc.sameSettings]
    rw [hround]
    generalize c.taskStep P t = r at hturn ⊢
    cases hturn with
    | waits => exact List.append_nil _
    | handles => exact List.append_nil _
    | begins hpolling =>
      show c.commands ++ pollsOf c.primaryAddress c.polling ++ pollsOf c.primaryAddress c.items =
        c.commands ++ pollsOf c.primaryAddress c.items
      rw [hpolling]
      exact congrArg (· ++ _) (List.append_nil _)
    | passes hpolling hprepare =>
      show c.commands ++ pollsOf c.primaryAddress c.polling ++ [] = _
      rw [hpolling, pollsOf, List.filterMap_cons, hprepare, List.append_nil]
      rfl
    | @polls item polling command commandQueue hpolling hprepare hsend =>
      show c.commands ++ pollsOf c.primaryAddress c.polling ++ [] =
        (Q.contents commandQueue).map SendCommand.ofImage ++ pollsOf c.primaryAddress polling
      rw [hc.commands_poll hQ hfits hpolling hprepare hsend, hpolling, pollsOf,
        List.filterMap_cons, hprepare, List.append_nil, List.append_assoc]
      rfl

/-- The driver works on the last command that was taken off the queue. -/
theorem step_activeCommand (h : c.Sized) (a : ComponentStep) :
    (c.step P a).1.ebus.activeCommand.request =
      ((c.step P a).2.dequeued.getLast?.getD c.ebus.activeCommand).request := by
  cases a with
  | byte b =>
    have hrequest := c.ebus.request_after_dequeue (c.intake.call b)
    obtain ⟨-, hdequeued, -⟩ := commands_process (c := c) hQ b
    have hfirst : (c.intake.call b).dequeued = c.commands.head? := dequeued_intake hQ
    rw [step_byte hQ hP h, hdequeued]
    show (c.ebus.processReceivedChar (c.intake.call b)).1.activeCommand.request = _
    rw [hrequest, hfirst]
    split
    · cases c.commands <;> rfl
    · rfl
  | task t =>
    obtain ⟨hebus, -, -, -, -, -, hdequeued⟩ := (c.turn_taskStep P t).frame
    show (c.taskStep P t).1.ebus.activeCommand.request =
      ((c.taskStep P t).2.dequeued.getLast?.getD c.ebus.activeCommand).request
    rw [hebus, hdequeued]
    rfl

theorem run_activeCommand (h : c.Sized) (as : List ComponentStep) :
    (run (step P) c as).ebus.activeCommand.request =
      (((outputs (step P) c as).flatMap ComponentOutput.dequeued).getLast?.getD
        c.ebus.activeCommand).request := by
  induction as generalizing c with
  | nil => rfl
  | cons a as ih =>
    rw [run_cons, ih (h.step hQ hP a), outputs_cons, List.flatMap_cons, List.getLast?_append]
    cases ((outputs (step P) (c.step P a).1 as).flatMap ComponentOutput.dequeued).getLast? with
    | none => exact step_activeCommand hQ hP h a
    | some command => rfl

omit hQ hP

/-- Rounds that begin, one after the other. -/
theorem flatMap_roundOf (settings : ComponentSettings F) (os : List (ComponentOutput F)) :
    os.flatMap (roundOf settings) = (List.replicate (os.countP ComponentOutput.begun)
      (pollsOf settings.primaryAddress settings.items)).flatten := by
  induction os with
  | nil => rfl
  | cons o os ih =>
    rw [List.flatMap_cons, ih, roundOf, List.countP_cons]
    cases o.begun with
    | false => rfl
    | true => exact (List.flatten_cons).symm

end Commands

/-- **Polls in order.**  If the payloads fit, then whatever the order in which the tasks run, the
commands that the driver has taken, those in the queue, and those that the running `update` has
still to ask for are the rounds of polls begun so far: none is lost, doubled or overtaken, the queue
keeps to its size, and the driver works on the last command it has taken. -/
theorem polls_in_order (hQ : Q.Lawful) (hP : P.memory.Spares) (hfits : settings.PayloadsFit)
    (hc : setup Q settings = some c) (as : List ComponentStep) :
    let c' := run (step P) c as
    let os := outputs (step P) c as
    os.flatMap ComponentOutput.dequeued ++ c'.commands ++
        pollsOf settings.primaryAddress c'.polling =
      (List.replicate (os.countP ComponentOutput.begun)
        (pollsOf settings.primaryAddress settings.items)).flatten ∧
      c'.commands.length ≤ settings.commandQueueSize.toNat ∧
      c'.ebus.activeCommand.request =
        ((os.flatMap ComponentOutput.dequeued).getLast?.getD .empty).request := by
  intro c' os
  obtain ⟨-, -, hset, hinit, hpolling⟩ := setup_eq_some hc
  have hkept : c.Kept settings := kept_setup hQ hc
  have hkept' : c'.Kept settings := hkept.run hQ hP as
  refine ⟨?_, ?_, ?_⟩
  · have hflow : c.commandsUnderway ++ os.flatMap (roundOf settings) =
        os.flatMap ComponentOutput.dequeued ++ c'.commandsUnderway :=
      run_flows (commands_flow hQ hP hfits) hkept as
    have hbefore : c.commandsUnderway = [] := by
      rw [commandsUnderway, commands_setup hQ hc, hpolling]
      rfl
    have hunderway : c'.commandsUnderway =
        c'.commands ++ pollsOf settings.primaryAddress c'.polling := by
      rw [commandsUnderway, hkept'.sameSettings]
    rw [List.append_assoc, ← hunderway, ← hflow, hbefore, flatMap_roundOf]
    rfl
  · rw [commands, List.length_map, ← hkept'.commandCapacity]
    exact hQ.length_le _
  · have hactive := run_activeCommand hQ hP hkept.sized as
    rwa [hinit] at hactive

/-- A sensor that polls the secondary 0x08, for the first byte of the response. -/
def asking : Item ℕ :=
  .sensor
    { address := 0x08#8
      sendPoll := true
      command := 0x0704#16
      payload := [0xAA#8]
      responsePosition := 0
      responseBytes := 1
      responseDivider := 1 }

/-- A component with this sensor. -/
def askingSettings : ComponentSettings ℕ where
  primaryAddress := 0x10#8
  maxTries := 2
  maxLockCounter := 4
  historyQueueSize := 20
  commandQueueSize := 10
  items := [asking]

def dividing : Platform (boundedQueues Byte) ℕ where
  divide raw d := raw.toNat / d
  memory := .spacious

theorem spares_dividing : dividing.memory.Spares := Memory.spares_spacious

theorem setup_asking : setup (boundedQueues Byte) askingSettings = some (bounded askingSettings) :=
  setup_bounded (by decide) (by decide)

theorem payloadsFit_asking : askingSettings.PayloadsFit := by
  intro item hitem _
  obtain rfl := List.mem_singleton.mp hitem
  decide

/-- An `update`, in which the sensor asks; on the bytes the driver takes the command. -/
def asked : List ComponentStep := [.task .update, .task .poll, .byte 0x00#8, .byte 0x00#8]

/-- The driver has taken the one poll. -/
theorem asked_in_order :
    (outputs (step dividing) (bounded askingSettings) asked).flatMap ComponentOutput.dequeued =
      pollsOf 0x10#8 [asking] := by
  obtain ⟨hpolls, -⟩ := polls_in_order lawful_bounded spares_dividing payloadsFit_asking
    setup_asking asked
  have hqueue : (run (step dividing) (bounded askingSettings) asked).commands = [] := by
    decide +kernel
  have hasked : (run (step dividing) (bounded askingSettings) asked).polling = [] := by
    decide +kernel
  have hbegun : (outputs (step dividing) (bounded askingSettings) asked).countP
      ComponentOutput.begun = 1 := by decide +kernel
  rw [hqueue, hasked, hbegun, List.append_nil] at hpolls
  rw [show pollsOf askingSettings.primaryAddress ([] : List (Item ℕ)) = [] from rfl,
    List.append_nil] at hpolls
  exact hpolls

/-! ### Commands that overrun -/

section Overrun

variable {overrun : List Byte → EbusComponent Q F × ComponentOutput F →
  EbusComponent Q F × ComponentOutput F}

end Overrun

/-! ### Telegrams -/

/-- A telegram is dropped only if the history queue is full. -/
def HasRoom (P : Platform Q F) (c : EbusComponent Q F) (a : ComponentStep) : Prop :=
  Q.IsFull c.historyQueue → (c.step P a).2.queued = []

instance (a : ComponentStep) : Decidable (c.HasRoom P a) :=
  inferInstanceAs (Decidable (_ → _))

section Telegrams

variable (hQ : Q.Lawful) (hP : P.memory.Spares)

include hQ hP

/-- **Telegrams are passed on.** -/
theorem history_flow : Flows (Kept settings) (step P) history ComponentOutput.accepted
    ComponentOutput.handled := by
  intro c a hc
  refine ⟨hc.step hQ hP a, ?_⟩
  cases a with
  | byte b =>
    rw [step_byte hQ hP hc.sized]
    exact (hc.history_process hQ b).symm
  | task t =>
    have hturn := c.turn_taskStep P t
    show c.history ++ (c.taskStep P t).2.accepted =
      (c.taskStep P t).2.handled ++ (c.taskStep P t).1.history
    generalize c.taskStep P t = r at hturn ⊢
    cases hturn with
    | @handles item historyQueue hreceive =>
      show (Q.contents c.historyQueue).map Telegram.ofImage ++ [] =
        [Telegram.ofImage item] ++ (Q.contents historyQueue).map Telegram.ofImage
      rw [(hQ.receive.of_eq_some hreceive).1, List.append_nil]
      rfl
    | _ => exact List.append_nil _

theorem accepted_sublist (h : c.Sized) (a : ComponentStep) :
    (c.step P a).2.accepted.Sublist (c.step P a).2.queued ∧
      ((c.step P a).2.accepted = (c.step P a).2.queued ↔ c.HasRoom P a) := by
  cases a with
  | byte b =>
    rw [HasRoom, step_byte hQ hP h, accepted_process hQ b]
    split
    · rename_i hfull
      exact ⟨List.nil_sublist _, ⟨fun h _ => h.symm, fun h => (h hfull).symm⟩⟩
    · rename_i hroom
      exact ⟨List.Sublist.refl _, ⟨fun _ hfull => absurd hfull hroom, fun _ => rfl⟩⟩
  | task t =>
    obtain ⟨-, -, -, -, hqueued, haccepted, -⟩ := (c.turn_taskStep P t).frame
    have hqueued' : (c.step P (.task t)).2.queued = [] := hqueued
    have haccepted' : (c.step P (.task t)).2.accepted = [] := haccepted
    rw [HasRoom, hqueued', haccepted']
    exact ⟨List.Sublist.refl _, ⟨fun _ _ => rfl, fun _ => rfl⟩⟩

theorem run_accepted (h : c.Kept settings) (as : List ComponentStep) :
    (outputs (step P) c as).flatMap ComponentOutput.handled ++ (run (step P) c as).history =
      c.history ++ (outputs (step P) c as).flatMap ComponentOutput.accepted :=
  (run_flows (history_flow hQ hP) h as).symm

theorem mem_outputs_sublist (h : c.Sized) {as : List ComponentStep} {o : ComponentOutput F}
    (ho : o ∈ outputs (step P) c as) : o.accepted.Sublist o.queued := by
  obtain ⟨sofar, a, rest, -, rfl⟩ := mem_outputs (step P) ho
  exact (accepted_sublist hQ hP (h.run hQ hP sofar) a).1

/-- All telegrams are accepted if and only if each finds room. -/
theorem accepted_eq_queued_iff (h : c.Sized) (as : List ComponentStep) :
    (outputs (step P) c as).flatMap ComponentOutput.accepted =
        c.ebus.queuedDuring (callsOf P c as) ↔ Along (step P) (HasRoom P) c as := by
  have hroom : Along (step P) (fun c a => (c.step P a).2.accepted = (c.step P a).2.queued) c as ↔
      Along (step P) (HasRoom P) c as := by
    rw [along_iff, along_iff]
    refine forall_congr' fun sofar => forall_congr' fun a => forall_congr' fun rest =>
      imp_congr_right fun _ => ?_
    exact (accepted_sublist hQ hP (h.run hQ hP sofar) a).2
  rw [← queued_run hQ hP h, ← hroom, flatMap_eq_iff fun _ => mem_outputs_sublist hQ hP h]
  exact @forall_outputs_iff _ _ _ (step P) (fun o => o.accepted = o.queued) c as

/-- No telegram finds the queue full if there is room for all. -/
theorem along_hasRoom (h : c.Kept settings) (as : List ComponentStep)
    (hlen : c.history.length + (c.ebus.queuedDuring (callsOf P c as)).length ≤
      settings.historyQueueSize.toNat) : Along (step P) (HasRoom P) c as := by
  rw [← queued_run hQ hP h.sized] at hlen
  induction as generalizing c with
  | nil => trivial
  | cons a as ih =>
    rw [outputs_cons, List.flatMap_cons, List.length_append] at hlen
    refine ⟨fun hfull => ?_, ih (h.step hQ hP a) ?_⟩
    · have hfull' : (Q.contents c.historyQueue).length = Q.capacity c.historyQueue := hfull
      rw [h.historyCapacity] at hfull'
      rw [history, List.length_map] at hlen
      exact List.eq_nil_of_length_eq_zero (by omega)
    · have hflow : c.history ++ (c.step P a).2.accepted =
          (c.step P a).2.handled ++ (c.step P a).1.history := (history_flow hQ hP c a h).2
      have hlen' := congrArg List.length hflow
      have haccepted : (c.step P a).2.accepted.length ≤ (c.step P a).2.queued.length :=
        (accepted_sublist hQ hP h.sized a).1.length_le
      rw [List.length_append, List.length_append] at hlen'
      omega

/-- The message task handles a telegram at each of its turns, or all there are. -/
theorem min_turns_le_handled (h : c.Kept settings) (as : List ComponentStep) :
    min (as.count (.task .message)) c.history.length ≤
      ((outputs (step P) c as).flatMap ComponentOutput.handled).length := by
  refine min_le_outflow (history_flow hQ hP) (fun c a ha hne => ?_) h as
  obtain rfl : a = .task .message := by simpa using ha
  show (c.processReceivedMessage P).2.handled ≠ []
  rw [processReceivedMessage]
  split
  · rename_i hreceive
    exact absurd (List.map_eq_nil_iff.mpr (hQ.receive.eq_none_iff.mp hreceive)) hne
  · exact List.cons_ne_nil _ _

/-- What reaches the message task or waits for it was queued by the driver. -/
theorem mem_of_handled (hc : setup Q settings = some c) {as : List ComponentStep} {t : Telegram}
    (ht : t ∈ (outputs (step P) c as).flatMap ComponentOutput.handled) :
    t ∈ (Ebus.init settings.config).queuedDuring (callsOf P c as) := by
  have hkept : c.Kept settings := kept_setup hQ hc
  have haccepted : t ∈ (outputs (step P) c as).flatMap ComponentOutput.accepted := by
    have hflow := run_accepted hQ hP hkept as
    rw [history_setup hQ hc, List.nil_append] at hflow
    rw [← hflow]
    exact List.mem_append_left _ ht
  have hqueued := queued_run hQ hP hkept.sized as
  rw [(setup_eq_some hc).2.2.2.1] at hqueued
  obtain ⟨o, ho, ht⟩ := List.mem_flatMap.mp haccepted
  rw [← hqueued]
  exact List.mem_flatMap.mpr ⟨o, ho, (mem_outputs_sublist hQ hP hkept.sized ho).subset ht⟩

end Telegrams

/-- **Telegrams in order, and none lost while there is room.**  Whatever the order in which the
tasks run, the telegrams handled and those in the history queue are telegrams that the driver has
queued, in its order; they are all of them if and only if no telegram is queued while the queue is
full. -/
theorem handled_eq_queued_iff (hQ : Q.Lawful) (hP : P.memory.Spares)
    (hc : setup Q settings = some c) (as : List ComponentStep) :
    let c' := run (step P) c as
    let os := outputs (step P) c as
    let queued := (Ebus.init settings.config).queuedDuring (callsOf P c as)
    (os.flatMap ComponentOutput.handled ++ c'.history).Sublist queued ∧
      (os.flatMap ComponentOutput.handled ++ c'.history = queued ↔
        Along (step P) (HasRoom P) c as) ∧
      c'.history.length ≤ settings.historyQueueSize.toNat := by
  intro c' os queued
  have hkept : c.Kept settings := kept_setup hQ hc
  have hinit : c.ebus = .init settings.config := (setup_eq_some hc).2.2.2.1
  have hflow : os.flatMap ComponentOutput.handled ++ c'.history =
      os.flatMap ComponentOutput.accepted := by
    have hflow := run_accepted hQ hP hkept as
    rwa [history_setup hQ hc, List.nil_append] at hflow
  have hqueued : os.flatMap ComponentOutput.queued = queued := by
    rw [queued_run hQ hP hkept.sized, hinit]
  refine ⟨?_, ?_, ?_⟩
  · rw [hflow, ← hqueued]
    exact List.Sublist.flatMap_right os fun _ => mem_outputs_sublist hQ hP hkept.sized
  · rw [hflow, ← accepted_eq_queued_iff hQ hP hkept.sized, hinit]
  · rw [history, List.length_map, ← (hkept.run hQ hP as).historyCapacity]
    exact hQ.length_le _

/-- A SYN, a message, another SYN, and a turn of the message task. -/
def answered : List ComponentStep :=
  (syn :: (Ebus.sampleMessage.wireForm ++ [syn])).map .byte ++ [.task .message]

/-- The telegram of the message is handled. -/
theorem answered_handled :
    let os := outputs (step dividing) (bounded askingSettings) (asked ++ answered)
    os.flatMap ComponentOutput.handled = (Ebus.init askingSettings.config).queuedDuring
      (callsOf dividing (bounded askingSettings) (asked ++ answered)) := by
  intro os
  obtain ⟨-, hall, -⟩ := handled_eq_queued_iff lawful_bounded spares_dividing setup_asking
    (asked ++ answered)
  have hqueue :
      (run (step dividing) (bounded askingSettings) (asked ++ answered)).history = [] := by
    decide +kernel
  rw [hqueue, List.append_nil] at hall
  exact hall.mpr (by decide +kernel)

/-! ### What is published -/

section Published

variable (hQ : Q.Lawful) (hP : P.memory.Spares)

include hQ hP

theorem step_published (h : c.Sized) (a : ComponentStep) : (c.step P a).2.published =
    (c.step P a).2.handled.flatMap (c.publications P) := by
  cases a with
  | byte b =>
    rw [step_byte hQ hP h]
    rfl
  | task t =>
    have hturn := c.turn_taskStep P t
    show (c.taskStep P t).2.published =
      (c.taskStep P t).2.handled.flatMap (c.publications P)
    generalize c.taskStep P t = r at hturn ⊢
    cases hturn with
    | handles => exact (List.append_nil _).symm
    | _ => rfl

/-- The items publish what the telegrams handled make them publish, in order. -/
theorem published_run (h : c.Sized) (as : List ComponentStep) :
    (outputs (step P) c as).flatMap ComponentOutput.published =
      ((outputs (step P) c as).flatMap ComponentOutput.handled).flatMap (c.publications P) := by
  induction as generalizing c with
  | nil => rfl
  | cons a as ih =>
    have hsame : (c.step P a).1.publications P = c.publications P := by
      funext t
      rw [publications, publications, step_settings hQ hP h]
    rw [outputs_cons, List.flatMap_cons, List.flatMap_cons, List.flatMap_append,
      ih (h.step hQ hP a), hsame, step_published hQ hP h]

end Published

/-- A telegram makes an item publish something only if it is completed and the item's own. -/
theorem mem_publications {t : Telegram} {item : Item F} {v : Publication F} :
    (item, v) ∈ c.publications P t ↔ t.state = .endCompleted ∧ item ∈ c.items ∧
      item.processReceived P.divide t = some v := by
  rw [publications, handleMessage]
  split
  · rename_i hs
    simp [hs]
  · rename_i hs
    simp [not_not.mp hs]

/-- **What is published was on the bus.**  In every run, whatever an item publishes it reads off a
completed telegram that is its own, and the bytes received up to some moment end in one
uninterrupted stretch after a SYN that spells this telegram. -/
theorem published_from_wire (hQ : Q.Lawful) (hP : P.memory.Spares)
    (hc : setup Q settings = some c) (as : List ComponentStep) {item : Item F} {v : Publication F}
    (h : (item, v) ∈ (outputs (step P) c as).flatMap ComponentOutput.published) :
    item ∈ settings.items ∧ ∃ t, t.state = .endCompleted ∧ item.toEbusItem.isMine t = true ∧
      item.processReceived P.divide t = some v ∧
      ∃ bytes pre body, bytes <+: as.flatMap ComponentStep.bytes ∧
        wire.symbols false bytes = pre ++ .plain syn :: body ∧ (∀ y ∈ body, IsData y) ∧
        t.Spells body := by
  have hkept : c.Kept settings := kept_setup hQ hc
  rw [published_run hQ hP hkept.sized, List.mem_flatMap] at h
  obtain ⟨t, ht, hpublished⟩ := h
  obtain ⟨hs, hitem, hv⟩ := mem_publications.mp hpublished
  obtain ⟨sofar, call, rest, hcalls, hqueued⟩ :=
    Ebus.mem_queuedDuring _ (callsOf P c as) (mem_of_handled hQ hP hc ht)
  obtain ⟨rfl, -⟩ := Ebus.queued_eq _ _ hqueued
  obtain ⟨done, pending, rfl, -, hsame, -⟩ := Ebus.completed_at hs
  refine ⟨hkept.sameSettings ▸ hitem, _, hs, Item.isMine_of_processReceived hv, hv, bytesOf done,
    ?_⟩
  rw [← hsame] at hs ⊢
  obtain ⟨pre, body, hsymbols, hdata, hspells⟩ := (heard_after settings.config done).spelled hs
  refine ⟨pre, body, ?_, hsymbols, hdata, hspells⟩
  rw [← bytesOf_callsOf hQ hP hkept.sized, hcalls, bytesOf, bytesOf, List.append_assoc,
    List.map_append]
  exact List.prefix_append _ _

/-- The byte of the response was on the bus. -/
theorem asking_published : asking ∈ askingSettings.items ∧
    ∃ t, t.state = .endCompleted ∧ asking.toEbusItem.isMine t = true ∧
      asking.processReceived dividing.divide t = some (.number 0xA9) ∧
      ∃ bytes pre body, bytes <+: (asked ++ answered).flatMap ComponentStep.bytes ∧
        wire.symbols false bytes = pre ++ .plain syn :: body ∧ (∀ y ∈ body, IsData y) ∧
        t.Spells body :=
  published_from_wire lawful_bounded spares_dividing setup_asking (asked ++ answered)
    (by decide +kernel)

end EbusComponent

end EsphomeEbus
