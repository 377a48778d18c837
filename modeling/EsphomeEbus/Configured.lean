import EsphomeEbus.Queues

/-!
# Configured components

What a configuration is to promise, carried through the tasks of a component.

* `Configured`: a primary address, and of the items that poll an address that can be asked and a
  payload that fits;
* `Sound`: what every step of a component keeps; `Sound.run`: every run;
* `handsOver_callsOf`: what the driver therefore finds in its command queue.
-/

namespace EsphomeEbus

open Elf Transducer

variable {Q : QueueApi Byte} {F : Type*}

/-- An item that asks a secondary, or all, for something that fits a telegram. -/
structure EbusItem.Configured (item : EbusItem) : Prop where
  address : item.address ≠ syn ∧ item.address ≠ esc ∧ isPrimary item.address = false
  payload : item.payload.length < maxDataLength

/-- A component with a primary address, whose polling items are configured. -/
structure ComponentSettings.Configured (settings : ComponentSettings F) : Prop where
  primary : isPrimary settings.primaryAddress = true
  polls : ∀ item ∈ settings.items, item.toEbusItem.sendPoll = true → item.toEbusItem.Configured

theorem ComponentSettings.Configured.payloadsFit {settings : ComponentSettings F}
    (h : settings.Configured) : settings.PayloadsFit :=
  fun item hitem hpoll => (h.polls item hitem hpoll).payload

/-- What an item that polls asks for is a command of the component, to a secondary or to all. -/
theorem EbusItem.Configured.ours {item : EbusItem} (h : item.Configured) {primaryAddress : Byte}
    {command : SendCommand} (hc : item.prepareCommand primaryAddress = some command) :
    command.state = .waitForSend ∧ Ours primaryAddress command.toTelegramBase := by
  obtain ⟨h₁, h₂, h₃⟩ := h.address
  rw [EbusItem.prepareCommand] at hc
  split at hc
  · obtain rfl := Option.some.inj hc
    rw [← SendCommand.getZz_new primaryAddress item.address item.command h.payload] at h₁ h₂ h₃
    exact ⟨SendCommand.new_state _ _ _ _, SendCommand.getQq_new _ _ _ h.payload, h₁, h₂, h₃⟩
  · cases hc

/-! ### What a component keeps -/

namespace EbusComponent

variable {P : Platform Q F} {c : EbusComponent Q F} {settings : ComponentSettings F}

/-- The component is as it was set up, and its command queue holds commands of its own that wait to
be sent. -/
structure Sound (settings : ComponentSettings F) (c : EbusComponent Q F) : Prop
    extends c.Kept settings where
  config : c.ebus.config = settings.config
  commands : ∀ command ∈ c.commands,
    command.state = .waitForSend ∧ Ours settings.primaryAddress command.toTelegramBase

theorem Sound.primaryAddress (h : c.Sound settings) :
    c.primaryAddress = settings.primaryAddress := by
  rw [h.sameSettings]

theorem sound_setup (hQ : Q.Lawful) (hc : setup Q settings = some c) : c.Sound settings where
  toKept := kept_setup hQ hc
  config := by
    rw [(setup_eq_some hc).2.2.2.1]
    rfl
  commands command hcommand := by
    rw [commands_setup hQ hc] at hcommand
    cases hcommand

/-- A component with items replies with the identification, whatever it is asked. -/
theorem sendResponseHandler_eq (h : c.items ≠ []) (t : Telegram) :
    c.sendResponseHandler t = identification := by
  obtain ⟨item, items, hitems⟩ := List.exists_cons_of_ne_nil h
  rw [sendResponseHandler, hitems]
  rfl

theorem length_sendResponseHandler (t : Telegram) :
    (c.sendResponseHandler t).length < maxDataLength := by
  by_cases h : c.items = []
  · rw [sendResponseHandler, h]
    show 0 < maxDataLength
    decide
  · rw [sendResponseHandler_eq h t]
    decide

theorem Sound.wellFormed (hQ : Q.Lawful) (h : c.Sound settings) :
    c.intake.WellFormed settings.primaryAddress where
  dequeued command hc := by
    rw [dequeued_intake hQ] at hc
    exact h.commands command (List.mem_of_head? hc)
  replies handler hh t := by
    obtain rfl := List.mem_singleton.mp hh
    exact c.length_sendResponseHandler t

section Steps

variable (hQ : Q.Lawful)

include hQ

theorem Sound.process (h : c.Sound settings) (b : Byte) : (c.process b).1.1.Sound settings where
  toKept := h.toKept.process hQ b
  config := (Ebus.processReceivedChar_config _ _).trans h.config
  commands command hc := by
    refine h.commands command ?_
    rw [(commands_process hQ b).1] at hc
    split at hc
    · exact List.mem_of_mem_tail hc
    · exact hc

variable (hconf : settings.Configured)

include hconf

theorem Sound.task (h : c.Sound settings) (t : TaskStep) :
    (c.taskStep P t).1.Sound settings := by
  have hkept : (c.taskStep P t).1.Kept settings := h.toKept.task hQ t
  have hturn := c.turn_taskStep P t
  generalize c.taskStep P t = r at hturn hkept ⊢
  refine ⟨hkept, hturn.frame.1 ▸ h.config, ?_⟩
  cases hturn with
  | @polls item polling command commandQueue hpolling hprepare hsend =>
    have hitem : item ∈ settings.items :=
      h.sameSettings ▸ h.polling item (hpolling ▸ List.mem_cons_self)
    have hpolls : item.toEbusItem.sendPoll = true := by
      by_contra hn
      rw [EbusItem.prepareCommand, if_neg hn] at hprepare
      cases hprepare
    intro d hd
    have hd' : d ∈ c.commands ++ [command] :=
      h.toKept.commands_poll hQ hconf.payloadsFit hpolling hprepare hsend ▸ hd
    rcases List.mem_append.mp hd' with hd' | hd'
    · exact h.commands d hd'
    · obtain rfl := List.mem_singleton.mp hd'
      exact (hconf.polls item hitem hpolls).ours (h.primaryAddress ▸ hprepare)
  | _ => exact h.commands

theorem Sound.tasks (h : c.Sound settings) (ts : List TaskStep) :
    (Transducer.run (taskStep P) c ts).Sound settings := by
  induction ts generalizing c with
  | nil => exact h
  | cons t ts ih => exact ih (h.task hQ hconf t)

variable (hP : P.memory.Spares)

include hP

theorem Sound.step (h : c.Sound settings) (a : ComponentStep) :
    (c.step P a).1.Sound settings := by
  cases a with
  | byte b =>
    rw [step_byte hQ hP h.sized]
    exact h.process hQ b
  | task t => exact h.task hQ hconf t

theorem Sound.run (h : c.Sound settings) (as : List ComponentStep) :
    (Transducer.run (EbusComponent.step P) c as).Sound settings := by
  induction as generalizing c with
  | nil => exact h
  | cons a as ih => exact ih (h.step hQ hconf hP a)

/-- The driver is handed commands of the component that wait to be sent. -/
theorem Sound.handsOver_callsOf (h : c.Sound settings) (as : List ComponentStep) {call : Call}
    (hc : call ∈ callsOf P c as) : Ebus.HandsOver call := by
  induction as generalizing c with
  | nil => cases hc
  | cons a as ih =>
    cases a with
    | byte b =>
      rw [callsOf_byte hQ hP h.sized] at hc
      rcases List.mem_cons.mp hc with rfl | hc
      · intro command hcommand
        obtain ⟨hstate, hours⟩ := (h.wellFormed hQ).dequeued command hcommand
        refine ⟨hstate, ?_⟩
        rw [hours.qq]
        exact hconf.primary
      · exact ih (h.process hQ b) hc
    | task t =>
      rw [callsOf_task] at hc
      exact ih (h.task hQ hconf t) hc

end Steps

end EbusComponent

end EsphomeEbus
