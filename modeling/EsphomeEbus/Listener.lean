import EsphomeEbus.Network

/-!
# Components without an address

A primary address of SYN stands for none: `update` asks for nothing then, and `dump_config` logs the
address as N/A.  For the driver it is an address all the same, and one that a telegram can have in
an escape pair.  The component never takes a command, so it needs nothing of its platform.

* `Prompts`: the bytes that end a request to SYN, or the response to a request from SYN;
* `Listens`: what every step of a component without an address keeps;
* `listener_sends_iff`: it asks for nothing, and sends only when it is prompted;
* `listeners_harmless`: on a bus of configured components it is never prompted.
-/

namespace EsphomeEbus

open Elf Transducer SharedMedium

namespace Ebus

variable {s : Ebus} {call : Call}

/-- With nothing to send, now or in the queue, the switch over the active command is idle. -/
theorem idle_of_finished (hfinished : s.activeCommand.isFinished = true)
    (hqueue : call.dequeued = none) :
    (s.processReceivedChar call).2.qq = [] ∧ (s.processReceivedChar call).2.request = [] ∧
      (s.processReceivedChar call).1.activeCommand = s.activeCommand := by
  obtain ⟨pending, t, h, -⟩ | ⟨real, hp, -⟩ := s.silent_or_processed call
  · rw [h]
    exact ⟨rfl, rfl, rfl⟩
  · have hnext : (s.beforeDrive call real).activeCommand = s.activeCommand := by
      rcases s.nextCommand_cases call.dequeued with hsame | ⟨-, hmem⟩
      · exact hsame
      · rw [hqueue] at hmem
        cases hmem
    have hstay : s.drivenBy call real = (s.beforeDrive call real).stay :=
      driveCommand_finished _ (hnext ▸ hfinished)
    rw [hp.qq, hp.request, hp.activeCommand, hstay]
    exact ⟨rfl, rfl, hnext⟩

end Ebus

namespace EbusComponent

variable {Q : QueueApi Byte} {F : Type*} {P : Platform Q F} {c : EbusComponent Q F}

/-- The byte ends a request to SYN, or the response to a request from SYN. -/
def Prompts (c : EbusComponent Q F) (b : Byte) : Prop :=
  let t := (c.ebus.processReceivedChar (c.intake.call b)).1.receivingTelegram
  c.ebus.Enters (c.intake.call b) .waitForRequestAck ∧ t.getZz = syn ∨
    c.ebus.Enters (c.intake.call b) .waitForResponseAck ∧ t.getQq = syn

/-- The component has no address, nothing to send, and nobody to ask. -/
structure Listens (c : EbusComponent Q F) : Prop where
  address : c.primaryAddress = syn
  config : c.ebus.config = c.config
  commands : c.commands = []
  finished : c.ebus.activeCommand.isFinished = true
  polling : c.polling = []

section Steps

variable (hQ : Q.Lawful)

include hQ

theorem listens_setup {settings : ComponentSettings F} (h : settings.primaryAddress = syn)
    (hc : setup Q settings = some c) : c.Listens := by
  obtain ⟨-, -, hsettings, hinit, hpolling⟩ := setup_eq_some hc
  refine ⟨hsettings ▸ h, ?_, commands_setup hQ hc, ?_, hpolling⟩
  · rw [hinit, hsettings]
    rfl
  · rw [hinit]
    rfl

theorem Listens.idle (h : c.Listens) (b : Byte) :
    let r := c.ebus.processReceivedChar (c.intake.call b)
    r.2.qq = [] ∧ r.2.request = [] ∧ r.1.activeCommand = c.ebus.activeCommand := by
  refine Ebus.idle_of_finished h.finished ?_
  show c.intake.dequeued = none
  rw [dequeued_intake hQ, h.commands]
  rfl

theorem Listens.process (h : c.Listens) (b : Byte) : (c.process b).1.1.Listens where
  address := h.address
  config := (Ebus.processReceivedChar_config _ _).trans h.config
  commands := by
    rw [(commands_process hQ b).1, h.commands]
    exact ite_self _
  finished := by
    show (c.ebus.processReceivedChar (c.intake.call b)).1.activeCommand.isFinished = true
    rw [(h.idle hQ b).2.2]
    exact h.finished
  polling := h.polling

omit hQ in
/-- The other tasks find nothing to ask for. -/
theorem Listens.task (h : c.Listens) (t : TaskStep) :
    (c.taskStep P t).1.Listens ∧ (c.taskStep P t).2.begun = false := by
  have hturn := c.turn_taskStep P t
  generalize c.taskStep P t = r at hturn ⊢
  cases hturn with
  | waits => exact ⟨h, rfl⟩
  | handles => exact ⟨⟨h.address, h.config, h.commands, h.finished, h.polling⟩, rfl⟩
  | begins _ hne => exact absurd h.address hne
  | passes hpolling =>
    rw [h.polling] at hpolling
    cases hpolling
  | polls hpolling =>
    rw [h.polling] at hpolling
    cases hpolling

omit hQ in
theorem Listens.tasks (h : c.Listens) (ts : List TaskStep) :
    (Transducer.run (taskStep P) c ts).Listens :=
  run_keeps (C := fun _ _ => True) _ (fun _ t h _ => (h.task t).1) c ts h
    (along_of_forall (P := fun _ => True) _ c ts fun _ _ => trivial)

/-- A byte is a call, for there is no command to take. -/
theorem Listens.processReceivedByte (h : c.Listens) (b : Byte) :
    c.processReceivedByte P b = (c.process b).1 := processReceivedByte_of_nil hQ h.commands b

theorem Listens.step (h : c.Listens) (a : ComponentStep) : (c.step P a).1.Listens := by
  cases a with
  | byte b =>
    rw [EbusComponent.step, h.processReceivedByte hQ]
    exact h.process hQ b
  | task t => exact (h.task t).1

theorem Listens.run (h : c.Listens) (as : List ComponentStep) :
    (run (EbusComponent.step P) c as).Listens :=
  run_keeps (C := fun _ _ => True) _ (fun _ a h _ => h.step hQ a) c as h
    (along_of_forall (P := fun _ => True) _ c as fun _ _ => trivial)

theorem Listens.asks_nothing (h : c.Listens) (a : ComponentStep) :
    (c.step P a).2.begun = false ∧ (c.step P a).2.dequeued = [] := by
  cases a with
  | byte b =>
    rw [EbusComponent.step, h.processReceivedByte hQ]
    refine ⟨rfl, ?_⟩
    rw [(commands_process hQ b).2.1, h.commands]
    exact ite_self _
  | task t =>
    obtain ⟨-, -, -, -, -, -, hdequeued⟩ := (c.turn_taskStep P t).frame
    exact ⟨(h.task t).2, hdequeued⟩

/-- **A byte makes it send** exactly if it prompts it. -/
theorem Listens.sent_iff (h : c.Listens) (b : Byte) :
    (c.processReceivedByte P b).2.sent ≠ [] ↔ c.Prompts b := by
  obtain ⟨hqq, hrequest, -⟩ := h.idle hQ b
  have hself : c.ebus.config.primaryAddress = syn := by
    rw [h.config]
    exact h.address
  have hanswer := @Ebus.answer_iff c.ebus (c.intake.call b)
  have hacknowledge := @Ebus.acknowledge_iff c.ebus (c.intake.call b)
  rw [hself, show toSecondary syn = syn by decide] at hanswer
  rw [hself] at hacknowledge
  rw [h.processReceivedByte hQ]
  show (c.ebus.processReceivedChar (c.intake.call b)).2.qq ++
    (c.ebus.processReceivedChar (c.intake.call b)).2.request ++
    (c.ebus.processReceivedChar (c.intake.call b)).2.acknowledge ++
    (c.ebus.processReceivedChar (c.intake.call b)).2.answer ≠ [] ↔ _
  rw [hqq, hrequest, List.nil_append, List.nil_append, Ne, List.append_eq_nil_iff, not_and_or,
    or_comm]
  exact or_congr hanswer hacknowledge

end Steps

/-- **A component without an address asks for nothing**, and in every run, whatever bytes it brings
and in whatever order the tasks take their steps, it sends something if and only if some byte ends a
request to SYN, or the response to a request from SYN. -/
theorem listener_sends_iff {settings : ComponentSettings F} (hQ : Q.Lawful)
    (h : settings.primaryAddress = syn) (hc : setup Q settings = some c)
    (as : List ComponentStep) :
    ((outputs (step P) c as).flatMap ComponentOutput.sent ≠ [] ↔
      ∃ sofar b rest, as = sofar ++ .byte b :: rest ∧ (run (step P) c sofar).Prompts b) ∧
      ∀ o ∈ outputs (step P) c as, o.begun = false ∧ o.dequeued = [] := by
  have hlistens : ∀ sofar, (run (step P) c sofar).Listens := (listens_setup hQ h hc).run hQ
  constructor
  · rw [Ne, List.flatMap_eq_nil_iff, forall_outputs_iff (step P) _ as, along_iff]
    simp only [not_forall]
    constructor
    · rintro ⟨sofar, a, rest, has, hsent⟩
      cases a with
      | byte b => exact ⟨sofar, b, rest, has, ((hlistens sofar).sent_iff hQ b).mp hsent⟩
      | task t =>
        obtain ⟨-, -, -, hnone, -⟩ := ((run (step P) c sofar).turn_taskStep P t).frame
        exact absurd hnone hsent
    · rintro ⟨sofar, b, rest, has, hprompts⟩
      exact ⟨sofar, .byte b, rest, has, ((hlistens sofar).sent_iff hQ b).mpr hprompts⟩
  · rw [forall_outputs_iff (step P) _ as, along_iff]
    intro sofar a _ _
    exact (hlistens sofar).asks_nothing hQ a

/-- A component without an address, with an item. -/
def withoutAddress : ComponentSettings ℕ where
  primaryAddress := syn
  maxTries := 2
  maxLockCounter := 4
  historyQueueSize := 20
  commandQueueSize := 10
  items := [.binarySensor
    { sendPoll := true, command := 0x0704#16, responsePosition := 0, mask := 0x01#8 }]

/-- It identifies itself to a node that asks 0xAA. -/
theorem withoutAddress_prompted : ∃ sofar b rest,
    ([0xAA#8, 0x10#8, 0xA9#8, 0x01#8, 0x07#8, 0x04#8, 0x00#8, 0xCE#8].map ComponentStep.byte) =
        sofar ++ .byte b :: rest ∧
      (run (step dividing) (bounded withoutAddress) sofar).Prompts b :=
  (listener_sends_iff lawful_bounded rfl (setup_bounded (by decide) (by decide)) _).1.mp
    (by decide +kernel)

end EbusComponent

/-! ### Listeners on a bus -/

namespace Network

variable {Q : QueueApi Byte} {F : Type*} {m k : ℕ} {P : Platform Q F}
  {settings : Fin m → ComponentSettings F} {net : Network Q F (m + k)} {x : NetworkSlot (m + k)}
  {r : Bool × Telegram}

/-- The first `m` components are sound, and their bus is regular; the others listen.  All have heard
the same, and SYN is nobody's address. -/
structure Attended (settings : Fin m → ComponentSettings F) (net : Network Q F (m + k))
    (r : Bool × Telegram) : Prop where
  sound : ∀ i, (front net i).state.Sound (settings i)
  regular : (bus (front net)).Regular
  listens : ∀ j, (net (Fin.natAdd m j)).state.Listens
  silent : ∀ j, (net (Fin.natAdd m j)).pending = []
  view : ∀ i, (net i).state.ebus.receiving = r
  unreserved : r.2.Unreserved

section Listeners

variable (hQ : Q.Lawful) (hP : P.memory.Spares) (hconf : ∀ i, (settings i).Configured)

include hQ hP hconf

theorem Attended.step (h : net.Attended settings r) (hidle : x.idle = syn) :
    (net.step P x).1.Attended settings (receiver false r (net.step P x).2).1 := by
  have hfront : Network.step P (front net) x.front =
      (front (net.step P x).1, (net.step P x).2) := slot_front h.silent x
  obtain ⟨-, hsound, hregular⟩ :=
    @step_of_syn _ _ _ P _ x.front _ hQ hP hconf h.sound h.regular hidle
  rw [hfront] at hsound hregular
  have hlistens : ∀ j, (run (EbusComponent.taskStep P) (net (Fin.natAdd m j)).state
      (x.intake (Fin.natAdd m j))).Listens := fun j => (h.listens j).tasks _
  -- a component hears what its driver hears
  have hview : ∀ i, ((net.step P x).1 i).state.ebus.receiving =
      (receiver false r (net.step P x).2).1 := by
    have hreact : ∀ (c : EbusComponent Q F) (b : Byte) (ts : List TaskStep),
        (run (EbusComponent.taskStep P) c ts).processReceivedByte P b =
          ((run (EbusComponent.taskStep P) c ts).process b).1 →
        (c.react P b ts).1.ebus.receiving = (receiver false c.ebus.receiving b).1 := by
      intro c b ts heq
      rw [EbusComponent.react, heq, ← @EbusComponent.run_tasks_ebus _ _ P c ts]
      exact Ebus.react_receiving (x := (run (EbusComponent.taskStep P) c ts).intake)
    intro i
    rw [← h.view i]
    refine hreact _ _ _ ?_
    cases i using Fin.addCases with
    | left i =>
      have htasks := (h.sound i).tasks (P := P) hQ (hconf i) (x.intake (Fin.castAdd k i))
      exact EbusComponent.processReceivedByte_eq hQ hP htasks.sized _
    | right j => exact (hlistens j).processReceivedByte hQ _
  have hunreserved : (receiver false r (net.step P x).2).1.2.Unreserved := by
    have hbyte : (Bus.step (bus (front net)) ⟨x.idle, fun _ => ⟨none, []⟩⟩).2 =
        (net.step P x).2 := congrArg Prod.snd hfront
    rw [← hbyte]
    exact h.regular.unreserved hidle (fun i => h.view _) h.unreserved
  refine ⟨hsound, hregular, fun j => (hlistens j).step hQ (.byte _), fun j => ?_, hview,
    hunreserved⟩
  -- a listener has no address that the telegram could give
  by_contra hsent
  have hprompts := ((hlistens j).sent_iff (P := P) hQ (net.step P x).2).mp (by
    intro hnil
    refine hsent (List.append_eq_nil_iff.mpr ⟨?_, hnil⟩)
    rw [h.silent j, List.tail_nil])
  have hstate := congrArg (fun p : EbusComponent Q F × _ => p.1.ebus.receivingTelegram)
    ((hlistens j).processReceivedByte (P := P) hQ (net.step P x).2)
  have ht := hstate.symm.trans (congrArg Prod.snd (hview (Fin.natAdd m j)))
  rcases hprompts with ⟨-, hzz⟩ | ⟨-, hqq⟩
  · exact hunreserved.2 (ht ▸ hzz)
  · exact hunreserved.1 (ht ▸ hqq)

theorem Attended.run (h : net.Attended settings r) {xs : List (NetworkSlot (m + k))}
    (hidle : ∀ x ∈ xs, x.idle = syn) :
    Transducer.run (Network.step P) (front net) (xs.map Slot.front) =
        front (Transducer.run (Network.step P) net xs) ∧
      outputs (Network.step P) (front net) (xs.map Slot.front) =
        outputs (Network.step P) net xs ∧
      ∀ j, (Transducer.run (Network.step P) net xs (Fin.natAdd m j)).pending = [] := by
  induction xs generalizing net r with
  | nil => exact ⟨rfl, rfl, h.silent⟩
  | cons x xs ih =>
    have hfront : Network.step P (front net) x.front =
        (front (net.step P x).1, (net.step P x).2) := slot_front h.silent x
    obtain ⟨hrun, hout, hsilent⟩ := ih (h.step hQ hP hconf (hidle x (by simp)))
      fun y hy => hidle y (List.mem_cons_of_mem x hy)
    refine ⟨?_, ?_, hsilent⟩
    · rw [List.map_cons, run_cons, hfront, hrun, run_cons]
    · rw [List.map_cons, outputs_cons, hfront, hout, outputs_cons]

omit hQ hP hconf

variable {cs : Fin m → EbusComponent Q F} {listeners : Fin k → EbusComponent Q F}
  {listenerSettings : Fin k → ComponentSettings F}
  (hsetup : ∀ i, EbusComponent.setup Q (settings i) = some (cs i))
  (hlisteners : ∀ j, EbusComponent.setup Q (listenerSettings j) = some (listeners j))
  (haddress : ∀ j, (listenerSettings j).primaryAddress = syn)
  (hdistinct : ∀ i j, (settings i).primaryAddress = (settings j).primaryAddress → i = j)
  (hzero : ∀ i j, ¬ ((settings i).primaryAddress = 0x00#8 ∧ (settings j).primaryAddress = 0xFF#8))

theorem front_start : front (start (Fin.append cs listeners)) = start cs := by
  funext i
  rw [front, start, Fin.append_left]
  rfl

include hQ hconf hsetup hlisteners haddress hdistinct hzero

theorem attended_start :
    (start (Fin.append cs listeners)).Attended settings (false, .new) where
  sound i := by
    rw [front_start]
    exact sound_start hQ hsetup i
  regular := by
    rw [front_start]
    exact regular_start hsetup hconf hdistinct hzero
  listens j := by
    rw [start, Fin.append_right]
    exact EbusComponent.listens_setup hQ (haddress j) (hlisteners j)
  silent _ := rfl
  view i := by
    have hinit : ∀ {c : EbusComponent Q F} {settings : ComponentSettings F},
        EbusComponent.setup Q settings = some c → c.ebus.receiving = (false, .new) := by
      intro c settings hc
      rw [(EbusComponent.setup_eq_some hc).2.2.2.1]
      rfl
    cases i using Fin.addCases with
    | left i =>
      rw [start, Fin.append_left]
      exact hinit (hsetup i)
    | right j =>
      rw [start, Fin.append_right]
      exact hinit (hlisteners j)
  unreserved := Telegram.unreserved_new

include hP

/-- **Listeners do no harm.**  Components without an address, next to configured ones on a bus with
nothing but a SYN generator: in every run they send nothing, and the others do what they would do
without them. -/
theorem listeners_harmless {xs : List (NetworkSlot (m + k))} (hidle : ∀ x ∈ xs, x.idle = syn) :
    let net := start (Fin.append cs listeners)
    outputs (step P) net xs = outputs (step P) (start cs) (xs.map Slot.front) ∧
      (∀ i, run (step P) net xs (Fin.castAdd k i) =
        run (step P) (start cs) (xs.map Slot.front) i) ∧
      ∀ j, (run (step P) net xs (Fin.natAdd m j)).pending = [] := by
  intro net
  obtain ⟨hrun, hout, hsilent⟩ := @Attended.run _ _ _ _ P _ _ _ hQ hP hconf
    (attended_start hQ hconf hsetup hlisteners haddress hdistinct hzero) _ hidle
  rw [front_start] at hrun hout
  exact ⟨hout.symm, fun i => (congrFun hrun i).symm, hsilent⟩

end Listeners

/-- Two components poll while a third one listens, and the bus carries what it carries for the two.
-/
theorem pair_listened :
    let slots : List (NetworkSlot (2 + 1)) :=
      [⟨syn, fun _ => [.update, .poll]⟩, ⟨syn, fun _ => [.message]⟩]
    let net := start (Fin.append (pair true) fun _ : Fin 1 =>
      EbusComponent.bounded EbusComponent.withoutAddress)
    outputs (step EbusComponent.dividing) net slots = [0xAA#8, 0x00#8] ∧
      (run (step EbusComponent.dividing) net slots (Fin.natAdd 2 0)).pending = [] := by
  intro slots net
  have hlistener : EbusComponent.setup (boundedQueues Byte) EbusComponent.withoutAddress =
      some (.bounded EbusComponent.withoutAddress) :=
    EbusComponent.setup_bounded (by decide) (by decide)
  have hidle : ∀ x ∈ slots, x.idle = syn := by decide
  obtain ⟨hout, -, hsilent⟩ := listeners_harmless lawful_bounded EbusComponent.spares_dividing
    (configured_pair true) (setup_pair true) (fun _ : Fin 1 => hlistener) (fun _ => rfl)
    (distinct_pair true) (nonzero_pair true) hidle
  exact ⟨hout.trans (by decide +kernel), hsilent 0⟩

end Network

end EsphomeEbus
