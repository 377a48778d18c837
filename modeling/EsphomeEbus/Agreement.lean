import EsphomeEbus.Network
import EsphomeEbus.Service

/-!
# A bus of components, seen from one of them

* `stepsOf`: the steps of one component in a run of the bus; `run_stepsOf`, `bytes_stepsOf`: the
  component runs on them, and they bring it the bytes carried;
* `network_agreement`: all components handle the same telegrams in the same order;
* `network_served`: every command of every component gets its turn.
-/

namespace EsphomeEbus

open Elf Transducer SharedMedium WiredAnd Stuffing

/-- The telegrams on the bus, for everyone who has listened from the start. -/
def telegramsOn (bytes : List Byte) : List Telegram :=
  emitted (hear true) .new (wire.symbols false bytes)

theorem queuedDuring_init {config : Config} (hq : config.queueReceivedTelegram = true)
    (calls : List Call) : (Ebus.init config).queuedDuring calls = telegramsOn (bytesOf calls) := by
  rw [Ebus.queuedDuring_eq]
  show emitted (hear config.queueReceivedTelegram) _ _ = _
  rw [hq]
  rfl

namespace Network

variable {Q : QueueApi Byte} {F : Type*} {n : ℕ} {P : Platform Q F} {net : Network Q F n}
  {x : NetworkSlot n} {i : Fin n} {settings : Fin n → ComponentSettings F}
  {cs : Fin n → EbusComponent Q F}

/-! ### The steps of a component -/

/-- The steps that a component takes in a slot. -/
def slotSteps (P : Platform Q F) (i : Fin n) (net : Network Q F n) (x : NetworkSlot n) :
    List ComponentStep :=
  (x.intake i).map .task ++ [.byte (net.step P x).2]

/-- The steps that a component takes in a run of the bus. -/
def stepsOf (P : Platform Q F) (i : Fin n) (net : Network Q F n)
    (xs : List (NetworkSlot n)) : List ComponentStep :=
  unroll (step P) (slotSteps P i) net xs

theorem stepsOf_cons (xs : List (NetworkSlot n)) : stepsOf P i net (x :: xs) =
    (x.intake i).map .task ++ .byte (net.step P x).2 ::
      stepsOf P i (net.step P x).1 xs := by
  rw [stepsOf, unroll, slotSteps, List.append_assoc]
  rfl

theorem run_map_task (c : EbusComponent Q F) (ts : List TaskStep) :
    run (EbusComponent.step P) c (ts.map .task) =
      run (EbusComponent.taskStep P) c ts := by
  induction ts generalizing c with
  | nil => rfl
  | cons t ts ih => exact ih _

/-- One slot. -/
theorem simulates_slot : Simulates (fun net c => (net i).state = c) (fun _ _ => True)
    (slotSteps P i) (step P) (EbusComponent.step P) := by
  rintro net c x rfl -
  rw [slotSteps, run_append, run_map_task]
  rfl

/-- **A component runs on its steps.** -/
theorem run_stepsOf (xs : List (NetworkSlot n)) : (run (step P) net xs i).state =
    run (EbusComponent.step P) (net i).state (stepsOf P i net xs) :=
  simulates_slot.run_related rfl (along_of_forall _ net xs fun _ _ => trivial)

/-- What a component receives is what the bus carries. -/
theorem bytes_stepsOf (xs : List (NetworkSlot n)) :
    (stepsOf P i net xs).flatMap ComponentStep.bytes = outputs (step P) net xs := by
  have hslot : (fun net x => (slotSteps P i net x).flatMap ComponentStep.bytes) =
      fun net x => [(step P net x).2] := by
    funext net x
    simp [slotSteps, ComponentStep.bytes, step]
  rw [stepsOf, flatMap_unroll, hslot]
  exact (unroll_outputs (fun b => [b]) net xs).trans (List.flatMap_singleton' _)

/-! ### The same telegrams for everyone -/

/-- **Agreement.**  In every run of a bus of components, however their tasks run and whatever else
is on the bus: what a component has handled and has in its history queue is taken, in order, from
the telegrams on the bus, which are the same for all; and it is all of them if and only if each has
found room in the component's queue. -/
theorem network_agreement (hQ : Q.Lawful) (hP : P.memory.Spares)
    (hsetup : ∀ i, EbusComponent.setup Q (settings i) = some (cs i)) (xs : List (NetworkSlot n))
    (i : Fin n) :
    let telegrams := telegramsOn (outputs (step P) (start cs) xs)
    let steps := stepsOf P i (start cs) xs
    let taken := (outputs (EbusComponent.step P) (cs i) steps).flatMap ComponentOutput.handled ++
      (run (step P) (start cs) xs i).state.history
    taken.Sublist telegrams ∧
      (taken = telegrams ↔
        Along (EbusComponent.step P) (EbusComponent.HasRoom P) (cs i) steps) := by
  intro telegrams steps taken
  have hkept : (cs i).Kept (settings i) := EbusComponent.kept_setup hQ (hsetup i)
  have htaken : taken = (outputs (EbusComponent.step P) (cs i) steps).flatMap
      ComponentOutput.accepted := by
    have haccepted := EbusComponent.run_accepted hQ hP hkept steps
    rw [EbusComponent.history_setup hQ (hsetup i), List.nil_append] at haccepted
    show _ ++ (run (step P) (start cs) xs i).state.history = _
    rw [run_stepsOf]
    exact haccepted
  have htelegrams : (cs i).ebus.queuedDuring (EbusComponent.callsOf P (cs i) steps) =
      telegrams := by
    have hbytes : bytesOf (EbusComponent.callsOf P (cs i) steps) =
        outputs (step P) (start cs) xs :=
      (EbusComponent.bytesOf_callsOf hQ hP hkept.sized steps).trans (bytes_stepsOf xs)
    rw [(EbusComponent.setup_eq_some (hsetup i)).2.2.2.1]
    exact (queuedDuring_init rfl _).trans (congrArg telegramsOn hbytes)
  rw [htaken, ← htelegrams]
  refine ⟨?_, EbusComponent.accepted_eq_queued_iff hQ hP hkept.sized steps⟩
  rw [← EbusComponent.queued_run hQ hP hkept.sized]
  exact List.Sublist.flatMap_right _ fun _ =>
    EbusComponent.mem_outputs_sublist hQ hP hkept.sized

/-- Component 0 polls and is answered by component 1, and both take the same telegram. -/
theorem pair_agrees :
    let slots := polling :: List.replicate 23 ⟨syn, fun _ => []⟩
    ∀ i, (outputs (EbusComponent.step EbusComponent.dividing) (pair false i)
        (stepsOf EbusComponent.dividing i (start (pair false)) slots)).flatMap
          ComponentOutput.handled ++
        (run (step EbusComponent.dividing) (start (pair false)) slots i).state.history =
      telegramsOn (outputs (step EbusComponent.dividing) (start (pair false)) slots) := by
  intro slots i
  have hroom : ∀ i, Along (EbusComponent.step EbusComponent.dividing)
      (EbusComponent.HasRoom EbusComponent.dividing) (pair false i)
      (stepsOf EbusComponent.dividing i (start (pair false)) slots) := by decide +kernel
  exact (network_agreement lawful_bounded EbusComponent.spares_dividing (setup_pair false)
    slots i).2.mpr (hroom i)

/-! ### A turn for every command -/

/-- The component has a command to work on, or in its queue, when the byte comes. -/
def Busy (P : Platform Q F) (i : Fin n) (net : Network Q F n) (x : NetworkSlot n) : Prop :=
  let c := run (EbusComponent.taskStep P) (net i).state (x.intake i)
  c.ebus.activeCommand.isFinished = false ∨ c.commands ≠ []

instance (net : Network Q F n) (x : NetworkSlot n) : Decidable (Busy P i net x) :=
  inferInstanceAs (Decidable (_ ∨ _))

section Calls

variable (hQ : Q.Lawful) (hP : P.memory.Spares)

include hQ hP

/-- The commands that a component takes off its queue are those that its driver takes. -/
theorem length_dequeued {c : EbusComponent Q F} (h : c.Sized) (as : List ComponentStep) :
    ((outputs (EbusComponent.step P) c as).flatMap ComponentOutput.dequeued).length =
      c.ebus.taken (EbusComponent.callsOf P c as) := by
  induction as generalizing c with
  | nil => rfl
  | cons a as ih =>
    rw [outputs_cons, List.flatMap_cons, List.length_append]
    cases a with
    | byte b =>
      have hfirst : (c.process b).1.2.dequeued.length =
          if c.ebus.Takes (c.intake.call b) then 1 else 0 := by
        have htakes : c.ebus.Takes (c.intake.call b) ↔
            (c.ebus.processReceivedChar (c.intake.call b)).2.dequeueCalled = true ∧
              c.commands.head?.isSome = true := by
          rw [← EbusComponent.dequeued_intake hQ]
          rfl
        rw [(EbusComponent.commands_process hQ b).2.1, if_congr htakes rfl rfl]
        cases (c.ebus.processReceivedChar (c.intake.call b)).2.dequeueCalled with
        | false => simp
        | true => cases c.commands <;> simp
      rw [EbusComponent.step_byte hQ hP h, ih (h.process hQ b), hfirst,
        EbusComponent.callsOf_byte hQ hP h]
      rfl
    | task t =>
      obtain ⟨hebus, -, -, -, -, -, hdequeued⟩ := (c.turn_taskStep P t).frame
      rw [ih (h.step hQ hP (.task t))]
      show (c.taskStep P t).2.dequeued.length + (c.taskStep P t).1.ebus.taken _ = _
      rw [EbusComponent.callsOf_task, hdequeued, hebus]
      exact Nat.zero_add _

variable (hconf : ∀ i, (settings i).Configured) (h : ∀ i, (net i).state.Sound (settings i))

include hconf h

/-- The calls of a component's driver in a run of the bus. -/
theorem callsOf_stepsOf (xs : List (NetworkSlot n)) :
    EbusComponent.callsOf P (net i).state (stepsOf P i net xs) =
      net.bus.calls (driverSlots P net xs) i := by
  have htasks : ∀ {c : EbusComponent Q F} (_ : c.Sound (settings i)) (ts : List TaskStep) (b : Byte)
      (as : List ComponentStep), EbusComponent.callsOf P c (ts.map .task ++ .byte b :: as) =
        (run (EbusComponent.taskStep P) c ts).intake.call b ::
          EbusComponent.callsOf P (c.react P b ts).1 as := by
    intro c hc ts b as
    induction ts generalizing c with
    | nil =>
      rw [EbusComponent.react, run_nil, EbusComponent.processReceivedByte_eq hQ hP hc.sized]
      exact EbusComponent.callsOf_byte hQ hP hc.sized b as
    | cons t ts ih =>
      exact (EbusComponent.callsOf_task t _).trans (ih (hc.task hQ (hconf i) t))
  induction xs generalizing net with
  | nil => rfl
  | cons x xs ih =>
    obtain ⟨hslot, hsound⟩ :=
      slot_refined andAll (fun i => EbusComponent.refines hQ hP (hconf i)) h x
    have hbus : (Bus.step net.bus (refinedSlot andAll (EbusComponent.found P) net x)).1 =
        (net.step P x).1.bus := congrArg Prod.fst hslot
    have hrest : EbusComponent.callsOf P ((net.step P x).1 i).state
        (stepsOf P i (net.step P x).1 xs) = _ := ih hsound
    rw [stepsOf_cons, htasks (h i)]
    show _ :: EbusComponent.callsOf P ((net.step P x).1 i).state _ = _ ::
      (Bus.step net.bus _).1.calls (driverSlots P (net.step P x).1 xs) i
    rw [hrest, hbus]
    rfl

omit hP

/-- A busy component has work for its driver. -/
theorem hasWork (hx : Busy P i net x) :
    Bus.HasWork i net.bus (refinedSlot andAll (EbusComponent.found P) net x) := by
  have hsound : (run (EbusComponent.taskStep P) (net i).state (x.intake i)).Sound (settings i) :=
    (h i).tasks hQ (hconf i) (x.intake i)
  have hebus : (run (EbusComponent.taskStep P) (net i).state (x.intake i)).ebus =
      (net i).state.ebus := EbusComponent.run_tasks_ebus _ _
  simp only [Busy] at hx
  show ((net i).state.ebus.nextCommand
    (run (EbusComponent.taskStep P) (net i).state (x.intake i)).intake.dequeued).isFinished = false
  rw [← hebus, EbusComponent.dequeued_intake hQ]
  generalize run (EbusComponent.taskStep P) (net i).state (x.intake i) = c at hsound hx ⊢
  cases hfinished : c.ebus.activeCommand.isFinished with
  | false => rwa [Ebus.nextCommand_of_unfinished hfinished]
  | true =>
    -- a finished command is replaced by the first of the queue, which waits to be sent
    rw [hfinished] at hx
    have hitems : c.commands ≠ [] := hx.resolve_left (by simp)
    obtain ⟨command, commands, hcommands⟩ := List.exists_cons_of_ne_nil hitems
    have hq : c.ebus.config.dequeueCommand = true := by rw [hsound.config]; rfl
    have hnext : c.ebus.nextCommand c.commands.head? = command := by
      rw [Ebus.nextCommand, if_pos ⟨hfinished, hq⟩, hcommands]
      rfl
    obtain ⟨hstate, -⟩ := hsound.commands command (by rw [hcommands]; exact List.mem_cons_self)
    rw [hnext]
    exact TelegramBase.isFinished_of_state hstate (by decide)

end Calls

section Served

variable (hQ : Q.Lawful) (hP : P.memory.Spares)
  (hsetup : ∀ i, EbusComponent.setup Q (settings i) = some (cs i))
  (hconf : ∀ i, (settings i).Configured)
  (hdistinct : ∀ i j, (settings i).primaryAddress = (settings j).primaryAddress → i = j)
  (hzero : ∀ i j, ¬ ((settings i).primaryAddress = 0x00#8 ∧ (settings j).primaryAddress = 0xFF#8))
  {xs ys : List (NetworkSlot n)} (hx : Along (step P) Undisturbed (start cs) xs)
  (hy : Along (step P) Undisturbed (run (step P) (start cs) xs) ys)

include hQ hP hsetup hconf hdistinct hzero hx hy

/-- **Every command gets its turn.**  In every run of a bus of configured components, for as long as
a component has commands, it sees at most `max_lock_counter_` and two for each of the
`max_tries_ + 1` tries of normal SYNs for each command that it takes off its queue, and as many for
the one it begins with. -/
theorem network_served (hbusy : Along (step P) (Busy P i) (run (step P) (start cs) xs) ys) :
    let c := (run (step P) (start cs) xs i).state
    let steps := stepsOf P i (run (step P) (start cs) xs) ys
    c.ebus.normalSyns (EbusComponent.callsOf P c steps) ≤
      ((settings i).maxLockCounter.toNat + 2 * ((settings i).maxTries.toNat + 1)) *
        (((outputs (EbusComponent.step P) c steps).flatMap
          ComponentOutput.dequeued).length + 1) := by
  intro c steps
  have hstart : ∀ i, (start cs i).state.Sound (settings i) := sound_start hQ hsetup
  have hsound : ∀ i, (run (step P) (start cs) xs i).state.Sound (settings i) :=
    sound_run hQ hP hconf hstart xs
  obtain ⟨hregular, -⟩ := regular_run hQ hP hsetup hconf hdistinct hzero hx
  have hserves : c.ebus.Serves := by
    have hrun : c.ebus = (cs i).ebus.after _ := (congrArg EbusComponent.ebus (run_stepsOf xs)).trans
      (EbusComponent.ebus_run hQ hP (hstart i).sized _)
    rw [hrun, (EbusComponent.setup_eq_some (hsetup i)).2.2.2.1]
    refine Ebus.serves_after (Ebus.serves_init _) fun call hcall command hcommand => ?_
    exact ((hstart i).handsOver_callsOf hQ (hconf i) hP _ hcall command hcommand).1
  have hwork : Along Bus.step (Bus.HasWork i) (run (step P) (start cs) xs).bus
      (driverSlots P (run (step P) (start cs) xs) ys) :=
    along_refined (fun i => EbusComponent.refines hQ hP (hconf i))
      (fun _ _ h hx => hasWork hQ hconf h hx) hsound hbusy
  have hcalls := hregular.along_calls (along_bus hQ hP hconf hsound hy) hwork
  rw [← callsOf_stepsOf hQ hP hconf hsound ys] at hcalls
  rw [length_dequeued hQ hP (hsound i).sized]
  exact Ebus.waits_run hserves (hsound i).config ((hsound i).config ▸ hcalls)

end Served

/-- Component 0 polls on a normal SYN, and wins the bus. -/
theorem pair_served :
    let steps := stepsOf EbusComponent.dividing 0 (start (pair false))
      [polling, ⟨syn, fun _ => []⟩]
    (pair false 0).ebus.normalSyns
        (EbusComponent.callsOf EbusComponent.dividing (pair false 0) steps) ≤
      (4 + 2 * (2 + 1)) *
        (((outputs (EbusComponent.step EbusComponent.dividing) (pair false 0) steps).flatMap
          ComponentOutput.dequeued).length + 1) := by
  have hstart : Along (step EbusComponent.dividing) Undisturbed (start (pair false)) [] := trivial
  have hrun : Along (step EbusComponent.dividing) Undisturbed (start (pair false))
      [polling, ⟨syn, fun _ => []⟩] := by
    refine along_of_syn lawful_bounded EbusComponent.spares_dividing (configured_pair false)
      (sound_pair false) (regular_pair false) fun x hx => ?_
    rcases List.mem_pair.mp hx with rfl | rfl
    · rfl
    · rfl
  exact network_served lawful_bounded EbusComponent.spares_dividing (setup_pair false)
    (configured_pair false) (distinct_pair false) (nonzero_pair false) hstart hrun
    (by decide +kernel)

end Network

end EsphomeEbus
