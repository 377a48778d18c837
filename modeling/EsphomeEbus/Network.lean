import EsphomeEbus.Configured
import EsphomeEbus.Exchange

/-!
# A bus of configured components

What a configuration promises, carried through the tasks of every component to the bus.  The
components run on one kind of device: on one lawful kernel, and on a platform that spares the driver
what is written behind its commands.

* `EbusComponent.refines`: a component on the bus is a driver on the bus;
* `Network.step`, `run_bus`: a bus of components refines a bus of drivers;
* `network_safe`: what holds of every bus of configured components;
* `Asked`, `network_exchange`: one component asks another, and is answered.
-/

namespace EsphomeEbus

open Elf Transducer SharedMedium WiredAnd

/-! ### A component on the bus -/

namespace EbusComponent

variable {Q : QueueApi Byte} {F : Type*} {P : Platform Q F} {c : EbusComponent Q F}
  {settings : ComponentSettings F}

/-- A component on the bus: its other tasks take some steps, then it hears a byte. -/
def react (P : Platform Q F) (c : EbusComponent Q F) (b : Byte) (ts : List TaskStep) :
    EbusComponent Q F × List Byte :=
  let c := run (taskStep P) c ts
  ((c.processReceivedByte P b).1, (c.processReceivedByte P b).2.sent)

/-- What the driver finds when the other tasks have taken their steps. -/
def found (P : Platform Q F) (c : EbusComponent Q F) (_b : Byte) (ts : List TaskStep) : Intake :=
  (run (taskStep P) c ts).intake

/-- The other tasks leave the driver alone. -/
theorem run_tasks_ebus (c : EbusComponent Q F) (ts : List TaskStep) :
    (run (taskStep P) c ts).ebus = c.ebus :=
  run_frame (taskStep P) ebus (fun c t => (c.turn_taskStep P t).frame.1) c ts

/-- **A component is a driver** on the bus, whatever its other tasks do. -/
theorem refines (hQ : Q.Lawful) (hP : P.memory.Spares) (hconf : settings.Configured) :
    Refines (Sound settings) (react P) Ebus.react ebus (found P) := by
  intro c b ts h
  have htasks : (run (taskStep P) c ts).Sound settings := h.tasks hQ hconf ts
  rw [react, processReceivedByte_eq hQ hP htasks.sized]
  refine ⟨htasks.process hQ b, ?_⟩
  rw [← run_tasks_ebus (P := P) c ts]
  rfl

end EbusComponent

/-! ### The bus -/

/-- The components of a bus. -/
abbrev Network (Q : QueueApi Byte) (F : Type*) (n : ℕ) := Fin n → Station (EbusComponent Q F) Byte

/-- The byte from elsewhere, and what the other tasks of each component do before it. -/
abbrev NetworkSlot (n : ℕ) := Slot n (List TaskStep) Byte

namespace Network

variable {Q : QueueApi Byte} {F : Type*} {n : ℕ} (P : Platform Q F)

/-- One slot of the bus. -/
def step (net : Network Q F n) (x : NetworkSlot n) : Network Q F n × Byte :=
  slot (EbusComponent.react P) andAll net x

/-- The components as they have been set up. -/
def start (cs : Fin n → EbusComponent Q F) : Network Q F n := fun i => ⟨cs i, []⟩

/-- The drivers of the components. -/
def bus (net : Network Q F n) : Bus n := mapAll EbusComponent.ebus net

/-- The byte from elsewhere is no QQ that a component has sent and waits for. -/
def Undisturbed (net : Network Q F n) (x : NetworkSlot n) : Prop :=
  (∀ i, (net i).pending = []) → ∀ i, Arbitrating (net.bus.command i).toTelegramBase →
    x.idle ≠ (net.bus.command i).getQq

variable {P} {net : Network Q F n} {x : NetworkSlot n}

/-- The slots of a run as the drivers find them. -/
def driverSlots (P : Platform Q F) (net : Network Q F n) (xs : List (NetworkSlot n)) :
    List (BusSlot n) :=
  refinedSlots (EbusComponent.react P) andAll (EbusComponent.found P) net xs

theorem length_driverSlots (xs : List (NetworkSlot n)) :
    (driverSlots P net xs).length = xs.length := by
  induction xs generalizing net with
  | nil => rfl
  | cons x xs ih => exact congrArg Nat.succ ih

section Refinement

variable {settings : Fin n → ComponentSettings F} (hQ : Q.Lawful) (hP : P.memory.Spares)
  (hconf : ∀ i, (settings i).Configured) (h : ∀ i, (net i).state.Sound (settings i))

include hQ hconf h

/-- A slot of components is an orderly slot of their drivers. -/
theorem orderly (hx : net.Undisturbed x) :
    net.bus.Orderly (refinedSlot andAll (EbusComponent.found P) net x) where
  intake i := by
    have htasks : (run (EbusComponent.taskStep P) (net i).state (x.intake i)).Sound (settings i) :=
      (h i).tasks hQ (hconf i) (x.intake i)
    have haddress : net.bus.address i = (settings i).primaryAddress :=
      congrArg Config.primaryAddress (h i).config
    rw [haddress]
    exact htasks.wellFormed hQ
  foreign := hx

include hP

variable (xs : List (NetworkSlot n))

/-- **A bus of components is a bus of drivers**, and carries the same bytes. -/
theorem run_bus : run Bus.step net.bus (driverSlots P net xs) = (run (step P) net xs).bus ∧
    outputs Bus.step net.bus (driverSlots P net xs) = outputs (step P) net xs :=
  run_refined (fun i => EbusComponent.refines hQ hP (hconf i)) h xs

/-- The receivers of the drivers run on the bytes carried. -/
theorem run_receiving (i : Fin n) : (run (step P) net xs i).state.ebus.receiving =
    run (receiver false) (net i).state.ebus.receiving (outputs (step P) net xs) := by
  have hrun : run Bus.step net.bus (driverSlots P net xs) = _ := (run_bus hQ hP hconf h xs).1
  rw [← (run_bus hQ hP hconf h xs).2]
  exact (congrArg (fun bus : Bus n => (bus i).state.receiving) hrun.symm).trans
    (Bus.run_receiving _ i)

theorem sound_run (i : Fin n) : (run (step P) net xs i).state.Sound (settings i) :=
  run_refined_keeps (fun i => EbusComponent.refines hQ hP (hconf i)) h xs i

variable {xs}

theorem along_bus (hx : Along (step P) Undisturbed net xs) :
    Along Bus.step Bus.Orderly net.bus (driverSlots P net xs) :=
  along_refined (fun i => EbusComponent.refines hQ hP (hconf i))
    (fun _ _ h hx => orderly hQ hconf h hx) h hx

/-- The handlers that the drivers find are those of their components. -/
theorem handlers_driverSlots {y : BusSlot n} (hy : y ∈ driverSlots P net xs) (i : Fin n) :
    (y.intake i).sendResponseHandlers = [(net i).state.sendResponseHandler] := by
  have hhandler : ∀ c c' : EbusComponent Q F, c.toComponentSettings = c'.toComponentSettings →
      c.sendResponseHandler = c'.sendResponseHandler := by
    intro c c' hc
    funext t
    rw [EbusComponent.sendResponseHandler, EbusComponent.sendResponseHandler, hc]
  induction xs generalizing net with
  | nil => cases hy
  | cons x xs ih =>
    rcases List.mem_cons.mp hy with rfl | hy
    · have htasks :
          (run (EbusComponent.taskStep P) (net i).state (x.intake i)).Sound (settings i) :=
        (h i).tasks hQ (hconf i) (x.intake i)
      exact congrArg (fun handler => [handler])
        (hhandler _ _ (htasks.sameSettings.trans (h i).sameSettings.symm))
    · have hslot : ∀ i, ((net.step P x).1 i).state.Sound (settings i) :=
        sound_run hQ hP hconf h [x]
      exact (ih hslot hy).trans (congrArg (fun handler => [handler])
        (hhandler _ _ ((hslot i).sameSettings.trans (h i).sameSettings.symm)))

end Refinement

/-- Everyone waits for a telegram, component `a` is in the arbitration with the request of a message
for a component `r` that has items, and it wins the first of as many slots as the exchange takes. -/
structure Asked (P : Platform Q F) (net : Network Q F n) (ys : List (NetworkSlot n))
    (a r : Fin n) (m : Message) : Prop where
  afterSyn : ∀ i, (net i).state.ebus.AfterSyn
  opened : ∀ i, Open (net i).state.ebus.receivingTelegram
  arbitrating : Arbitrating (net.bus.command a).toTelegramBase
  request : (net.bus.command a).request = m.sendCommand.request
  zz : m.zz = toSecondary (net r).state.primaryAddress
  items : (net r).state.items ≠ []
  response : m.response = identification
  undisturbed : Along (step P) Undisturbed net ys
  wins : (outputs (step P) net ys).head? = some m.qq
  length : ys.length = m.wireForm.length + 1

section Configured

variable {settings : Fin n → ComponentSettings F} {cs : Fin n → EbusComponent Q F}
  (hQ : Q.Lawful) (hP : P.memory.Spares)
  (hsetup : ∀ i, EbusComponent.setup Q (settings i) = some (cs i))
  (hconf : ∀ i, (settings i).Configured)
  (hdistinct : ∀ i j, (settings i).primaryAddress = (settings j).primaryAddress → i = j)
  (hzero : ∀ i j, ¬ ((settings i).primaryAddress = 0x00#8 ∧ (settings j).primaryAddress = 0xFF#8))
  {xs : List (NetworkSlot n)} (hx : Along (step P) Undisturbed (start cs) xs)

include hQ hsetup in
theorem sound_start (i : Fin n) : (start cs i).state.Sound (settings i) :=
  EbusComponent.sound_setup hQ (hsetup i)

include hsetup hconf hdistinct hzero in
/-- The drivers are set up with primary addresses, no two with the same secondary one. -/
theorem regular_start : (start cs).bus.Regular := by
  have hbus : (start cs).bus = Bus.start fun i => (settings i).config := by
    funext i
    have hinit := (EbusComponent.setup_eq_some (hsetup i)).2.2.2.1
    exact congrArg (fun ebus => (⟨ebus, []⟩ : Station Ebus Byte)) hinit
  rw [hbus]
  refine Bus.regular_start (fun i => (hconf i).primary) ?_
  intro i j hij
  rcases (toSecondary_inj_iff (hconf i).primary (hconf j).primary).mp hij with h | h | h
  · exact hdistinct i j h
  · exact absurd h (hzero i j)
  · exact absurd ⟨h.2, h.1⟩ (hzero j i)

include hQ hP hsetup hconf hdistinct hzero hx

theorem regular_run : (run (step P) (start cs) xs).bus.Regular ∧
    ∀ i, (run (step P) (start cs) xs).bus.address i = (settings i).primaryAddress := by
  have hsound := sound_start hQ hsetup
  refine ⟨?_, fun i => ?_⟩
  · rw [← (run_bus hQ hP hconf hsound xs).1]
    exact Bus.regular_run (regular_start hsetup hconf hdistinct hzero)
      (along_bus hQ hP hconf hsound hx)
  · exact congrArg Config.primaryAddress (sound_run hQ hP hconf hsound xs i).config

/-- **One sender at a time, and nothing garbled.**  In every run of a bus of configured components,
whatever their tasks do: two of them have something to send at once only in the slot after a SYN,
and then each its QQ; and whatever a component has to send, other than right after a SYN, the next
slots carry. -/
theorem network_safe :
    (∀ i j, i ≠ j → (run (step P) (start cs) xs i).pending ≠ [] →
      (run (step P) (start cs) xs j).pending ≠ [] →
        (∀ k, (run (step P) (start cs) xs k).state.ebus.AfterSyn) ∧
          (run (step P) (start cs) xs i).pending = [(settings i).primaryAddress] ∧
          (run (step P) (start cs) xs j).pending = [(settings j).primaryAddress]) ∧
    ((outputs (step P) (start cs) xs).getLast? ≠ some syn →
      ∀ a p, (run (step P) (start cs) xs a).pending = p → ∀ ys, ys.length = p.length →
        Along (step P) Undisturbed (run (step P) (start cs) xs) ys →
          outputs (step P) (run (step P) (start cs) xs) ys = p) := by
  obtain ⟨hregular, haddress⟩ := regular_run hQ hP hsetup hconf hdistinct hzero hx
  have hstart := sound_start hQ hsetup
  refine ⟨fun i j hij hi hj => ?_, fun hlast a p hp ys hlen hy => ?_⟩
  · have hcontend := hregular.contend hij hi hj
    rwa [haddress i, haddress j] at hcontend
  · have hsound : ∀ i, (run (step P) (start cs) xs i).state.Sound (settings i) :=
      sound_run hQ hP hconf hstart xs
    obtain ⟨hrun, hout⟩ := run_bus hQ hP hconf hstart xs
    have hy' := along_bus hQ hP hconf hsound hy
    rw [← (run_bus hQ hP hconf hsound ys).2, ← hrun]
    rw [← hrun] at hy'
    refine (regular_start hsetup hconf hdistinct hzero).carried_after (fun _ => rfl)
      (along_bus hQ hP hconf hstart hx) (hout.symm ▸ hlast) (a := a) ?_
      ((length_driverSlots ys).trans hlen) hy'
    rw [hrun]
    exact hp

/-- The exchange begins: what component `a` asks is on its way, and component `r` will reply. -/
theorem Asked.begun {ys : List (NetworkSlot n)} {a r : Fin n} {m : Message}
    (h : Asked P (run (step P) (start cs) xs) ys a r m) :
    Bus.Begun (run (step P) (start cs) xs).bus a r m ∧
      outputs Bus.step (run (step P) (start cs) xs).bus
        (driverSlots P (run (step P) (start cs) xs) ys) = m.wireForm ++ [syn] := by
  obtain ⟨hregular, haddress⟩ := regular_run hQ hP hsetup hconf hdistinct hzero hx
  have hsound : ∀ i, (run (step P) (start cs) xs i).state.Sound (settings i) :=
    sound_run hQ hP hconf (sound_start hQ hsetup) xs
  have hown : (run (step P) (start cs) xs r).state.primaryAddress =
      (run (step P) (start cs) xs).bus.address r :=
    (hsound r).primaryAddress.trans (haddress r).symm
  have hbegun : Bus.Begun (run (step P) (start cs) xs).bus a r m :=
    ⟨hregular, h.afterSyn, h.opened, h.arbitrating, h.request,
      h.zz.trans (congrArg toSecondary hown)⟩
  refine ⟨hbegun, hbegun.carries ((length_driverSlots ys).trans h.length)
    (along_bus hQ hP hconf hsound h.undisturbed)
    ((run_bus hQ hP hconf hsound ys).2.symm ▸ h.wins) ?_⟩
  refine ⟨fun y hmem t _ => ?_, ?_, ?_⟩
  · have hhandler := EbusComponent.sendResponseHandler_eq h.items t
    rw [handlers_driverSlots hQ hP hconf hsound hmem r, h.response, findReply, hhandler]
    rfl
  · rw [h.response]
    decide
  · rw [h.response]
    decide +kernel

/-- **An exchange between two components.**  In every run of such a bus: where everyone waits for a
telegram, and a component is in the arbitration with a command for one that has items and wins the
next slot, the exchange takes its course, and the response is the identification. -/
theorem network_exchange {ys : List (NetworkSlot n)} {a r : Fin n} {m : Message}
    (h : Asked P (run (step P) (start cs) xs) ys a r m) :
    Bus.Exchanged (run (step P) (start cs) xs).bus
      (driverSlots P (run (step P) (start cs) xs) ys) a m := by
  obtain ⟨hbegun, hout⟩ := h.begun hQ hP hsetup hconf hdistinct hzero hx
  have hsound : ∀ i, (run (step P) (start cs) xs i).state.Sound (settings i) :=
    sound_run hQ hP hconf (sound_start hQ hsetup) xs
  exact ⟨hout, hbegun.queues hout,
    hbegun.completes (along_bus hQ hP hconf hsound h.undisturbed) hout, hbegun.reopens hout⟩

end Configured

/-! ### Two components and a SYN generator -/

section Generator

variable {settings : Fin n → ComponentSettings F} (hQ : Q.Lawful) (hP : P.memory.Spares)
  (hconf : ∀ i, (settings i).Configured) (h : ∀ i, (net i).state.Sound (settings i))
  (hregular : net.bus.Regular)

include hQ hP hconf h hregular

/-- A SYN from elsewhere disturbs nothing, and the drivers go on as before. -/
theorem step_of_syn (hidle : x.idle = syn) : net.Undisturbed x ∧
    (∀ i, ((net.step P x).1 i).state.Sound (settings i)) ∧ (net.step P x).1.bus.Regular := by
  have hx : net.Undisturbed x := by
    intro _ i harb
    rw [hidle, hregular.coherent.qq_eq hregular.addressed harb]
    exact (isPrimary_ne_syn (hregular.addressed.primary i)).symm
  have hslot := slot_refined andAll (fun i => EbusComponent.refines hQ hP (hconf i)) h x
  have hbus : (Bus.step net.bus (refinedSlot andAll (EbusComponent.found P) net x)).1 =
      (net.step P x).1.bus := congrArg Prod.fst hslot.1
  exact ⟨hx, hslot.2, hbus ▸ Bus.regular_step hregular (orderly hQ hconf h hx)⟩

/-- With nothing but SYNs from elsewhere nothing is disturbed. -/
theorem along_of_syn {xs : List (NetworkSlot n)} (hidle : ∀ x ∈ xs, x.idle = syn) :
    Along (step P) Undisturbed net xs := by
  induction xs generalizing net with
  | nil => trivial
  | cons x xs ih =>
    obtain ⟨hx, hsound, hregular'⟩ := step_of_syn hQ hP hconf h hregular (hidle x (by simp))
    exact ⟨hx, ih hsound hregular' fun y hy => hidle y (List.mem_cons_of_mem x hy)⟩

end Generator

/-- Component 0 is the primary 0x10, component 1 is the primary 0x03 and the secondary 0x08.  Both
have one sensor, with which component 0 asks component 1, and component 1 may ask 0x15. -/
def pairSettings (bothPoll : Bool) (i : Fin 2) : ComponentSettings ℕ where
  primaryAddress := if i.val = 0 then 0x10#8 else 0x03#8
  maxTries := 2
  maxLockCounter := 4
  historyQueueSize := 20
  commandQueueSize := 10
  items := [.sensor
    { address := if i.val = 0 then 0x08#8 else 0x15#8
      sendPoll := if i.val = 0 then true else bothPoll
      command := 0x0704#16
      payload := [0xAA#8]
      responsePosition := 1
      responseBytes := 2
      responseDivider := 1 }]

def pair (bothPoll : Bool) (i : Fin 2) : EbusComponent (boundedQueues Byte) ℕ :=
  .bounded (pairSettings bothPoll i)

theorem setup_pair (bothPoll : Bool) (i : Fin 2) :
    EbusComponent.setup (boundedQueues Byte) (pairSettings bothPoll i) = some (pair bothPoll i) :=
  EbusComponent.setup_bounded (by decide : (20#8).toNat ≠ 0) (by decide : (10#8).toNat ≠ 0)

theorem configured_pair (bothPoll : Bool) (i : Fin 2) : (pairSettings bothPoll i).Configured := by
  have hprimary : ∀ i : Fin 2, isPrimary (if i.val = 0 then 0x10#8 else 0x03#8) = true := by decide
  have haddress : ∀ i : Fin 2, (if i.val = 0 then 0x08#8 else 0x15#8) ≠ syn ∧
      (if i.val = 0 then 0x08#8 else 0x15#8) ≠ esc ∧
        isPrimary (if i.val = 0 then 0x08#8 else 0x15#8) = false := by decide
  refine ⟨hprimary i, fun item hitem _ => ?_⟩
  obtain rfl := List.mem_singleton.mp hitem
  exact ⟨haddress i, by show 1 < maxDataLength; decide⟩

theorem distinct_pair (bothPoll : Bool) (i j : Fin 2)
    (h : (pairSettings bothPoll i).primaryAddress = (pairSettings bothPoll j).primaryAddress) :
    i = j := by
  have hdistinct : ∀ i j : Fin 2, (if i.val = 0 then 0x10#8 else 0x03#8) =
      (if j.val = 0 then 0x10#8 else 0x03#8) → i = j := by decide
  exact hdistinct i j h

theorem nonzero_pair (bothPoll : Bool) (i j : Fin 2) :
    ¬ ((pairSettings bothPoll i).primaryAddress = 0x00#8 ∧
      (pairSettings bothPoll j).primaryAddress = 0xFF#8) := by
  rintro ⟨h, -⟩
  simp only [pairSettings] at h
  split at h <;> cases h

/-- A SYN, before which both components begin an `update` and ask their item. -/
def polling : NetworkSlot 2 := ⟨syn, fun _ => [.update, .poll]⟩

theorem regular_pair (bothPoll : Bool) : (start (pair bothPoll)).bus.Regular :=
  regular_start (setup_pair bothPoll) (configured_pair bothPoll) (distinct_pair bothPoll)
    (nonzero_pair bothPoll)

theorem sound_pair (bothPoll : Bool) (i : Fin 2) :
    (start (pair bothPoll) i).state.Sound (pairSettings bothPoll i) :=
  sound_start lawful_bounded (setup_pair bothPoll) i

theorem along_pair (bothPoll : Bool) : Along (step EbusComponent.dividing) Undisturbed
    (start (pair bothPoll)) [polling] := by
  refine along_of_syn lawful_bounded EbusComponent.spares_dividing (configured_pair bothPoll)
    (sound_pair bothPoll) (regular_pair bothPoll) fun x hx => ?_
  obtain rfl := List.mem_singleton.mp hx
  rfl

/-- Both components poll, and contend for the bus. -/
theorem pair_contends :
    let net := run (step EbusComponent.dividing) (start (pair true)) [polling]
    (∀ k, (net k).state.ebus.AfterSyn) ∧ (net 0).pending = [0x10#8] ∧
      (net 1).pending = [0x03#8] :=
  (network_safe lawful_bounded EbusComponent.spares_dividing (setup_pair true)
    (configured_pair true) (distinct_pair true) (nonzero_pair true) (along_pair true)).1 0 1
      (by decide) (by decide +kernel) (by decide +kernel)

/-- The message of component 0's sensor, with the response it gets. -/
def identifying : Message :=
  { Ebus.sampleMessage with response := identification, response_length := by decide }

/-- Component 0 polls alone, asks component 1, and wins the next slot. -/
theorem asked_pair : Asked EbusComponent.dividing
    (run (step EbusComponent.dividing) (start (pair false)) [polling])
    (List.replicate 23 ⟨syn, fun _ => []⟩) 0 1 identifying where
  afterSyn i := by
    have hrun := (run_bus lawful_bounded EbusComponent.spares_dividing (configured_pair false)
      (sound_pair false) [polling]).1
    have hafter := (@Ebus.syn_slot (Ebus.init (pairSettings false i).config)
      ((EbusComponent.found EbusComponent.dividing (pair false i) syn [.update, .poll]).call syn)
        rfl rfl).2.1
    have hstate : (run (step EbusComponent.dividing) (start (pair false)) [polling] i).state.ebus =
        (run Bus.step (start (pair false)).bus (driverSlots EbusComponent.dividing
          (start (pair false)) [polling]) i).state := by
      rw [hrun]
      rfl
    rw [hstate]
    exact hafter
  opened i := by
    have hview : (run (step EbusComponent.dividing) (start (pair false)) [polling]
        i).state.ebus.receivingTelegram = Telegram.new.receive syn syn :=
      congrArg Prod.snd (run_receiving lawful_bounded EbusComponent.spares_dividing
        (configured_pair false) (sound_pair false) [polling] i)
    rw [hview]
    exact open_new
  arbitrating := .inl (by decide +kernel)
  request := by decide +kernel
  zz := by decide +kernel
  items := by
    rw [(sound_run lawful_bounded EbusComponent.spares_dividing (configured_pair false)
      (sound_pair false) [polling] 1).sameSettings]
    exact List.cons_ne_nil _ _
  response := rfl
  undisturbed := by
    have hregular := regular_run lawful_bounded EbusComponent.spares_dividing (setup_pair false)
      (configured_pair false) (distinct_pair false) (nonzero_pair false) (along_pair false)
    refine along_of_syn lawful_bounded EbusComponent.spares_dividing (configured_pair false)
      (sound_run lawful_bounded EbusComponent.spares_dividing (configured_pair false)
        (sound_pair false) [polling]) hregular.1 fun x hx => ?_
    obtain rfl := List.eq_of_mem_replicate hx
    rfl
  wins := by decide +kernel
  length := by decide +kernel

/-- Component 0 gets the identification of component 1. -/
theorem pair_exchanges :
    let net := run (step EbusComponent.dividing) (start (pair false)) [polling]
    Bus.Exchanged net.bus (driverSlots EbusComponent.dividing net
      (List.replicate 23 ⟨syn, fun _ => []⟩)) 0 identifying :=
  network_exchange lawful_bounded EbusComponent.spares_dividing (setup_pair false)
    (configured_pair false) (distinct_pair false) (nonzero_pair false) (along_pair false) asked_pair

end Network

end EsphomeEbus
