import EsphomeEbus.Ebus

/-!
# The receiver inside the bus driver

The receiving telegram and the escape flag live on their own: no other field of the driver, no
queued command and no handler has a say in them.  This file makes that a theorem.

* `wire`: the escape encoding of `uart_send_char_` and `process_received_char`, as a `Stuffing`;
* `Telegram.Receives`: everything a symbol can do to the receiving telegram;
* `hear`: the receiving telegram as a machine fed with symbols;
* `receiver_projects`: `process_received_char`, seen through the escape flag, the receiving telegram
  and the queued telegrams, is `hear` behind the reader of `wire`;
* `receiving_after`, `queuedDuring_eq`: the same over whole runs.
-/

namespace EsphomeEbus

open Elf Transducer Stuffing

/-- The escape encoding of the bus: ESC is sent as `ESC 00`, SYN as `ESC 01`. -/
def wire : Stuffing Byte where
  esc := esc
  mark v := if v = esc then some 0x00#8 else if v = syn then some 0x01#8 else none
  unmark c := if c = 0x00#8 then some esc else if c = 0x01#8 then some syn else none
  mark_esc := rfl
  unmark_eq_some v c := by
    constructor
    · intro h
      split at h
      · obtain rfl := Option.some.inj h
        rename_i hc
        rw [hc]; rfl
      · split at h
        · obtain rfl := Option.some.inj h
          rename_i hc
          rw [hc]; rfl
        · cases h
    · intro h
      split at h
      · obtain rfl := Option.some.inj h
        rename_i hv
        rw [hv]; rfl
      · split at h
        · obtain rfl := Option.some.inj h
          rename_i hv
          rw [hv]; rfl
        · cases h

/-- SYN is the mark of no value. -/
theorem mark_ne_syn {v c : Byte} (h : wire.mark v = some c) : c ≠ syn := by
  intro hc
  rw [← wire.unmark_eq_some, hc] at h
  cases h

/-- `uart_send_char_` sends the wire form of its argument. -/
theorem uartSendChar_eq_encode (cr : Byte) : uartSendChar cr = wire.encode cr := by
  simp only [uartSendChar, uartSendCharCrc, true_and, Stuffing.encode, wire]
  by_cases h : cr = esc
  · simp [h]
  · by_cases h' : cr = syn
    · simp [h', show syn ≠ esc by decide]
    · simp [h, h']

/-! ### One symbol in the receiving telegram -/

namespace Telegram

/-- The symbol ends the telegram in `newState`. -/
inductive Ends (t : Telegram) (raw : Byte) : TelegramState → Prop
  | arbitration : t.state = .waitForRequestData → raw = syn → t.getZz = esc →
      Ends t raw .endArbitration
  | requestSyn : t.state = .waitForRequestData → raw = syn → t.getZz ≠ esc →
      Ends t raw .endErrorUnexpectedSyn
  | requestAck : t.state = .waitForRequestAck → raw = ack → t.isResponseExpected = false →
      Ends t raw .endCompleted
  | requestNack : t.state = .waitForRequestAck → raw = nack →
      Ends t raw .endErrorRequestNackReceived
  | requestNoAck : t.state = .waitForRequestAck → raw ≠ ack → raw ≠ nack →
      Ends t raw .endErrorRequestNoAck
  | responseSyn : t.state = .waitForResponseData → raw = syn → Ends t raw .endErrorUnexpectedSyn
  | responseAck : t.state = .waitForResponseAck → raw = ack → Ends t raw .endCompleted
  | responseNack : t.state = .waitForResponseAck → raw = nack →
      Ends t raw .endErrorResponseNackReceived
  | responseNoAck : t.state = .waitForResponseAck → raw ≠ ack → raw ≠ nack →
      Ends t raw .endErrorResponseNoAck

/-- The symbol is none the telegram waits for. -/
structure Rests (t : Telegram) (raw : Byte) : Prop where
  unsynced : t.state = .waitForSyn → raw ≠ syn
  opened : t.state = .waitForArbitration → raw = syn
  requestData : t.state ≠ .waitForRequestData
  requestAck : t.state ≠ .waitForRequestAck
  responseData : t.state ≠ .waitForResponseData
  responseAck : t.state ≠ .waitForResponseAck

/-- Everything that a symbol can do to a telegram. -/
inductive Receives (t : Telegram) (raw v : Byte) : Telegram → Prop
  | rests : t.Rests raw → Receives t raw v t
  | opens : t.state = .waitForSyn → raw = syn → Receives t raw v (t.setState .waitForArbitration)
  | first : t.state = .waitForArbitration → raw ≠ syn →
      Receives t raw v ((t.pushReqData v).setState .waitForRequestData)
  | request : t.state = .waitForRequestData → raw ≠ syn →
      (t.pushReqData v).isRequestComplete = false → Receives t raw v (t.pushReqData v)
  | requestEnd {newState : TelegramState} : t.state = .waitForRequestData → raw ≠ syn →
      (t.pushReqData v).isRequestComplete = true →
      newState = (if (t.pushReqData v).isAckExpected then .waitForRequestAck else .endCompleted) →
      Receives t raw v ((t.pushReqData v).setState newState)
  | acknowledged : t.state = .waitForRequestAck → raw = ack → t.isResponseExpected = true →
      Receives t raw v (t.setState .waitForResponseData)
  | response : t.state = .waitForResponseData → raw ≠ syn →
      (t.pushResponseData v).isResponseComplete = false → Receives t raw v (t.pushResponseData v)
  | responseEnd : t.state = .waitForResponseData → raw ≠ syn →
      (t.pushResponseData v).isResponseComplete = true →
      Receives t raw v ((t.pushResponseData v).setState .waitForResponseAck)
  | ends {newState : TelegramState} : t.Ends raw newState →
      Receives t raw v (t.setState newState)

theorem Ends.neg {t : Telegram} {raw : Byte} {newState : TelegramState} (h : t.Ends raw newState) :
    newState.toInt < 0 := by
  cases h <;> decide

/-- A state that no symbol is looked at in. -/
theorem rests_of_state {t : Telegram} {state : TelegramState} (hs : t.state = state) (raw : Byte)
    (h : state ≠ .waitForSyn ∧ state ≠ .waitForArbitration ∧ state ≠ .waitForRequestData ∧
      state ≠ .waitForRequestAck ∧ state ≠ .waitForResponseData ∧ state ≠ .waitForResponseAck) :
    t.Rests raw := by
  subst hs
  exact ⟨fun hs => absurd hs h.1, fun hs => absurd hs h.2.1, h.2.2.1, h.2.2.2.1, h.2.2.2.2.1,
    h.2.2.2.2.2⟩

/-- **The switch over the receiving telegram**, case by case. -/
theorem receives (t : Telegram) (raw v : Byte) : t.Receives raw v (t.receive raw v) := by
  cases hs : t.state with
  | waitForSyn =>
    simp only [receive, hs]
    split
    · rename_i hsyn
      exact .opens hs hsyn
    · rename_i hsyn
      exact .rests ⟨fun _ => hsyn, by simp [hs], by simp [hs], by simp [hs], by simp [hs],
        by simp [hs]⟩
  | waitForArbitration =>
    simp only [receive, hs]
    split
    · rename_i hsyn
      exact .first hs hsyn
    · rename_i hsyn
      exact .rests ⟨by simp [hs], fun _ => not_not.mp hsyn, by simp [hs], by simp [hs],
        by simp [hs], by simp [hs]⟩
  | waitForRequestData =>
    simp only [receive, hs]
    split
    · rename_i hsyn
      split
      · rename_i hzz
        exact .ends (.arbitration hs hsyn hzz)
      · rename_i hzz
        exact .ends (.requestSyn hs hsyn hzz)
    · rename_i hsyn
      split
      · rename_i hc
        exact .requestEnd hs hsyn hc rfl
      · rename_i hc
        exact .request hs hsyn (Bool.not_eq_true _ ▸ hc)
  | waitForRequestAck =>
    simp only [receive, hs]
    split
    · rename_i hack
      cases he : t.isResponseExpected with
      | true => exact .acknowledged hs hack he
      | false => exact .ends (.requestAck hs hack he)
    · rename_i hack
      split
      · rename_i hnack
        exact .ends (.requestNack hs hnack)
      · rename_i hnack
        exact .ends (.requestNoAck hs hack hnack)
  | waitForResponseData =>
    simp only [receive, hs]
    split
    · rename_i hsyn
      exact .ends (.responseSyn hs hsyn)
    · rename_i hsyn
      split
      · rename_i hc
        exact .responseEnd hs hsyn hc
      · rename_i hc
        exact .response hs hsyn (Bool.not_eq_true _ ▸ hc)
  | waitForResponseAck =>
    simp only [receive, hs]
    split
    · rename_i hack
      exact .ends (.responseAck hs hack)
    · rename_i hack
      split
      · rename_i hnack
        exact .ends (.responseNack hs hnack)
      · rename_i hnack
        exact .ends (.responseNoAck hs hack hnack)
  | _ =>
    simp only [receive, hs]
    exact .rests (rests_of_state hs raw (by decide))

/-- **A SYN** opens a telegram or ends the one under way. -/
theorem receive_syn (t : Telegram) (v : Byte) :
    (t.Rests syn ∧ t.receive syn v = t) ∨
    (t.state = .waitForSyn ∧ t.receive syn v = t.setState .waitForArbitration) ∨
    ∃ newState, t.Ends syn newState ∧ t.receive syn v = t.setState newState := by
  have hreceives := t.receives syn v
  generalize t.receive syn v = t' at hreceives ⊢
  cases hreceives with
  | rests h => exact .inl ⟨h, rfl⟩
  | opens hs => exact .inr (.inl ⟨hs, rfl⟩)
  | first _ hne => exact absurd rfl hne
  | request _ hne => exact absurd rfl hne
  | requestEnd _ hne => exact absurd rfl hne
  | acknowledged _ hack => exact absurd hack (by decide)
  | response _ hne => exact absurd rfl hne
  | responseEnd _ hne => exact absurd rfl hne
  | ends h => exact .inr (.inr ⟨_, h, rfl⟩)

/-- No SYN completes a telegram. -/
theorem Ends.syn_ne_completed {t : Telegram} {newState : TelegramState} (h : t.Ends syn newState) :
    newState ≠ .endCompleted := by
  cases h with
  | requestAck _ hack => exact absurd hack (by decide)
  | responseAck _ hack => exact absurd hack (by decide)
  | _ => decide

end Telegram

/-! ### The receiving telegram as a machine -/

/-- A finished telegram makes room for a new one. -/
def Telegram.refresh (t : Telegram) : Telegram := if t.isFinished then .new else t

/-- The receiving telegram hears one more symbol; with `queues`, a finished one is queued first. -/
def hear (queues : Bool) (t : Telegram) : Symbol Byte → Telegram × List Telegram
  | .invalid _ => (.new, [])
  | .plain b => (t.refresh.receive b b, if t.isFinished && queues then [t] else [])
  | .pair c v => (t.refresh.receive c v, if t.isFinished && queues then [t] else [])

/-- The escape flag and the receiving telegram as a machine fed with bytes. -/
def receiver (queues : Bool) : Bool × Telegram → Byte → (Bool × Telegram) × List Telegram :=
  wire.behind (hear queues)

namespace Ebus

/-- The driver as `setup_ebus_` leaves it. -/
def init (config : Config) : Ebus := { config := config }

/-- The part of the driver the receiver consists of. -/
def receiving (s : Ebus) : Bool × Telegram := (s.inEsc, s.receivingTelegram)

/-- The states a driver set up with `config` can be in. -/
def Reachable (config : Config) (s : Ebus) : Prop :=
  Transducer.Reachable processReceivedChar (init config) s

/-- The driver after some calls. -/
def after (s : Ebus) (calls : List Call) : Ebus := run processReceivedChar s calls

/-- The telegrams queued during some calls, oldest first. -/
def queuedDuring (s : Ebus) (calls : List Call) : List Telegram :=
  ((outputs processReceivedChar s calls).map Output.queued).flatten

end Ebus

/-- The byte stream some calls deliver. -/
def bytesOf (calls : List Call) : List Byte := calls.map Call.receivedByte

/-- A byte stream heard by a node with nothing to send and nothing to reply. -/
def quiet (bytes : List Byte) : List Call := bytes.map fun b => ⟨b, none, []⟩

@[simp] theorem bytesOf_quiet (bytes : List Byte) : bytesOf (quiet bytes) = bytes := by
  rw [bytesOf, quiet, List.map_map]
  exact List.map_id bytes

/-- The configuration of a node that gives only its address: the defaults of the schema, with both
functions installed. -/
def defaultConfig (primaryAddress : Byte) : Config :=
  { primaryAddress := primaryAddress
    maxTries := 2
    maxLockCounter := 4
    queueReceivedTelegram := true
    dequeueCommand := true }

/-! ### The parts of a processed symbol -/

namespace Ebus

variable (s : Ebus) (call : Call) (b real : Byte)

@[simp] theorem countSyn_config : (s.countSyn b).config = s.config := by
  rw [countSyn]; split <;> rfl

@[simp] theorem countSyn_inEsc : (s.countSyn b).inEsc = s.inEsc := by
  rw [countSyn]; split <;> rfl

@[simp] theorem countSyn_receivingTelegram :
    (s.countSyn b).receivingTelegram = s.receivingTelegram := by
  rw [countSyn]; split <;> rfl

@[simp] theorem countSyn_activeCommand : (s.countSyn b).activeCommand = s.activeCommand := by
  rw [countSyn]; split <;> rfl

theorem queueFinished_fst :
    s.queueFinished.1 = { s with receivingTelegram := s.receivingTelegram.refresh } := by
  rw [queueFinished, Telegram.refresh]; split <;> rfl

theorem queueFinished_snd : s.queueFinished.2 =
    if s.receivingTelegram.isFinished && s.config.queueReceivedTelegram
      then [s.receivingTelegram] else [] := by
  rw [queueFinished]
  cases s.receivingTelegram.isFinished <;> simp

/-- The active command once the queue has been asked. -/
def nextCommand (dequeued : Option SendCommand) : SendCommand :=
  if s.activeCommand.isFinished ∧ s.config.dequeueCommand then
    dequeued.getD s.activeCommand
  else s.activeCommand

theorem dequeue_fst (dequeued : Option SendCommand) :
    (s.dequeue dequeued).1 = { s with activeCommand := s.nextCommand dequeued } := by
  unfold dequeue nextCommand
  split
  · cases dequeued <;> rfl
  · rfl

theorem dequeue_snd (dequeued : Option SendCommand) :
    (s.dequeue dequeued).2 = (s.activeCommand.isFinished && s.config.dequeueCommand) := by
  unfold dequeue
  cases s.activeCommand.isFinished <;> cases s.config.dequeueCommand <;> cases dequeued <;> simp

/-- The state in which `driveCommand` is entered. -/
def beforeDrive : Ebus :=
  { s.countSyn call.receivedByte with
    receivingTelegram := s.receivingTelegram.refresh.receive call.receivedByte real
    activeCommand := s.nextCommand call.dequeued }

/-- The same state, by the steps that lead to it. -/
theorem beforeDrive_eq : s.beforeDrive call real =
    { ((s.countSyn call.receivedByte).queueFinished.1.dequeue call.dequeued).1 with
      receivingTelegram := ((s.countSyn call.receivedByte).queueFinished.1.dequeue
        call.dequeued).1.receivingTelegram.receive call.receivedByte real } := by
  simp only [queueFinished_fst, dequeue_fst, beforeDrive, nextCommand,
    countSyn_receivingTelegram, countSyn_activeCommand, countSyn_config]

/-- What the switch over the active command does during the call. -/
def drivenBy : Driven := (s.beforeDrive call real).driveCommand call.receivedByte

theorem processSymbol_fst : (s.processSymbol call real).1 =
    { s.beforeDrive call real with
      activeCommand := (s.drivenBy call real).activeCommand
      lockCounter := (s.drivenBy call real).lockCounter } := by
  simp only [processSymbol, queueFinished_fst, dequeue_fst, drivenBy, beforeDrive, nextCommand,
    countSyn_receivingTelegram, countSyn_activeCommand, countSyn_config]

theorem processSymbol_snd : (s.processSymbol call real).2 =
    { queued := if s.receivingTelegram.isFinished && s.config.queueReceivedTelegram
        then [s.receivingTelegram] else []
      dequeueCalled := s.activeCommand.isFinished && s.config.dequeueCommand
      qq := (s.drivenBy call real).qq
      request := (s.drivenBy call real).request
      acknowledge := (s.processSymbol call real).1.acknowledgeResponse
      answer := handleResponse s.config.primaryAddress call.sendResponseHandlers
        (s.processSymbol call real).1.receivingTelegram } := by
  simp only [processSymbol_fst]
  simp only [processSymbol, queueFinished_fst, queueFinished_snd, dequeue_fst, dequeue_snd,
    drivenBy, beforeDrive, nextCommand,
    countSyn_receivingTelegram, countSyn_activeCommand, countSyn_config]

/-- **Everything a call can do.**  It starts an escape pair, it ends an invalid one, or it processes
a symbol: a plain byte, or the second byte of a pair. -/
theorem processReceivedChar_cases :
    (s.inEsc = false ∧ call.receivedByte = esc ∧
      s.processReceivedChar call = ({ s with inEsc := true }, {})) ∨
    (s.inEsc = true ∧ call.receivedByte ≠ 0x00#8 ∧ call.receivedByte ≠ 0x01#8 ∧
      s.processReceivedChar call = ({ s with inEsc := false, receivingTelegram := .new }, {})) ∨
    (s.inEsc = false ∧ call.receivedByte ≠ esc ∧
      s.processReceivedChar call = s.processSymbol call call.receivedByte) ∨
    (∃ real, s.inEsc = true ∧
      (call.receivedByte = 0x00#8 ∧ real = esc ∨ call.receivedByte = 0x01#8 ∧ real = syn) ∧
      s.processReceivedChar call = { s with inEsc := false }.processSymbol call real) := by
  rw [processReceivedChar]
  cases hesc : s.inEsc with
  | false =>
    by_cases hb : call.receivedByte = esc
    · exact .inl ⟨rfl, hb, by simp [hb]⟩
    · exact .inr (.inr (.inl ⟨rfl, hb, by simp [hb]⟩))
  | true =>
    by_cases h0 : call.receivedByte = 0x00#8
    · exact .inr (.inr (.inr ⟨esc, rfl, .inl ⟨h0, rfl⟩, by simp [h0]⟩))
    · by_cases h1 : call.receivedByte = 0x01#8
      · exact .inr (.inr (.inr ⟨syn, rfl, .inr ⟨h1, rfl⟩, by simp [h1]⟩))
      · exact .inr (.inl ⟨rfl, h0, h1, by simp [h0, h1]⟩)

/-! ### The projection -/

theorem processSymbol_config : (s.processSymbol call real).1.config = s.config := by
  simp only [processSymbol_fst, beforeDrive, countSyn_config]

theorem processSymbol_inEsc : (s.processSymbol call real).1.inEsc = s.inEsc := by
  simp only [processSymbol_fst, beforeDrive, countSyn_inEsc]

theorem processSymbol_receivingTelegram : (s.processSymbol call real).1.receivingTelegram =
    s.receivingTelegram.refresh.receive call.receivedByte real := by
  simp only [processSymbol_fst, beforeDrive]

theorem processReceivedChar_config : (s.processReceivedChar call).1.config = s.config := by
  obtain ⟨-, -, h⟩ | ⟨-, -, -, h⟩ | ⟨-, -, h⟩ | ⟨real, -, -, h⟩ := s.processReceivedChar_cases call
  · rw [h]
  · rw [h]
  · rw [h, processSymbol_config]
  · rw [h, processSymbol_config]

/-- **The receiver is a machine of its own.**  Through the escape flag, the receiving telegram and
the queued telegrams, a call is one step of `receiver` on the byte received. -/
theorem receiver_projects (queues : Bool) :
    Projects (fun s => s.config.queueReceivedTelegram = queues) processReceivedChar
      (receiver queues) receiving Call.receivedByte Output.queued := by
  rintro s call rfl
  refine ⟨congrArg _ (s.processReceivedChar_config call), ?_⟩
  obtain ⟨hesc, hb, h⟩ | ⟨hesc, h0, h1, h⟩ | ⟨hesc, hb, h⟩ | ⟨real, hesc, hb, h⟩ :=
    s.processReceivedChar_cases call
  · simp [h, receiver, behind, receiving, Stuffing.read, hesc, hb, wire]
  · simp only [h, receiver, behind, receiving, Stuffing.read, hesc, wire, h0, h1]
    simp [hear, emitted, outputs]
  · simp only [h, receiving, processSymbol_inEsc, processSymbol_receivingTelegram,
      processSymbol_snd, receiver, behind, hesc]
    simp [Stuffing.read, wire, hb, hear, emitted, outputs]
  · simp only [h, receiving, processSymbol_inEsc, processSymbol_receivingTelegram,
      processSymbol_snd, receiver, behind, hesc]
    obtain ⟨hb, rfl⟩ | ⟨hb, rfl⟩ := hb <;> simp [Stuffing.read, wire, hb, hear, emitted, outputs]

variable (calls : List Call)

/-- **The receiver after a run**, computed from the bytes alone. -/
theorem receiving_after : (s.after calls).receiving =
    (wire.pendingAfter s.inEsc (bytesOf calls),
      run (hear s.config.queueReceivedTelegram) s.receivingTelegram
        (wire.symbols s.inEsc (bytesOf calls))) := by
  rw [after, run_project (receiver_projects s.config.queueReceivedTelegram) s rfl, receiver,
    receiving, run_behind]
  rfl

theorem after_inEsc : (s.after calls).inEsc = wire.pendingAfter s.inEsc (bytesOf calls) :=
  congrArg Prod.fst (s.receiving_after calls)

theorem after_receivingTelegram : (s.after calls).receivingTelegram =
    run (hear s.config.queueReceivedTelegram) s.receivingTelegram
      (wire.symbols s.inEsc (bytesOf calls)) := congrArg Prod.snd (s.receiving_after calls)

/-- **The telegrams queued during a run**, computed from the bytes alone. -/
theorem queuedDuring_eq : s.queuedDuring calls =
    emitted (hear s.config.queueReceivedTelegram) s.receivingTelegram
      (wire.symbols s.inEsc (bytesOf calls)) := by
  rw [queuedDuring, outputs_project (receiver_projects s.config.queueReceivedTelegram) s rfl]
  exact wire.emitted_behind _ s.inEsc s.receivingTelegram (bytesOf calls)

theorem after_concat (call : Call) :
    s.after (calls ++ [call]) = ((s.after calls).processReceivedChar call).1 :=
  run_concat processReceivedChar s calls call

theorem queuedDuring_concat (call : Call) : s.queuedDuring (calls ++ [call]) =
    s.queuedDuring calls ++ ((s.after calls).processReceivedChar call).2.queued := by
  simp [queuedDuring, outputs_concat, after]

/-- Every telegram queued during a run is queued by one of its calls. -/
theorem mem_queuedDuring {t : Telegram} (ht : t ∈ s.queuedDuring calls) :
    ∃ sofar call rest, calls = sofar ++ call :: rest ∧
      t ∈ ((s.after sofar).processReceivedChar call).2.queued := by
  obtain ⟨q, hq, ht⟩ := List.mem_flatten.mp ht
  obtain ⟨o, ho, rfl⟩ := List.mem_map.mp hq
  obtain ⟨sofar, call, rest, hcalls, rfl⟩ := mem_outputs processReceivedChar ho
  exact ⟨sofar, call, rest, hcalls, ht⟩

theorem after_config : (s.after calls).config = s.config := by
  induction calls generalizing s with
  | nil => rfl
  | cons call calls ih => exact (ih _).trans (s.processReceivedChar_config call)

theorem Reachable.config {config : Config} {s : Ebus} (h : Reachable config s) :
    s.config = config :=
  Transducer.Reachable.invariant processReceivedChar
    (fun s call hs => (s.processReceivedChar_config call).trans hs) h rfl

end Ebus

end EsphomeEbus
