import EsphomeEbus.Acknowledge
import EsphomeEbus.Component
import EsphomeEbus.Reception
import EsphomeEbus.Slot

/-!
# A whole transaction of a node

A node sends a command to a secondary, hears its own request back, the acknowledge and the response,
and acknowledges that.  Three machines run side by side on the bytes: the receiver, the switch over
the active command and the two answers.

* `Open.partway`: where the receiver stands before the last byte of the response;
* `Settling`, `settling_along`: from the win on, the command waits or is done, and the switch is
  silent;
* `own_transaction`: what the node sends, how its command ends and which telegram it queues.
-/

namespace EsphomeEbus

open Elf Transducer Stuffing

/-! ### The receiver along the transaction -/

variable {t : Telegram} {m : Message}

/-- Everything up to the last byte of the response. -/
def Message.answered (m : Message) : List Byte :=
  m.request ++ ack :: withCrc (responseBytes m.response)

/-- Before the last byte of the response no response is complete, and a request that is complete is
the one sent. -/
theorem Open.partway (ho : Open t) (htype : m.sendCommand.getType = .primarySecondary)
    (queues : Bool) {us ws : List Byte} (h : m.answered = us ++ ws) (hws : ws ≠ []) :
    (run (hear queues) t (us.map wire.symbolOf)).state ≠ .waitForResponseAck ∧
      ((run (hear queues) t (us.map wire.symbolOf)).state = .waitForRequestAck →
        (run (hear queues) t (us.map wire.symbolOf)).getZz = m.zz) := by
  have hother : ∀ {t' : Telegram} {state : TelegramState}, t'.state = state →
      state ≠ .waitForResponseAck → state ≠ .waitForRequestAck →
      t'.state ≠ .waitForResponseAck ∧ (t'.state = .waitForRequestAck → t'.getZz = m.zz) := by
    intro t' state hs h1 h2
    rw [hs]
    exact ⟨h1, fun h => absurd h h2⟩
  obtain ⟨t', hb, ht, hs, he⟩ := ho.becomes_secondary queues htype
  have hrequest : t'.state ≠ .waitForResponseAck ∧
      (t'.state = .waitForRequestAck → t'.getZz = m.zz) :=
    ⟨by rw [hs]; decide, fun _ => TelegramBase.getZz_of_stored ht.request⟩
  rcases List.append_eq_append_iff.mp h with ⟨cs, rfl, hcs⟩ | ⟨as, has, hws'⟩
  · -- the request is over
    have hc := complete_response m.response_length (crc8From 0 (responseBytes m.response))
    rw [List.map_append, run_append, hb.1]
    rcases answer_partway queues hs he ht hc hcs hws with rfl | hdata
    · exact hrequest
    · exact hother hdata (by decide) (by decide)
  · -- the request is still under way, or just over
    cases as with
    | nil =>
      rw [List.append_nil] at has
      rw [← has, hb.1]
      exact hrequest
    | cons a as =>
      cases us with
      | nil => exact hother ho.state_eq (by decide) (by decide)
      | cons q us =>
        have hc := m.complete_request
        rw [has] at hc
        have hg : Growing offsetData (q :: us) := growing_of_complete offsetData_pos hc (by simp)
        obtain ⟨t₁, hb₁, hs₁, ht₁⟩ := ho.becomes_first queues q
        obtain ⟨t₂, hb₂, hs₂, -⟩ := becomes_request_part queues us hs₁ ht₁ hg
        have hrun := (hb₁.append hb₂).1
        rw [List.singleton_append] at hrun
        rw [hrun]
        exact hother hs₂ (by decide) (by decide)

/-- With the last byte of the response a valid one is there, to a request from QQ. -/
theorem Open.becomes_answered (ho : Open t) (htype : m.sendCommand.getType = .primarySecondary)
    (queues : Bool) : ∃ t', Becomes queues t m.answered t' ∧ t'.state = .waitForResponseAck ∧
      t'.getQq = m.qq ∧ t'.isResponseValid = true := by
  obtain ⟨t₁, hb₁, ht₁, hs₁, he⟩ := ho.becomes_secondary queues htype
  have hc := complete_response m.response_length (crc8From 0 (responseBytes m.response))
  obtain ⟨t₂, hb₂, hs₂, ht₂⟩ := becomes_answer queues hs₁ he ht₁ hc
  refine ⟨t₂, hb₁.append hb₂, hs₂, TelegramBase.getQq_of_stored ht₂.request, ?_⟩
  exact (ht₂.isResponseValid_iff (.inl (by rw [hs₂]; decide))).mpr ⟨hc, checked_withCrc hc⟩

/-! ### The sending side along the transaction -/

/-- Nothing is due to be acknowledged or answered by a node set up with `config`. -/
def NotDue (config : Config) (t : Telegram) : Prop :=
  t.state ≠ .waitForResponseAck ∧
    (t.state = .waitForRequestAck → t.getZz ≠ toSecondary config.primaryAddress)

namespace Ebus

variable {s : Ebus} {call : Call}

/-- The command is done and the bus locked; if another command has been dequeued, it waits. -/
def Done (s : Ebus) : Prop :=
  s.lockCounter = s.config.maxLockCounter ∧
    (s.activeCommand.state = .endCompleted ∨ s.activeCommand.state = .waitForSend)

/-- From the win on, the command waits for its acknowledge or is done. -/
def Settling (s : Ebus) : Prop := s.activeCommand.state = .waitForCommandAck ∨ s.Done

/-- The switch sends nothing during the call. -/
def SwitchSilent (s : Ebus) (call : Call) : Prop :=
  (s.processReceivedChar call).2.qq = [] ∧ (s.processReceivedChar call).2.request = []

theorem Processed.switchSilent {real : Byte} (hp : Processed s call real)
    (hq : (s.drivenBy call real).qq = []) (hr : (s.drivenBy call real).request = []) :
    s.SwitchSilent call := ⟨hp.qq.trans hq, hp.request.trans hr⟩

/-- A done command stays done until the next SYN. -/
theorem Done.step (h : s.Done) (hd : HandsOver call) (hsyn : call.receivedByte ≠ syn) :
    (s.processReceivedChar call).1.Done ∧ s.SwitchSilent call := by
  obtain ⟨pending, t, heq, -⟩ | ⟨real, hp, -⟩ := s.silent_or_processed call
  · unfold SwitchSilent
    rw [heq]
    exact ⟨h, rfl, rfl⟩
  · have hnext : (s.nextCommand call.dequeued).state = .endCompleted ∨
        (s.nextCommand call.dequeued).state = .waitForSend := by
      rcases s.nextCommand_cases call.dequeued with hs | ⟨-, hs⟩
      · rw [hs]
        exact h.2
      · exact .inr (hd _ hs).1
    have hdriven : s.drivenBy call real = (s.beforeDrive call real).stay := by
      rcases hnext with hs | hs
      · exact driveCommand_finished (s := s.beforeDrive call real) _
          (TelegramBase.isFinished_of_end hs (by decide))
      · have hdrive : s.drivenBy call real = _ :=
          driveCommand_waitForSend (s := s.beforeDrive call real) _ hs
        rw [hdrive, if_neg fun hsend => hsyn hsend.1]
    refine ⟨⟨?_, ?_⟩, hp.switchSilent (by rw [hdriven]; rfl) (by rw [hdriven]; rfl)⟩
    · rw [processReceivedChar_config, hp.lockCounter, hdriven]
      show (s.countSyn call.receivedByte).lockCounter = _
      rw [countSyn_of_ne_syn _ hsyn]
      exact h.1
    · rw [hp.activeCommand, hdriven]
      exact hnext

/-- A command that waits is done with the next ACK byte. -/
theorem done_of_ack (hs : s.activeCommand.state = .waitForCommandAck)
    (hack : call.receivedByte = ack) : (s.processReceivedChar call).1.Done := by
  obtain ⟨real, hp⟩ := processed_of_ack (s := s) hack
  refine ⟨?_, .inl ?_⟩
  · rw [processReceivedChar_config, hp.lockCounter, drivenBy_waiting hs, if_pos hack]
    show (s.beforeDrive call real).config.maxLockCounter = _
    rw [beforeDrive, countSyn_config]
  · rw [completes hs hack]
    rfl

/-- A command that waits sends nothing. -/
theorem switchSilent_of_waiting (hs : s.activeCommand.state = .waitForCommandAck) :
    s.SwitchSilent call := by
  obtain ⟨pending, t, heq, -⟩ | ⟨real, hp, -⟩ := s.silent_or_processed call
  · unfold SwitchSilent
    rw [heq]
    exact ⟨rfl, rfl⟩
  · apply hp.switchSilent
    · rw [drivenBy_waiting hs]
      split
      · rfl
      · split <;> rfl
    · rw [drivenBy_waiting hs]
      split
      · rfl
      · split <;> rfl

theorem Settling.step (h : s.Settling) (hd : HandsOver call) (hsyn : call.receivedByte ≠ syn) :
    (s.processReceivedChar call).1.Settling ∧ s.SwitchSilent call := by
  rcases h with hs | hdone
  · refine ⟨?_, switchSilent_of_waiting hs⟩
    by_cases hack : call.receivedByte = ack
    · exact .inr (done_of_ack hs hack)
    · left
      rw [waits hs hack hsyn, hs]
  · obtain ⟨hdone', hsilent⟩ := hdone.step hd hsyn
    exact ⟨.inr hdone', hsilent⟩

/-- Nothing due, nothing sent. -/
theorem SwitchSilent.sent_eq (h : s.SwitchSilent call)
    (hn : NotDue s.config (s.processReceivedChar call).1.receivingTelegram) :
    (s.processReceivedChar call).2.sent = [] := by
  obtain ⟨pending, t, heq, -⟩ | ⟨real, hp, -⟩ := s.silent_or_processed call
  · rw [heq]
    rfl
  · have hack : (s.processReceivedChar call).1.acknowledgeResponse = [] :=
      if_neg fun hdue => hn.1 hdue.1
    have hanswer : handleResponse s.config.primaryAddress call.sendResponseHandlers
        (s.processReceivedChar call).1.receivingTelegram = [] := by
      rw [handleResponse, if_pos]
      by_cases hs : (s.processReceivedChar call).1.receivingTelegram.state = .waitForRequestAck
      · exact .inr (hn.2 hs)
      · exact .inl hs
    rw [Output.sent, h.1, h.2, hp.acknowledge, hp.answer, hack, hanswer]
    rfl

/-- The calls deliver no SYN. -/
def NoSyn (calls : List Call) : Prop := ∀ call ∈ calls, call.receivedByte ≠ syn ∧ HandsOver call

/-- **The switch is silent** from the win to the next SYN. -/
theorem settling_along (calls : List Call) (h : s.Settling) (hcalls : NoSyn calls)
    (hn : ∀ sofar call rest, calls = sofar ++ call :: rest →
      NotDue s.config (s.after (sofar ++ [call])).receivingTelegram) :
    (outputs processReceivedChar s calls).map Output.sent = List.replicate calls.length [] ∧
      (s.after calls).Settling := by
  induction calls generalizing s with
  | nil => exact ⟨rfl, h⟩
  | cons call calls ih =>
    obtain ⟨hsyn, hd⟩ := hcalls call (by simp)
    obtain ⟨hstep, hsilent⟩ := h.step hd hsyn
    obtain ⟨hout, hend⟩ := ih hstep (fun c hc => hcalls c (by simp [hc]))
      fun sofar c rest hsplit => by
        rw [processReceivedChar_config]
        exact hn (call :: sofar) c rest (by rw [hsplit]; rfl)
    refine ⟨?_, hend⟩
    rw [outputs_cons, List.map_cons, hout, hsilent.sent_eq (hn [] call calls rfl)]
    rfl

theorem Done.along (calls : List Call) (h : s.Done) (hcalls : NoSyn calls) :
    (s.after calls).Done := by
  apply run_keeps processReceivedChar (I := Done)
    (C := fun _ call => call.receivedByte ≠ syn ∧ HandsOver call)
  · intro s' call hdone hC
    exact (hdone.step hC.2 hC.1).1
  · exact h
  · exact along_of_forall processReceivedChar s calls hcalls

/-- **The command is completed** by the first ACK byte, and the bus stays locked to the next SYN. -/
theorem completed_along (calls : List Call) (hs : s.activeCommand.state = .waitForCommandAck)
    (hcalls : NoSyn calls) (hack : ack ∈ bytesOf calls) :
    ∃ done rest, calls = done ++ rest ∧
      (s.after done).activeCommand = s.activeCommand.setState .endCompleted ∧
      ∀ more, more <+: rest → (s.after (done ++ more)).lockCounter = s.config.maxLockCounter := by
  induction calls generalizing s with
  | nil => cases hack
  | cons call calls ih =>
    obtain ⟨hsyn, hd⟩ := hcalls call (by simp)
    by_cases hbyte : call.receivedByte = ack
    · refine ⟨[call], calls, rfl, completes hs hbyte, fun more hmore => ?_⟩
      have hdone : (s.after ([call] ++ more)).Done :=
        (done_of_ack hs hbyte).along more fun c hc => hcalls c (by simp [hmore.subset hc])
      have hlock := hdone.1
      rwa [after_config] at hlock
    · have hwait := waits hs hbyte hsyn
      have hrest : ack ∈ bytesOf calls := by
        rcases List.mem_cons.mp hack with h | h
        · exact absurd h.symm hbyte
        · exact h
      obtain ⟨done, rest, rfl, hcompleted, hlock⟩ := ih (by rw [hwait, hs])
        (fun c hc => hcalls c (by simp [hc])) hrest
      refine ⟨call :: done, rest, rfl, ?_, fun more hmore => ?_⟩
      · rw [hwait] at hcompleted
        exact hcompleted
      · have hlock' := hlock more hmore
        rwa [processReceivedChar_config] at hlock'

/-! ### The transaction -/

/-- The first SYN, on a clean bus: the receiver is open, and the command is in the arbitration. -/
structure Started (s : Ebus) (m : Message) : Prop where
  afterSyn : AfterSyn s
  opened : Open s.receivingTelegram
  state_eq : s.activeCommand.state = .waitForArbitration
  request_eq : s.activeCommand.request = m.sendCommand.request
  qq_eq : m.qq = s.config.primaryAddress
  zz_ne : m.zz ≠ toSecondary s.config.primaryAddress
  type_eq : m.sendCommand.getType = .primarySecondary

theorem wireForm_of_secondary (htype : m.sendCommand.getType = .primarySecondary) :
    m.wireForm = wire.encodeAll m.answered ++ [ack] := by
  rw [m.wireForm_eq, Message.reaction, htype, Message.answered]
  simp

variable {m : Message}

/-- Up to the last byte of the response nothing is due. -/
theorem Started.notDue (h : Started s m) {body sofar rest : List Call}
    (hbody : bytesOf body = wire.encodeAll m.answered) (hsplit : body = sofar ++ rest)
    (hrest : rest ≠ []) : NotDue s.config (s.after sofar).receivingTelegram := by
  have hbytes : wire.encodeAll m.answered = bytesOf sofar ++ bytesOf rest := by
    rw [← hbody, hsplit, bytesOf, List.map_append]
    rfl
  obtain ⟨us, ws, hvs, hws, hread⟩ := wire.symbols_prefix hbytes (by simpa [bytesOf] using hrest)
  obtain ⟨hresp, hreq⟩ := h.opened.partway h.type_eq s.config.queueReceivedTelegram hvs hws
  rw [after_receivingTelegram, h.afterSyn.inEsc, hread]
  exact ⟨hresp, fun hs => by rw [hreq hs]; exact h.zz_ne⟩

/-- The slot after the SYN: the node wins and sends the rest of its request. -/
theorem Started.wins (h : Started s m) {q : Call} (hq : q.receivedByte = m.qq) :
    (s.processReceivedChar q).2.sent = uartSendRemainingRequestPart m.sendCommand ∧
      (s.processReceivedChar q).1.activeCommand.state = .waitForCommandAck ∧
      (s.processReceivedChar q).1.activeCommand.request = m.sendCommand.request := by
  have hqq : s.activeCommand.getQq = m.qq := by
    rw [TelegramBase.getQq, h.request_eq]
    exact SendCommand.getQq_new m.qq m.zz m.command m.data_length
  have htype : s.activeCommand.getType = .primarySecondary := by
    rw [← h.type_eq, TelegramBase.getType, TelegramBase.getZz, h.request_eq]
    rfl
  have hack : s.activeCommand.isAckExpected = true := by
    rw [TelegramBase.isAckExpected, htype]
    rfl
  obtain ⟨-, -, hwin, -⟩ := @first_round _ q h.afterSyn h.state_eq (by rw [hq]; exact m.qq_primary)
  obtain ⟨hsent, hactive⟩ := hwin (hq.trans hqq.symm)
  rw [hack, if_pos rfl] at hactive
  refine ⟨hsent.trans (uartSendRemainingRequestPart_congr h.request_eq), ?_, ?_⟩
  · rw [hactive]
    rfl
  · rw [hactive]
    exact h.request_eq

/-- The last byte of the response: the node acknowledges it, and ends the telegram with a SYN. -/
theorem Started.acknowledges (h : Started s m) {sofar : List Call} {l : Call}
    (hbody : bytesOf (sofar ++ [l]) = wire.encodeAll m.answered)
    (hsilent : (s.after sofar).SwitchSilent l) :
    ((s.after sofar).processReceivedChar l).2.sent = [ack, syn] := by
  obtain ⟨t', hb, hs, hqq, hvalid⟩ :=
    h.opened.becomes_answered h.type_eq s.config.queueReceivedTelegram
  have hafter : ((s.after sofar).processReceivedChar l).1.receivingTelegram = t' := by
    rw [← after_concat, after_receivingTelegram, hbody, h.afterSyn.inEsc, wire.symbols_encodeAll]
    exact hb.1
  have hbefore := (h.notDue hbody rfl (List.cons_ne_nil l [])).1
  obtain ⟨pending, t, heq, hcase⟩ | ⟨real, hp, -⟩ := (s.after sofar).silent_or_processed l
  · -- an early return does not complete a response
    rw [heq] at hafter
    rw [← hafter] at hs
    rcases hcase with ⟨-, rfl, -⟩ | ⟨-, rfl, -⟩
    · exact absurd hs hbefore
    · cases hs
  · have hconfig : ((s.after sofar).processReceivedChar l).1.config = s.config := by
      rw [processReceivedChar_config, after_config]
    have hack : ((s.after sofar).processReceivedChar l).1.acknowledgeResponse = [ack, syn] := by
      rw [acknowledgeResponse, hafter, hconfig, if_pos ⟨hs, hqq.trans h.qq_eq⟩, hvalid]
      rfl
    have hanswer : handleResponse (s.after sofar).config.primaryAddress l.sendResponseHandlers
        ((s.after sofar).processReceivedChar l).1.receivingTelegram = [] := by
      rw [handleResponse, if_pos]
      left
      rw [hafter, hs]
      decide
    rw [Output.sent, hsilent.1, hsilent.2, hp.acknowledge, hp.answer, hack, hanswer]
    rfl

/-- Once the telegram is completed nothing is due. -/
theorem Started.notDue_end (h : Started s m) {calls : List Call}
    (hcalls : bytesOf calls = m.wireForm) :
    NotDue s.config (s.after calls).receivingTelegram := by
  obtain ⟨t', ⟨hrun, -⟩, hcarries⟩ := h.opened.becomes_message s.config.queueReceivedTelegram m
  have hafter : (s.after calls).receivingTelegram = t' := by
    rw [after_receivingTelegram, hcalls, h.afterSyn.inEsc, m.wireForm_eq, wire.symbols_encodeAll]
    exact hrun
  rw [NotDue, hafter, hcarries.completed]
  exact ⟨by decide, fun hs => absurd hs (by decide)⟩

/-- The calls of a transaction after the first SYN: the echo of QQ, everything up to the last byte
of the response, that byte, and the echo of the acknowledge. -/
theorem calls_of_wireForm (htype : m.sendCommand.getType = .primarySecondary) {calls : List Call}
    (hcalls : bytesOf calls = m.wireForm) :
    ∃ q echo l a, calls = q :: echo ++ [l] ++ [a] ∧ q.receivedByte = m.qq ∧ a.receivedByte = ack ∧
      bytesOf (q :: echo ++ [l]) = wire.encodeAll m.answered := by
  rw [wireForm_of_secondary htype] at hcalls
  obtain ⟨body, tail, rfl, hbody, htail⟩ := List.map_eq_append_iff.mp hcalls
  obtain ⟨a, rfl, ha⟩ := List.map_eq_singleton_iff.mp htail
  obtain ⟨vs, hvs⟩ := m.request_eq_cons
  have hcons : wire.encodeAll m.answered = m.qq :: wire.encodeAll (vs ++
      crc8From 0 (requestBytes m.qq m.zz m.command m.data) ::
        ack :: withCrc (responseBytes m.response)) := by
    rw [Message.answered, hvs, List.cons_append, List.cons_append, encodeAll_cons,
      ← uartSendChar_eq_encode, uartSendChar_primary m.qq_primary]
    simp
  rw [hcons] at hbody
  obtain ⟨q, body, rfl, hq, hrest⟩ := List.map_eq_cons_iff.mp hbody
  rcases List.eq_nil_or_concat' body with rfl | ⟨echo, l, rfl⟩
  · have hmem : ack ∈ wire.encodeAll (vs ++
        crc8From 0 (requestBytes m.qq m.zz m.command m.data) ::
          ack :: withCrc (responseBytes m.response)) :=
      ack_mem_encodeAll_iff.mpr ⟨ack, by simp, .inl rfl⟩
    rw [← hrest] at hmem
    cases hmem
  · exact ⟨q, echo, l, a, rfl, hq, ha, by rw [hcons]; exact hbody⟩

/-- What the node sends in answer to the calls after the first SYN. -/
theorem Started.transmissions (h : Started s m) {calls : List Call}
    (hcalls : bytesOf calls = m.wireForm)
    (hnosyn : NoSyn calls) : (outputs processReceivedChar s calls).map Output.sent =
      uartSendRemainingRequestPart m.sendCommand :: List.replicate (calls.length - 3) [] ++
        [[ack, syn], []] := by
  have hend := h.notDue_end hcalls
  obtain ⟨q, echo, l, a, rfl, hq, -, hbody⟩ := calls_of_wireForm h.type_eq hcalls
  obtain ⟨hsent, hwait, -⟩ := h.wins hq
  have hpart : ∀ sofar call rest, echo = sofar ++ call :: rest →
      NotDue (s.processReceivedChar q).1.config
        ((s.processReceivedChar q).1.after (sofar ++ [call])).receivingTelegram := by
    intro sofar call rest hsplit
    rw [processReceivedChar_config]
    have hpart : q :: echo ++ [l] = (q :: sofar ++ [call]) ++ (rest ++ [l]) := by
      rw [hsplit]
      simp
    exact h.notDue hbody hpart (by simp)
  obtain ⟨hecho, hsettling⟩ := settling_along echo (.inl hwait)
    (fun c hc => hnosyn c (by simp [hc])) hpart
  have hl := hnosyn l (by simp)
  have ha := hnosyn a (by simp)
  obtain ⟨hsettling', hsilent⟩ := hsettling.step hl.2 hl.1
  have hlast := h.acknowledges hbody hsilent
  obtain ⟨-, hsilent'⟩ := hsettling'.step ha.2 ha.1
  have hfinal :
      (((s.after (q :: echo)).processReceivedChar l).1.processReceivedChar a).2.sent = [] := by
    refine SwitchSilent.sent_eq hsilent' ?_
    have hconfig : ((s.after (q :: echo)).processReceivedChar l).1.config = s.config := by
      rw [processReceivedChar_config, after_config]
    show NotDue ((s.after (q :: echo)).processReceivedChar l).1.config _
    rw [hconfig, ← after_concat, ← after_concat]
    exact hend
  have hlength : (q :: echo ++ [l] ++ [a]).length - 3 = echo.length := by simp
  rw [hlength, outputs_concat, outputs_concat, List.map_append, List.map_append, outputs_cons,
    List.map_cons, hsent, hecho]
  have hrun : run processReceivedChar s (q :: echo) = s.after (q :: echo) := rfl
  have hrun' : run processReceivedChar s (q :: echo ++ [l]) =
      ((s.after (q :: echo)).processReceivedChar l).1 := after_concat s (q :: echo) l
  rw [hrun, hrun', List.map_singleton, List.map_singleton, hlast, hfinal]
  simp

/-- The command is completed, and the bus locked to the end of the transaction. -/
theorem Started.completes (h : Started s m) {calls : List Call}
    (hcalls : bytesOf calls = m.wireForm)
    (hnosyn : NoSyn calls) : ∃ done rest, calls = done ++ rest ∧
      (s.after done).activeCommand.state = .endCompleted ∧
      (s.after done).activeCommand.request = m.sendCommand.request ∧
      ∀ more, more <+: rest → (s.after (done ++ more)).lockCounter = s.config.maxLockCounter := by
  obtain ⟨q, echo, l, a, rfl, hq, ha, -⟩ := calls_of_wireForm h.type_eq hcalls
  obtain ⟨-, hwait, hrequest⟩ := h.wins hq
  obtain ⟨done, rest, hsplit, hcompleted, hlock⟩ := completed_along (echo ++ [l] ++ [a]) hwait
    (fun c hc => hnosyn c (by simp at hc ⊢; tauto)) (by simp [bytesOf, ha])
  refine ⟨q :: done, rest, ?_, ?_, ?_, fun more hmore => ?_⟩
  · rw [List.cons_append, List.cons_append, hsplit]
    rfl
  · show ((s.processReceivedChar q).1.after done).activeCommand.state = _
    rw [hcompleted]
    rfl
  · show ((s.processReceivedChar q).1.after done).activeCommand.request = _
    rw [hcompleted]
    exact hrequest
  · have hlock' := hlock more hmore
    rwa [processReceivedChar_config] at hlock'

/-- The telegram is queued on the SYN after it, and no other before. -/
theorem Started.queues (h : Started s m) (hq : s.config.queueReceivedTelegram = true)
    {calls : List Call} (hcalls : bytesOf calls = m.wireForm) {final : Call}
    (hfinal : final.receivedByte = syn) :
    ∃ t, s.queuedDuring calls = [] ∧ ((s.after calls).processReceivedChar final).2.queued = [t] ∧
      Carries t m := by
  have hbytes : bytesOf (calls ++ [final]) = m.wireForm ++ [syn] := by
    rw [bytesOf, List.map_append, List.map_singleton, hfinal]
    exact congrArg (· ++ [syn]) hcalls
  obtain ⟨t, hheard, hcarries⟩ := h.opened.hears_message m
  have hall : s.queuedDuring (calls ++ [final]) = [t] := by
    rw [queuedDuring_eq, hbytes, h.afterSyn.inEsc, hq]
    exact hheard
  have hnone : s.queuedDuring calls = [] := by
    obtain ⟨t', ⟨-, hout⟩, -⟩ := h.opened.becomes_message true m
    rw [queuedDuring_eq, hcalls, h.afterSyn.inEsc, hq, m.wireForm_eq, wire.symbols_encodeAll]
    exact hout
  rw [queuedDuring_concat, hnone, List.nil_append] at hall
  exact ⟨t, hnone, hall, hcarries⟩

end Ebus

/-- `get_response_bytes` of a telegram that carries a message. -/
theorem Carries.getResponseBytes_eq {t : Telegram} {m : Message} (h : Carries t m)
    (htype : m.sendCommand.getType = .primarySecondary) {start length : Byte}
    (hlen : start.toNat + min 4 length.toNat ≤ m.response.length) :
    (getResponseBytes t start length).toNat =
      littleEndian ((m.response.drop start.toNat).take (min 4 length.toNat)) := by
  have ht : t.getType = .primarySecondary := by
    have hzz : m.sendCommand.getZz = m.zz := SendCommand.getZz_new _ _ _ m.data_length
    rw [← htype, TelegramBase.getType, TelegramBase.getType, h.zz, hzz]
  apply getResponseBytes_toNat
  · rw [List.length_take, List.length_drop]
    omega
  · intro k hk
    rw [List.length_take, List.length_drop] at hk
    have hpos : start + BitVec.ofNat 8 k = BitVec.ofNat 8 (start.toNat + k) := by
      rw [BitVec.ofNat_add, BitVec.ofNat_toNat, BitVec.setWidth_eq]
    rw [hpos, h.response ht (start.toNat + k) (by omega), List.getElem_take, List.getElem_drop]

namespace Ebus

variable {s : Ebus} {m : Message}

/-- The first SYN on a clean bus. -/
theorem started {config : Config} (hs : Reachable config s) (hesc : s.inEsc = false)
    (hidle : Idle s.receivingTelegram) (hcount : s.charCountSinceLastSyn ≠ 1)
    (hlock : s.lockCounter ≤ 1) (hstate : s.activeCommand.state = .waitForSend)
    (hcommand : s.activeCommand.request = m.sendCommand.request)
    (hself : m.qq = config.primaryAddress) (htype : m.sendCommand.getType = .primarySecondary)
    (hzz : m.zz ≠ toSecondary config.primaryAddress) {first : Call}
    (hfirst : first.receivedByte = syn) :
    Started (s.processReceivedChar first).1 m ∧
      (s.processReceivedChar first).2.sent = [m.qq] := by
  have hqq : s.activeCommand.getQq = m.qq := by
    rw [TelegramBase.getQq, hcommand]
    exact SendCommand.getQq_new m.qq m.zz m.command m.data_length
  have hnormal : (s.countSyn syn).state = .normal := by
    rw [countSyn_syn, if_neg hcount]
  have hunlocked : (s.countSyn syn).lockCounter = 0 := by
    rw [countSyn_syn]
    show (if s.lockCounter > 0 ∧ s.charCountSinceLastSyn ≠ 1 then s.lockCounter - 1
      else s.lockCounter) = 0
    split <;> bv_omega
  obtain ⟨hafter, hactive, hsent⟩ := sends_qq hesc hfirst hstate hnormal hunlocked
    (by rw [hqq]; exact m.qq_primary)
  have hconfig : (s.processReceivedChar first).1.config = config := by
    rw [processReceivedChar_config, hs.config]
  obtain ⟨ss, hheard⟩ := hs.heard
  have hopen : Open (s.processReceivedChar first).1.receivingTelegram := by
    obtain ⟨hp, -, -⟩ := syn_slot hesc hfirst
    obtain ⟨-, ho⟩ | ⟨hnot, -⟩ := hear_syn true hheard
    · rw [hp.receivingTelegram, hfirst]
      exact ho
    · exact absurd hidle hnot
  rw [hqq] at hsent
  refine ⟨⟨hafter, hopen, ?_, ?_, ?_, ?_, htype⟩, hsent⟩
  · rw [hactive]
    rfl
  · rw [hactive]
    exact hcommand
  · rw [hconfig, hself]
  · rw [hconfig]
    exact hzz

/-- **A whole own transaction.**  From a clean bus, a node that has a command for a secondary is fed
a SYN, the wire form of the request with its response, and a SYN.  Before the last SYN it sends its
QQ, the encoded rest of the request on the echo of QQ, and ACK and SYN on the last byte of the
response; its command is completed and the bus locked from then on; on the last SYN it queues one
telegram, the first since the other SYN, which carries request and response, and from which
`get_response_bytes` reads the response. -/
theorem own_transaction {config : Config} (hq : config.queueReceivedTelegram = true)
    (hs : Reachable config s) (hesc : s.inEsc = false) (hidle : Idle s.receivingTelegram)
    (hcount : s.charCountSinceLastSyn ≠ 1) (hlock : s.lockCounter ≤ 1)
    (hstate : s.activeCommand.state = .waitForSend)
    (hcommand : s.activeCommand.request = m.sendCommand.request)
    (hself : m.qq = config.primaryAddress) (htype : m.sendCommand.getType = .primarySecondary)
    (hzz : m.zz ≠ toSecondary config.primaryAddress) {first final : Call} {calls : List Call}
    (hfirst : first.receivedByte = syn) (hcalls : bytesOf calls = m.wireForm)
    (hd : ∀ call ∈ calls, HandsOver call) (hfinal : final.receivedByte = syn) :
    (outputs processReceivedChar s (first :: calls)).map Output.sent =
        [m.qq] :: wire.encodeAll m.request.tail ::
          List.replicate (calls.length - 3) [] ++ [[ack, syn], []] ∧
      (∃ done rest, calls = done ++ rest ∧
        (s.after (first :: done)).activeCommand.state = .endCompleted ∧
        (s.after (first :: done)).activeCommand.request = m.sendCommand.request ∧
        ∀ more, more <+: rest →
          (s.after (first :: done ++ more)).lockCounter = config.maxLockCounter) ∧
      ∃ t, (s.after [first]).queuedDuring calls = [] ∧
        ((s.after (first :: calls)).processReceivedChar final).2.queued = [t] ∧ Carries t m ∧
        ∀ start length : Byte, start.toNat + min 4 length.toNat ≤ m.response.length →
          (getResponseBytes t start length).toNat =
            littleEndian ((m.response.drop start.toNat).take (min 4 length.toNat)) := by
  obtain ⟨hstarted, hsent⟩ :=
    started hs hesc hidle hcount hlock hstate hcommand hself htype hzz hfirst
  have hconfig : (s.processReceivedChar first).1.config = config := by
    rw [processReceivedChar_config, hs.config]
  have hnosyn : NoSyn calls := by
    intro call hcall
    refine ⟨fun hsyn => ?_, hd call hcall⟩
    have hmem : call.receivedByte ∈ m.wireForm := hcalls ▸ List.mem_map_of_mem hcall
    rw [hsyn, m.wireForm_eq] at hmem
    exact syn_not_mem_encodeAll _ hmem
  refine ⟨?_, ?_, ?_⟩
  · rw [outputs_cons, List.map_cons, hsent, hstarted.transmissions hcalls hnosyn,
      Message.sendCommand, uartSendRemainingRequestPart_new _ _ _ m.data_length]
    rfl
  · obtain ⟨done, rest, hsplit, hcompleted, hrequest, hlocked⟩ := hstarted.completes hcalls hnosyn
    refine ⟨done, rest, hsplit, hcompleted, hrequest, fun more hmore => ?_⟩
    rw [← hconfig]
    exact hlocked more hmore
  · obtain ⟨t, hnone, hqueued, hcarries⟩ :=
      hstarted.queues (by rw [hconfig]; exact hq) hcalls hfinal
    exact ⟨t, hnone, hqueued, hcarries, fun _ _ => hcarries.getResponseBytes_eq htype⟩

/-- The node 0x10 has dequeued the request of `sampleMessage`. -/
def readyNode : Ebus :=
  (init (defaultConfig 0x10#8)).after
    [⟨0x00#8, some sampleMessage.sendCommand, []⟩, ⟨0x00#8, none, []⟩]

/-- It sends its QQ, the rest of the request, and in the end ACK and SYN. -/
theorem readyNode_transmits :
    (outputs processReceivedChar readyNode
        (⟨syn, none, []⟩ :: quiet sampleMessage.wireForm)).map Output.sent =
      [0x10#8] :: wire.encodeAll sampleMessage.request.tail ::
        List.replicate ((quiet sampleMessage.wireForm).length - 3) [] ++ [[ack, syn], []] :=
  (own_transaction (s := readyNode) (m := sampleMessage) rfl
    (reachable_after (defaultConfig 0x10#8) _)
    (by decide +kernel) (by decide +kernel) (by decide +kernel) (by decide +kernel)
    (by decide +kernel) (by decide +kernel) rfl (by decide +kernel) (by decide +kernel)
    (show Call.receivedByte ⟨syn, none, []⟩ = syn from rfl) (bytesOf_quiet _) (by decide +kernel)
    (show Call.receivedByte ⟨syn, none, []⟩ = syn from rfl)).1

end Ebus

end EsphomeEbus
