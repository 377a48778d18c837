import EsphomeEbus.Message

/-!
# The active command, one call at a time

What a call of `process_received_char` can do to the active command, to the lock and to the counters
of the sending side, said once for the developments that follow whole runs.

* `Processed`: what a call that processes a symbol does to the sending side, and what it sends;
* `silent_or_processed`: every other call is an early return of the escape decoding, which leaves
  the sending side alone;
* `driveCommand_waitForSend`, …: the switch over the active command, state by state, and `drives`,
  everything it can do;
* `request_sent`: everything a call that sends a request does.
-/

namespace EsphomeEbus

open Elf Stuffing

/-- The command has sent its QQ and waits to see whether it was heard. -/
def Arbitrating (c : TelegramBase) : Prop :=
  c.state = .waitForArbitration ∨ c.state = .waitForArbitration2nd

instance (c : TelegramBase) : Decidable (Arbitrating c) := inferInstanceAs (Decidable (_ ∨ _))

theorem not_arbitrating_of_state {c : TelegramBase} {state : TelegramState} (hs : c.state = state)
    (h : ¬ (state = .waitForArbitration ∨ state = .waitForArbitration2nd)) : ¬ Arbitrating c := by
  rw [Arbitrating, hs]
  exact h

theorem not_arbitrating_setState (c : SendCommand) {state : TelegramState}
    (h : ¬ (state = .waitForArbitration ∨ state = .waitForArbitration2nd)) :
    ¬ Arbitrating (c.setState state).toTelegramBase := h

theorem Arbitrating.unfinished {c : SendCommand} (h : Arbitrating c.toTelegramBase) :
    c.isFinished = false := by
  rcases h with hs | hs
  · exact TelegramBase.isFinished_of_state hs (by decide)
  · exact TelegramBase.isFinished_of_state hs (by decide)

theorem uartSendChar_ne_nil (cr : Byte) : uartSendChar cr ≠ [] := by
  rw [uartSendChar_eq_encode, encode]
  split <;> exact List.cons_ne_nil _ _

theorem uartSendRemainingRequestPart_ne_nil (c : SendCommand) :
    uartSendRemainingRequestPart c ≠ [] := by
  intro h
  exact uartSendChar_ne_nil _ (List.append_eq_nil_iff.mp h).2

/-- The request sent depends on the command's buffer only, not on its state. -/
theorem uartSendRemainingRequestPart_congr {c c' : SendCommand} (h : c.request = c'.request) :
    uartSendRemainingRequestPart c = uartSendRemainingRequestPart c' := by
  obtain ⟨⟨state, request, wait⟩, tries⟩ := c
  obtain ⟨⟨state', request', wait'⟩, tries'⟩ := c'
  subst h
  rfl

namespace Ebus

variable (s : Ebus) (call : Call) (b real : Byte)

/-! ### Symbols and early returns -/

/-- The switch over the active command is blind to the escape flag. -/
theorem drivenBy_inEsc (pending : Bool) :
    ({ s with inEsc := pending } : Ebus).drivenBy call real = s.drivenBy call real := by
  unfold drivenBy beforeDrive countSyn
  split <;> rfl

/-- The call has processed a symbol with the value `real`: this is all it did to the sending side,
and all it sent. -/
structure Processed (s : Ebus) (call : Call) (real : Byte) : Prop where
  inEsc : (s.processReceivedChar call).1.inEsc = false
  charCount : (s.processReceivedChar call).1.charCountSinceLastSyn =
    (s.countSyn call.receivedByte).charCountSinceLastSyn
  lockCounter : (s.processReceivedChar call).1.lockCounter = (s.drivenBy call real).lockCounter
  activeCommand : (s.processReceivedChar call).1.activeCommand =
    (s.drivenBy call real).activeCommand
  receivingTelegram : (s.processReceivedChar call).1.receivingTelegram =
    s.receivingTelegram.refresh.receive call.receivedByte real
  qq : (s.processReceivedChar call).2.qq = (s.drivenBy call real).qq
  request : (s.processReceivedChar call).2.request = (s.drivenBy call real).request
  acknowledge : (s.processReceivedChar call).2.acknowledge =
    (s.processReceivedChar call).1.acknowledgeResponse
  answer : (s.processReceivedChar call).2.answer = handleResponse s.config.primaryAddress
    call.sendResponseHandlers (s.processReceivedChar call).1.receivingTelegram

theorem countSyn_charCount_inEsc (pending : Bool) :
    (({ s with inEsc := pending } : Ebus).countSyn b).charCountSinceLastSyn =
      (s.countSyn b).charCountSinceLastSyn := by
  rw [countSyn, countSyn]
  split <;> rfl

theorem processed_of_eq {s : Ebus} {call : Call} {real : Byte}
    (h : s.processReceivedChar call = { s with inEsc := false }.processSymbol call real) :
    Processed s call real where
  inEsc := by rw [h, processSymbol_inEsc]
  charCount := by
    rw [h, processSymbol_fst, beforeDrive]
    exact s.countSyn_charCount_inEsc _ false
  lockCounter := by rw [h, processSymbol_fst, drivenBy_inEsc]
  activeCommand := by rw [h, processSymbol_fst, drivenBy_inEsc]
  receivingTelegram := by rw [h, processSymbol_receivingTelegram]
  qq := by rw [h, processSymbol_snd, drivenBy_inEsc]
  request := by rw [h, processSymbol_snd, drivenBy_inEsc]
  acknowledge := by rw [h, processSymbol_snd]
  answer := by rw [h, processSymbol_snd]

/-- A call returns early, with the sending side as it was and nothing sent, or it processes a
symbol. -/
theorem silent_or_processed :
    (∃ pending t, s.processReceivedChar call =
        ({ s with inEsc := pending, receivingTelegram := t }, {}) ∧
      (pending = true ∧ t = s.receivingTelegram ∧ s.inEsc = false ∧ call.receivedByte = esc ∨
        pending = false ∧ t = .new ∧ s.inEsc = true ∧ call.receivedByte ≠ 0x00#8 ∧
          call.receivedByte ≠ 0x01#8)) ∨
    ∃ real, Processed s call real ∧
      (s.inEsc = false ∧ call.receivedByte ≠ esc ∧ real = call.receivedByte ∨
        s.inEsc = true ∧ (call.receivedByte = 0x00#8 ∨ call.receivedByte = 0x01#8)) := by
  obtain ⟨he, hb, h⟩ | ⟨he, h0, h1, h⟩ | ⟨he, hb, h⟩ | ⟨real, he, hb, h⟩ :=
    s.processReceivedChar_cases call
  · exact .inl ⟨true, s.receivingTelegram, h, .inl ⟨rfl, rfl, he, hb⟩⟩
  · exact .inl ⟨false, .new, h, .inr ⟨rfl, rfl, he, h0, h1⟩⟩
  · have heq : ({ s with inEsc := false } : Ebus) = s := by
      cases s
      simp_all
    exact .inr ⟨call.receivedByte, processed_of_eq (by rw [heq, h]), .inl ⟨he, hb, rfl⟩⟩
  · refine .inr ⟨real, processed_of_eq h, .inr ⟨he, ?_⟩⟩
    rcases hb with ⟨hb, -⟩ | ⟨hb, -⟩
    · exact .inl hb
    · exact .inr hb

/-- A byte that neither opens an escape pair nor ends an invalid one completes a symbol. -/
theorem exists_processed {s : Ebus} {call : Call}
    (hplain : s.inEsc = false → call.receivedByte ≠ esc)
    (hpair : s.inEsc = true → call.receivedByte = 0x00#8 ∨ call.receivedByte = 0x01#8) :
    ∃ real, Processed s call real := by
  obtain ⟨-, -, -, ⟨-, -, he, hb⟩ | ⟨-, -, he, h0, h1⟩⟩ | ⟨real, hp, -⟩ :=
    s.silent_or_processed call
  · exact absurd hb (hplain he)
  · rcases hpair he with hb | hb
    · exact absurd hb h0
    · exact absurd hb h1
  · exact ⟨real, hp⟩

/-- A plain byte is processed as it is. -/
theorem processed_plain {s : Ebus} (call : Call) (he : s.inEsc = false)
    (hb : call.receivedByte ≠ esc) : Processed s call call.receivedByte := by
  obtain ⟨_, _, -, ⟨-, -, -, h⟩ | ⟨-, -, h, -⟩⟩ | ⟨real, hp, ⟨-, -, rfl⟩ | ⟨h, -⟩⟩ :=
    s.silent_or_processed call
  · exact absurd h hb
  · rw [he] at h
    cases h
  · exact hp
  · rw [he] at h
    cases h

/-! ### The parts of a processed symbol -/

@[simp] theorem countSyn_syn : s.countSyn syn =
    { s with
      state := if s.charCountSinceLastSyn = 1 then .arbitration else .normal
      charCountSinceLastSyn := 0
      lockCounter := if s.lockCounter > 0 ∧ s.charCountSinceLastSyn ≠ 1 then s.lockCounter - 1
        else s.lockCounter } := by
  have hkind : (if s.charCountSinceLastSyn = 1 then EbusState.arbitration else .normal) = .normal ↔
      s.charCountSinceLastSyn ≠ 1 := by
    split <;> simp_all
  simp only [countSyn, if_pos, hkind]

theorem countSyn_of_ne_syn {b : Byte} (hb : b ≠ syn) :
    s.countSyn b = { s with charCountSinceLastSyn := s.charCountSinceLastSyn + 1 } := if_neg hb

theorem nextCommand_of_unfinished {s : Ebus} (h : s.activeCommand.isFinished = false)
    (dequeued : Option SendCommand) : s.nextCommand dequeued = s.activeCommand := by
  rw [nextCommand, if_neg (by simp [h])]

/-- The command a call works on is the active one, unless that was finished and another one waited
in the queue. -/
theorem nextCommand_cases (dequeued : Option SendCommand) :
    s.nextCommand dequeued = s.activeCommand ∨
      s.activeCommand.isFinished = true ∧ s.nextCommand dequeued ∈ dequeued := by
  rw [nextCommand]
  split
  · rename_i h
    cases dequeued with
    | none => exact .inl rfl
    | some c => exact .inr ⟨h.1, rfl⟩
  · exact .inl rfl

/-! ### The switch, state by state -/

variable {s}

theorem driveCommand_waitForSend (h : s.activeCommand.state = .waitForSend) : s.driveCommand b =
    if b = syn ∧ s.state = .normal ∧ s.lockCounter = 0 then
      { s.setCommandState .waitForArbitration with qq := uartSendChar s.activeCommand.getQq }
    else s.stay := by
  rw [driveCommand, h]

theorem driveCommand_waitForArbitration (h : s.activeCommand.state = .waitForArbitration) :
    s.driveCommand b =
      if b = s.activeCommand.getQq then s.startRequest
      else if getPriorityClass b = getPriorityClass s.activeCommand.getQq then
        s.setCommandState .waitForArbitration2nd
      else s.retryOrFail := by
  rw [driveCommand, h]

theorem driveCommand_waitForArbitration2nd (h : s.activeCommand.state = .waitForArbitration2nd) :
    s.driveCommand b =
      if b = syn then { s.stay with qq := uartSendChar s.activeCommand.getQq }
      else if b = s.activeCommand.getQq then s.startRequest
      else s.retryOrFail := by
  rw [driveCommand, h]

theorem driveCommand_waitForCommandAck (h : s.activeCommand.state = .waitForCommandAck) :
    s.driveCommand b =
      if b = ack then s.completeCommand else if b = syn then s.retryOrFail else s.stay := by
  rw [driveCommand, h]

/-- In every other state the switch does nothing. -/
theorem driveCommand_other (h₁ : s.activeCommand.state ≠ .waitForSend)
    (h₂ : ¬ Arbitrating s.activeCommand.toTelegramBase)
    (h₃ : s.activeCommand.state ≠ .waitForCommandAck) : s.driveCommand b = s.stay := by
  unfold Arbitrating at h₂
  unfold driveCommand
  cases hs : s.activeCommand.state <;> simp_all

/-- A finished command is left alone. -/
theorem driveCommand_finished (h : s.activeCommand.isFinished = true) :
    s.driveCommand b = s.stay := by
  have hne : ∀ {state : TelegramState}, 0 ≤ state.toInt → s.activeCommand.state ≠ state := by
    intro state h0 hs
    rw [TelegramBase.isFinished_of_state hs h0] at h
    cases h
  refine driveCommand_other b (hne (by decide)) ?_ (hne (by decide))
  rintro (hs | hs)
  · exact hne (by decide) hs
  · exact hne (by decide) hs

theorem startRequest_activeCommand : s.startRequest.activeCommand = s.activeCommand.setState
    (if s.activeCommand.isAckExpected then .waitForCommandAck else .endCompleted) := by
  rw [startRequest]
  split <;> rfl

theorem startRequest_sent : s.startRequest.qq ++ s.startRequest.request =
    uartSendRemainingRequestPart s.activeCommand := by
  unfold startRequest completeCommand setCommandState stay
  split <;> rfl

/-- The switch changes the state of the command and its number of tries, never its request. -/
theorem driveCommand_activeCommand_request :
    (s.driveCommand b).activeCommand.request = s.activeCommand.request := by
  have hstart : s.startRequest.activeCommand.request = s.activeCommand.request := by
    rw [startRequest_activeCommand]
    rfl
  cases hs : s.activeCommand.state with
  | waitForSend =>
    rw [driveCommand_waitForSend b hs]
    split <;> rfl
  | waitForArbitration =>
    rw [driveCommand_waitForArbitration b hs]
    split
    · exact hstart
    · split <;> rfl
  | waitForArbitration2nd =>
    rw [driveCommand_waitForArbitration2nd b hs]
    split
    · rfl
    · split
      · exact hstart
      · rfl
  | waitForCommandAck =>
    rw [driveCommand_waitForCommandAck b hs]
    split
    · rfl
    · split <;> rfl
  | _ =>
    rw [driveCommand_other b (by simp [hs]) (by simp [Arbitrating, hs]) (by simp [hs])]
    rfl

theorem retryOrFail_state : s.retryOrFail.activeCommand.state = .waitForSend ∨
    s.retryOrFail.activeCommand.state = .endSendFailed := by
  cases h : (s.activeCommand.canRetry s.config.maxTries).1
  · right
    simp [retryOrFail, SendCommand.setState, h]
  · left
    simp [retryOrFail, SendCommand.setState, h]

/-- Everything the switch can do with a byte. -/
inductive Drives (s : Ebus) (b : Byte) : Driven → Prop
  | stays : ¬ Arbitrating s.activeCommand.toTelegramBase → Drives s b s.stay
  | sendsQq : s.activeCommand.state = .waitForSend → b = syn → s.state = .normal →
      s.lockCounter = 0 → Drives s b { s.setCommandState .waitForArbitration with
        qq := uartSendChar s.activeCommand.getQq }
  | secondRound : s.activeCommand.state = .waitForArbitration →
      Drives s b (s.setCommandState .waitForArbitration2nd)
  | sendsQqAgain : s.activeCommand.state = .waitForArbitration2nd → b = syn →
      Drives s b { s.stay with qq := uartSendChar s.activeCommand.getQq }
  | wins : Arbitrating s.activeCommand.toTelegramBase → b = s.activeCommand.getQq →
      Drives s b s.startRequest
  | acknowledged : s.activeCommand.state = .waitForCommandAck → b = ack →
      Drives s b s.completeCommand
  | givesUp : Arbitrating s.activeCommand.toTelegramBase ∨
      s.activeCommand.state = .waitForCommandAck → Drives s b s.retryOrFail

variable (s) in
theorem drives : Drives s b (s.driveCommand b) := by
  cases hs : s.activeCommand.state with
  | waitForSend =>
    rw [driveCommand_waitForSend b hs]
    split
    · rename_i h
      exact .sendsQq hs h.1 h.2.1 h.2.2
    · exact .stays (by simp [Arbitrating, hs])
  | waitForArbitration =>
    rw [driveCommand_waitForArbitration b hs]
    split
    · rename_i hb
      exact .wins (.inl hs) hb
    · split
      · exact .secondRound hs
      · exact .givesUp (.inl (.inl hs))
  | waitForArbitration2nd =>
    rw [driveCommand_waitForArbitration2nd b hs]
    split
    · rename_i hb
      exact .sendsQqAgain hs hb
    · split
      · rename_i hb
        exact .wins (.inr hs) hb
      · exact .givesUp (.inl (.inr hs))
  | waitForCommandAck =>
    rw [driveCommand_waitForCommandAck b hs]
    split
    · rename_i hb
      exact .acknowledged hs hb
    · split
      · exact .givesUp (.inr hs)
      · exact .stays (by simp [Arbitrating, hs])
  | _ =>
    rw [driveCommand_other b (by simp [hs]) (by simp [Arbitrating, hs]) (by simp [hs])]
    exact .stays (by simp [Arbitrating, hs])

/-- The switch sends a request exactly when it has just seen its own QQ win. -/
theorem driveCommand_request (h : (s.driveCommand b).request ≠ []) :
    Arbitrating s.activeCommand.toTelegramBase ∧ b = s.activeCommand.getQq ∧
      s.driveCommand b = s.startRequest := by
  cases hs : s.activeCommand.state with
  | waitForSend =>
    rw [driveCommand_waitForSend b hs] at h
    split at h <;> exact absurd rfl h
  | waitForArbitration =>
    rw [driveCommand_waitForArbitration b hs] at h ⊢
    by_cases hb : b = s.activeCommand.getQq
    · exact ⟨.inl hs, hb, if_pos hb⟩
    · rw [if_neg hb] at h
      split at h <;> exact absurd rfl h
  | waitForArbitration2nd =>
    rw [driveCommand_waitForArbitration2nd b hs] at h ⊢
    by_cases hsyn : b = syn
    · rw [if_pos hsyn] at h
      exact absurd rfl h
    · rw [if_neg hsyn] at h ⊢
      by_cases hb : b = s.activeCommand.getQq
      · exact ⟨.inr hs, hb, if_pos hb⟩
      · rw [if_neg hb] at h
        exact absurd rfl h
  | waitForCommandAck =>
    rw [driveCommand_waitForCommandAck b hs] at h
    split at h
    · exact absurd rfl h
    · split at h <;> exact absurd rfl h
  | _ =>
    rw [driveCommand_other b (by simp [hs]) (by simp [Arbitrating, hs]) (by simp [hs])] at h
    exact absurd rfl h

/-- A command in the arbitration wins with its QQ. -/
theorem driveCommand_wins (harb : Arbitrating s.activeCommand.toTelegramBase) (hsyn : b ≠ syn)
    (hb : b = s.activeCommand.getQq) : s.driveCommand b = s.startRequest := by
  rcases harb with hs | hs
  · rw [driveCommand_waitForArbitration b hs, if_pos hb]
  · rw [driveCommand_waitForArbitration2nd b hs, if_neg hsyn, if_pos hb]

theorem startRequest_request :
    s.startRequest.request = uartSendRemainingRequestPart s.activeCommand := rfl

/-- **Everything a call that sends a request does** to the sending side. -/
theorem request_sent {call : Call} (h : (s.processReceivedChar call).2.request ≠ []) :
    Arbitrating (s.nextCommand call.dequeued).toTelegramBase ∧
      call.receivedByte = (s.nextCommand call.dequeued).getQq ∧
      (s.processReceivedChar call).2.request =
        uartSendRemainingRequestPart (s.nextCommand call.dequeued) ∧
      (s.processReceivedChar call).1.activeCommand = (s.nextCommand call.dequeued).setState
        (if (s.nextCommand call.dequeued).isAckExpected then .waitForCommandAck
          else .endCompleted) := by
  obtain ⟨pending, t, heq, -⟩ | ⟨real, hp, -⟩ := s.silent_or_processed call
  · rw [heq] at h
    exact absurd rfl h
  · rw [hp.request] at h
    obtain ⟨harb, hqq, hstart⟩ := driveCommand_request _ h
    have hdriven : s.drivenBy call real = (s.beforeDrive call real).startRequest := hstart
    refine ⟨harb, hqq, ?_, ?_⟩
    · rw [hp.request, hdriven]
      rfl
    · rw [hp.activeCommand, hdriven, startRequest_activeCommand]
      rfl

end Ebus

end EsphomeEbus
