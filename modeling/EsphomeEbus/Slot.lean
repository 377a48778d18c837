import EsphomeEbus.Arbitration

/-!
# One node in the slots of an arbitration

A SYN, the slot after it, a second SYN and the slot after that: what a node sends in each and where
it leaves its command.  Around a SYN no telegram is under way, so nothing but the switch over the
active command sends.

* `syn_slot`, `symbol_slot`: what a node sends is what that switch sends;
* `sends_qq`, `first_round`, `answers_second_syn`, `second_round`: a node that takes part;
* `benched_syn`, `benched_symbol`: a node that does not.
-/

namespace EsphomeEbus

open Elf

/-! ### The receiver around a SYN -/

/-- No telegram is under way: the receiver is before, at the start of or after one. -/
def Telegram.Apart (t : Telegram) : Prop :=
  t.state ≠ .waitForRequestData ∧ t.state ≠ .waitForRequestAck ∧
    t.state ≠ .waitForResponseData ∧ t.state ≠ .waitForResponseAck

/-- Nobody is expected to acknowledge anything. -/
def Telegram.NoAckDue (t : Telegram) : Prop :=
  t.state ≠ .waitForRequestAck ∧ t.state ≠ .waitForResponseAck

theorem Telegram.apart_receive_syn (t : Telegram) (v : Byte) : (t.receive syn v).Apart := by
  rcases t.receive_syn v with ⟨h, ht⟩ | ⟨_, ht⟩ | ⟨newState, h, ht⟩
  · rw [ht]
    exact ⟨h.requestData, h.requestAck, h.responseData, h.responseAck⟩
  · rw [ht]
    simp [Apart, setState]
  · rw [ht]
    cases h <;> simp [Apart, setState]

theorem Telegram.Apart.refresh {t : Telegram} (h : t.Apart) : t.refresh.Apart := by
  rw [Telegram.refresh]
  split
  · simp [Apart, Telegram.new]
  · exact h

/-- A symbol opens a telegram, is the first of one, or is ignored. -/
theorem Telegram.Apart.receives {t : Telegram} (h : t.Apart) (raw v : Byte) :
    t.receive raw v = t ∨ t.receive raw v = t.setState .waitForArbitration ∨
    (t.state = .waitForArbitration ∧
      t.receive raw v = (t.pushReqData v).setState .waitForRequestData) := by
  obtain ⟨h₁, h₂, h₃, h₄⟩ := h
  have hreceives := t.receives raw v
  generalize t.receive raw v = t' at hreceives ⊢
  cases hreceives with
  | rests => exact .inl rfl
  | opens => exact .inr (.inl rfl)
  | first hs => exact .inr (.inr ⟨hs, rfl⟩)
  | request hs => exact absurd hs h₁
  | requestEnd hs => exact absurd hs h₁
  | acknowledged hs => exact absurd hs h₂
  | response hs => exact absurd hs h₃
  | responseEnd hs => exact absurd hs h₃
  | ends h => cases h <;> contradiction

/-- The first symbol of a telegram does not end it. -/
theorem Telegram.Apart.receive {t : Telegram} (h : t.Apart) (raw v : Byte) :
    (t.receive raw v).NoAckDue := by
  rcases h.receives raw v with ht | ht | ⟨_, ht⟩
  · rw [ht]
    exact ⟨h.2.1, h.2.2.2⟩
  · rw [ht]
    simp [NoAckDue, Telegram.setState]
  · rw [ht]
    simp [NoAckDue, Telegram.setState]

/-! ### Slots -/

namespace Ebus

variable {s : Ebus} {call : Call}

/-- With no acknowledge due, the node sends what the switch over its command sends. -/
theorem Processed.sent_eq {real : Byte} (hp : Processed s call real)
    (hn : (s.processReceivedChar call).1.receivingTelegram.NoAckDue) :
    (s.processReceivedChar call).2.sent =
      (s.drivenBy call real).qq ++ (s.drivenBy call real).request := by
  rw [Output.sent, hp.qq, hp.request, hp.acknowledge, hp.answer, acknowledgeResponse,
    if_neg (fun h => hn.2 h.1), handleResponse, if_pos (.inl hn.1), List.append_nil,
    List.append_nil]

/-- The node has just processed a SYN. -/
structure AfterSyn (s : Ebus) : Prop where
  inEsc : s.inEsc = false
  charCount : s.charCountSinceLastSyn = 0
  apart : s.receivingTelegram.Apart

/-- A slot with a SYN in it. -/
theorem syn_slot (hesc : s.inEsc = false) (hb : call.receivedByte = syn) :
    Processed s call syn ∧ AfterSyn (s.processReceivedChar call).1 ∧
      (s.processReceivedChar call).2.sent =
        (s.drivenBy call syn).qq ++ (s.drivenBy call syn).request := by
  have hp := processed_plain call hesc (by rw [hb]; decide)
  rw [hb] at hp
  have hapart : (s.processReceivedChar call).1.receivingTelegram.Apart := by
    rw [hp.receivingTelegram, hb]
    exact Telegram.apart_receive_syn _ _
  refine ⟨hp, ⟨hp.inEsc, ?_, hapart⟩, hp.sent_eq ⟨hapart.2.1, hapart.2.2.2⟩⟩
  rw [hp.charCount, hb, countSyn_syn]

/-- The slot after a SYN, with another byte in it. -/
theorem symbol_slot (h : AfterSyn s) (hsyn : call.receivedByte ≠ syn)
    (hesc : call.receivedByte ≠ esc) : Processed s call call.receivedByte ∧
      (s.processReceivedChar call).1.charCountSinceLastSyn = 1 ∧
      (s.processReceivedChar call).2.sent = (s.drivenBy call call.receivedByte).qq ++
        (s.drivenBy call call.receivedByte).request := by
  have hp := processed_plain call h.inEsc hesc
  refine ⟨hp, ?_, hp.sent_eq ?_⟩
  · rw [hp.charCount, countSyn_of_ne_syn _ hsyn]
    show s.charCountSinceLastSyn + 1 = 1
    rw [h.charCount]
    rfl
  · rw [hp.receivingTelegram]
    exact h.apart.refresh.receive _ _

theorem uartSendChar_of_ne {b : Byte} (hsyn : b ≠ syn) (hesc : b ≠ esc) : uartSendChar b = [b] := by
  simp [uartSendChar, uartSendCharCrc, hsyn, hesc]

theorem uartSendChar_primary {b : Byte} (h : isPrimary b = true) : uartSendChar b = [b] :=
  uartSendChar_of_ne (isPrimary_ne_syn h) (isPrimary_ne_esc h)

/-- The first SYN: the node sends its QQ. -/
theorem sends_qq (hesc : s.inEsc = false) (hb : call.receivedByte = syn)
    (hs : s.activeCommand.state = .waitForSend) (hnormal : (s.countSyn syn).state = .normal)
    (hlock : (s.countSyn syn).lockCounter = 0) (hq : isPrimary s.activeCommand.getQq = true) :
    AfterSyn (s.processReceivedChar call).1 ∧
      (s.processReceivedChar call).1.activeCommand = s.activeCommand.setState .waitForArbitration ∧
      (s.processReceivedChar call).2.sent = [s.activeCommand.getQq] := by
  obtain ⟨hp, hafter, hsent⟩ := syn_slot hesc hb
  have hnext := nextCommand_of_unfinished (TelegramBase.isFinished_of_state hs (by decide))
    call.dequeued
  have hdriven : s.drivenBy call syn =
      { (s.beforeDrive call syn).setCommandState .waitForArbitration with
        qq := uartSendChar (s.nextCommand call.dequeued).getQq } := by
    have hstate : (s.beforeDrive call syn).activeCommand.state = .waitForSend :=
      (congrArg (fun c : SendCommand => c.state) hnext).trans hs
    rw [drivenBy, driveCommand_waitForSend _ hstate, if_pos]
    · rfl
    · rw [beforeDrive, hb]
      exact ⟨rfl, hnormal, hlock⟩
  refine ⟨hafter, ?_, ?_⟩
  · rw [hp.activeCommand, hdriven]
    show (s.nextCommand call.dequeued).setState _ = _
    rw [hnext]
  · rw [hsent, hdriven]
    show uartSendChar (s.nextCommand call.dequeued).getQq ++ [] = _
    rw [hnext, uartSendChar_primary hq]
    rfl

/-- The command waits for another opportunity, or has given up. -/
def Benched (c : SendCommand) : Prop := c.state = .waitForSend ∨ c.state = .endSendFailed

theorem benched_retryOrFail : Benched s.retryOrFail.activeCommand := retryOrFail_state

/-- The slot after it: the node wins, or it is eligible for a second round, or it is benched. -/
theorem first_round (h : AfterSyn s) (hs : s.activeCommand.state = .waitForArbitration)
    (hb : isPrimary call.receivedByte = true) :
    (s.processReceivedChar call).1.inEsc = false ∧
      (s.processReceivedChar call).1.charCountSinceLastSyn = 1 ∧
      (call.receivedByte = s.activeCommand.getQq →
        (s.processReceivedChar call).2.sent = uartSendRemainingRequestPart s.activeCommand ∧
          (s.processReceivedChar call).1.activeCommand = s.activeCommand.setState
            (if s.activeCommand.isAckExpected then .waitForCommandAck else .endCompleted)) ∧
      (call.receivedByte ≠ s.activeCommand.getQq →
        (s.processReceivedChar call).2.sent = [] ∧
          (getPriorityClass call.receivedByte = getPriorityClass s.activeCommand.getQq →
            (s.processReceivedChar call).1.activeCommand =
              s.activeCommand.setState .waitForArbitration2nd) ∧
          (getPriorityClass call.receivedByte ≠ getPriorityClass s.activeCommand.getQq →
            Benched (s.processReceivedChar call).1.activeCommand)) := by
  obtain ⟨hp, hcount, hsent⟩ := symbol_slot h (isPrimary_ne_syn hb) (isPrimary_ne_esc hb)
  have hnext := nextCommand_of_unfinished (TelegramBase.isFinished_of_state hs (by decide))
    call.dequeued
  have hactive : (s.beforeDrive call call.receivedByte).activeCommand = s.activeCommand := hnext
  have hdriven : s.drivenBy call call.receivedByte = _ :=
    driveCommand_waitForArbitration (s := s.beforeDrive call call.receivedByte) _
      (by rw [hactive, hs])
  rw [hactive] at hdriven
  refine ⟨hp.inEsc, hcount, fun hwin => ⟨?_, ?_⟩,
    fun hlose => ⟨?_, fun hclass => ?_, fun hclass => ?_⟩⟩
  · rw [hsent, hdriven, if_pos hwin, startRequest_sent, hactive]
  · rw [hp.activeCommand, hdriven, if_pos hwin, startRequest_activeCommand, hactive]
  · rw [hsent, hdriven, if_neg hlose]
    split <;> rfl
  · rw [hp.activeCommand, hdriven, if_neg hlose, if_pos hclass]
    show (s.beforeDrive call call.receivedByte).activeCommand.setState _ = _
    rw [hactive]
  · rw [hp.activeCommand, hdriven, if_neg hlose, if_neg hclass]
    exact benched_retryOrFail

/-- The second SYN: an eligible node sends its QQ again. -/
theorem answers_second_syn (hesc : s.inEsc = false) (hb : call.receivedByte = syn)
    (hs : s.activeCommand.state = .waitForArbitration2nd)
    (hq : isPrimary s.activeCommand.getQq = true) :
    AfterSyn (s.processReceivedChar call).1 ∧
      (s.processReceivedChar call).1.activeCommand = s.activeCommand ∧
      (s.processReceivedChar call).2.sent = [s.activeCommand.getQq] := by
  obtain ⟨hp, hafter, hsent⟩ := syn_slot hesc hb
  have hnext := nextCommand_of_unfinished (TelegramBase.isFinished_of_state hs (by decide))
    call.dequeued
  have hactive : (s.beforeDrive call syn).activeCommand = s.activeCommand := hnext
  have hdriven : s.drivenBy call syn = _ :=
    driveCommand_waitForArbitration2nd (s := s.beforeDrive call syn) _ (by rw [hactive, hs])
  rw [if_pos hb, hactive] at hdriven
  refine ⟨hafter, ?_, ?_⟩
  · rw [hp.activeCommand, hdriven]
    exact hactive
  · rw [hsent, hdriven, uartSendChar_primary hq]
    rfl

/-- The slot after it: the node wins, or it sends nothing. -/
theorem second_round (h : AfterSyn s) (hs : s.activeCommand.state = .waitForArbitration2nd)
    (hb : isPrimary call.receivedByte = true) :
    (s.processReceivedChar call).2.sent =
      if call.receivedByte = s.activeCommand.getQq then uartSendRemainingRequestPart s.activeCommand
      else [] := by
  obtain ⟨hp, hcount, hsent⟩ := symbol_slot h (isPrimary_ne_syn hb) (isPrimary_ne_esc hb)
  have hnext := nextCommand_of_unfinished (TelegramBase.isFinished_of_state hs (by decide))
    call.dequeued
  have hactive : (s.beforeDrive call call.receivedByte).activeCommand = s.activeCommand := hnext
  have hdriven : s.drivenBy call call.receivedByte = _ :=
    driveCommand_waitForArbitration2nd (s := s.beforeDrive call call.receivedByte) _
      (by rw [hactive, hs])
  rw [if_neg (isPrimary_ne_syn hb), hactive] at hdriven
  rw [hsent, hdriven]
  split
  · rw [startRequest_sent, hactive]
  · rfl

/-- A benched command stays benched where no SYN of the normal kind is heard, also when it has
failed and another one is dequeued. -/
theorem stays_benched (real : Byte) (hs : Benched s.activeCommand) (hd : HandsOver call)
    (hkind : call.receivedByte = syn → (s.countSyn syn).state = .arbitration) :
    Benched (s.drivenBy call real).activeCommand ∧
      (s.drivenBy call real).qq ++ (s.drivenBy call real).request = [] := by
  have hbenched : Benched (s.nextCommand call.dequeued) := by
    rcases s.nextCommand_cases call.dequeued with h | ⟨-, h⟩
    · rwa [h]
    · exact .inl (hd _ h).1
  have hstay : s.drivenBy call real = (s.beforeDrive call real).stay := by
    rcases hbenched with hstate | hstate
    · have hdriven : s.drivenBy call real = _ :=
        driveCommand_waitForSend (s := s.beforeDrive call real) _ hstate
      rw [hdriven, if_neg]
      rintro ⟨hb, hnormal, -⟩
      rw [beforeDrive, hb] at hnormal
      exact absurd ((hkind hb).symm.trans hnormal) (by decide)
    · exact driveCommand_finished (s := s.beforeDrive call real) _
        (TelegramBase.isFinished_of_end hstate (by decide))
  rw [hstay]
  exact ⟨hbenched, rfl⟩

/-- The second SYN: a benched node does not start. -/
theorem benched_syn (hesc : s.inEsc = false) (hb : call.receivedByte = syn)
    (hcount : s.charCountSinceLastSyn = 1) (hs : Benched s.activeCommand) (hd : HandsOver call) :
    AfterSyn (s.processReceivedChar call).1 ∧
      Benched (s.processReceivedChar call).1.activeCommand ∧
      (s.processReceivedChar call).2.sent = [] := by
  obtain ⟨hp, hafter, hsent⟩ := syn_slot hesc hb
  have hstays := stays_benched syn hs hd fun _ => by
    rw [countSyn_syn, if_pos hcount]
  refine ⟨hafter, ?_, ?_⟩
  · rw [hp.activeCommand]
    exact hstays.1
  · rw [hsent, hstays.2]

/-- The slot after it: a benched node sends nothing. -/
theorem benched_symbol (h : AfterSyn s) (hb : isPrimary call.receivedByte = true)
    (hs : Benched s.activeCommand) (hd : HandsOver call) :
    (s.processReceivedChar call).2.sent = [] := by
  obtain ⟨-, -, hsent⟩ := symbol_slot h (isPrimary_ne_syn hb) (isPrimary_ne_esc hb)
  rw [hsent]
  exact (stays_benched _ hs hd fun hsyn => absurd hsyn (isPrimary_ne_syn hb)).2

end Ebus

end EsphomeEbus
