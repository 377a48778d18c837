import EsphomeEbus.Reply
import EsphomeEbus.Command

/-!
# When a node answers, and how often

The two blocks at the end of `process_received_char` look at the state of the receiving telegram,
not at a change of it.  They act once all the same: the next symbol that is processed takes the
telegram out of the state they look at, and a call that processes none returns before them.

* `TelegramState.phase`: how far a telegram has come; `renewed_or_phase_le`: it only moves on, or
  makes room for another one;
* `answer_iff`, `acknowledge_iff`: the calls that answer, and what they send;
* `answered_once`: over whole runs.
-/

namespace EsphomeEbus

open Elf Transducer Stuffing

/-! ### How far a telegram has come -/

/-- The part of a telegram that is under way, counted from the SYN. -/
def TelegramState.phase : TelegramState → ℕ
  | waitForRequestData => 1
  | waitForRequestAck => 2
  | waitForResponseData => 3
  | waitForResponseAck => 4
  | waitForSyn | waitForSend | waitForArbitration | waitForArbitration2nd | waitForCommandAck
  | unknown => 0
  | _ => 5

theorem TelegramState.eq_requestAck_iff (state : TelegramState) :
    state = .waitForRequestAck ↔ state.phase = TelegramState.waitForRequestAck.phase := by
  cases state <;> decide

theorem TelegramState.eq_responseAck_iff (state : TelegramState) :
    state = .waitForResponseAck ↔ state.phase = TelegramState.waitForResponseAck.phase := by
  cases state <;> decide

theorem TelegramState.phase_le (state : TelegramState) : state.phase ≤ 5 := by
  cases state <;> decide

theorem TelegramState.phase_of_neg {state : TelegramState} (h : state.toInt < 0) :
    state.phase = 5 := by
  cases state <;> first | rfl | cases h

namespace Telegram

theorem refresh_of_unfinished {t : Telegram} (h : t.isFinished = false) : t.refresh = t := by
  rw [refresh, h]
  rfl

theorem refresh_of_finished {t : Telegram} (h : t.isFinished = true) : t.refresh = .new := by
  rw [refresh, h]
  rfl

/-- No byte has been stored, and none of a telegram is under way. -/
def Blank (t : Telegram) : Prop := t.state.phase = 0 ∧ t.request.pos = 0

/-- A symbol takes a telegram further, or leaves it where it is. -/
theorem Receives.phase_le {t t' : Telegram} {raw v : Byte} (h : t.Receives raw v t') :
    t.state.phase ≤ t'.state.phase := by
  cases h with
  | rests => exact Nat.le_refl _
  | opens hs => exact hs ▸ Nat.zero_le _
  | first hs => exact hs ▸ Nat.zero_le _
  | request => exact Nat.le_refl _
  | @requestEnd newState hs _ _ hnew =>
    rw [hs]
    show 1 ≤ newState.phase
    rw [hnew]
    cases (t.pushReqData v).isAckExpected <;> decide
  | acknowledged hs =>
    rw [hs]
    show 2 ≤ 3
    omega
  | response => exact Nat.le_refl _
  | responseEnd hs =>
    rw [hs]
    show 3 ≤ 4
    omega
  | @ends newState hends =>
    show t.state.phase ≤ newState.phase
    rw [TelegramState.phase_of_neg hends.neg]
    exact t.state.phase_le

/-- The same for the receiver, whose new telegram has stored nothing yet. -/
theorem phase_receive (t : Telegram) (raw v : Byte) :
    (t.refresh.receive raw v).Blank ∨
      t.state.phase ≤ (t.refresh.receive raw v).state.phase := by
  cases hf : t.isFinished with
  | true =>
    left
    rw [refresh_of_finished hf, receive, new]
    dsimp only
    split
    · exact ⟨rfl, rfl⟩
    · exact ⟨rfl, rfl⟩
  | false =>
    right
    rw [refresh_of_unfinished hf]
    exact (t.receives raw v).phase_le

/-- No symbol leaves a telegram waiting for the same acknowledge. -/
theorem receive_leaves_requestAck {t : Telegram} (hs : t.state = .waitForRequestAck)
    (raw v : Byte) : (t.receive raw v).state ≠ .waitForRequestAck := by
  simp only [receive, hs]
  split
  · split <;> simp [setState]
  · split <;> simp [setState]

theorem receive_leaves_responseAck {t : Telegram} (hs : t.state = .waitForResponseAck)
    (raw v : Byte) : (t.receive raw v).state ≠ .waitForResponseAck := by
  simp only [receive, hs]
  split
  · simp [setState]
  · split <;> simp [setState]

theorem isRequestComplete_setState {t : Telegram} (h : t.isRequestComplete = true)
    {newState : TelegramState} (hs : newState.toInt > 1) :
    (t.setState newState).isRequestComplete = true := by
  simp only [isRequestComplete, Bool.and_eq_true] at h ⊢
  refine ⟨⟨⟨?_, h.1.1.2⟩, h.1.2⟩, h.2⟩
  rw [Bool.or_eq_true, decide_eq_true_eq]
  exact .inl hs

/-- A telegram that a symbol makes wait for the acknowledge of its request has it complete. -/
theorem isRequestComplete_of_receive {t : Telegram} {raw v : Byte}
    (hs : t.state ≠ .waitForRequestAck) (h : (t.receive raw v).state = .waitForRequestAck) :
    (t.receive raw v).isRequestComplete = true := by
  have hreceives := t.receives raw v
  generalize t.receive raw v = t' at h hreceives
  cases hreceives with
  | rests => exact absurd h hs
  | opens => cases h
  | first => cases h
  | request => exact absurd h hs
  | @requestEnd newState _ _ hc _ =>
    obtain rfl : newState = .waitForRequestAck := h
    exact isRequestComplete_setState hc (by decide)
  | acknowledged => cases h
  | response => exact absurd h hs
  | responseEnd => cases h
  | @ends newState hends =>
    obtain rfl : newState = .waitForRequestAck := h
    cases hends

end Telegram

/-! ### What an answer is -/

/-- The answer to a request: a NACK if its checksum is wrong, or if the first handler with a reply
has none that fits; else an acknowledge, the length, the reply and its checksum. -/
def answerTo (handlers : List (Telegram → List Byte)) (t : Telegram) : List Byte :=
  if t.getRequestCrc ≠ t.request.crc then [nack]
  else
    match (handlers.map fun handler => handler t).find? (· ≠ []) with
    | none => [nack]
    | some reply =>
      if reply.length > responseBufferSize then [nack]
      else [ack, BitVec.ofNat 8 reply.length] ++ wire.encodeAll (reply ++ [replyCrc reply])

theorem findReply_eq (handlers : List (Telegram → List Byte)) (t : Telegram) :
    findReply handlers t = ((handlers.map fun handler => handler t).find? (· ≠ [])).getD [] := by
  induction handlers with
  | nil => rfl
  | cons handler handlers ih =>
    rw [findReply, List.map_cons, List.find?_cons, ih]
    cases hr : handler t with
    | nil => rfl
    | cons b reply => rfl

theorem answerTo_ne_nil (handlers : List (Telegram → List Byte)) (t : Telegram) :
    answerTo handlers t ≠ [] := by
  unfold answerTo
  split
  · exact List.cons_ne_nil _ _
  · split
    · exact List.cons_ne_nil _ _
    · split
      · exact List.cons_ne_nil _ _
      · exact List.cons_ne_nil _ _

theorem uartSendChar_length {reply : List Byte} (h : reply.length ≤ responseBufferSize) :
    uartSendChar (BitVec.ofNat 8 reply.length) = [BitVec.ofNat 8 reply.length] := by
  have hlen : (BitVec.ofNat 8 reply.length).toNat = reply.length :=
    toNat_byte (Nat.lt_of_le_of_lt h (by decide))
  have hne : ∀ b : Byte, b.toNat > responseBufferSize → BitVec.ofNat 8 reply.length ≠ b := by
    intro b hb heq
    rw [← heq, hlen] at hb
    omega
  have hesc : BitVec.ofNat 8 reply.length ≠ esc := hne esc (by decide)
  have hsyn : BitVec.ofNat 8 reply.length ≠ syn := hne syn (by decide)
  simp [uartSendChar, uartSendCharCrc, hesc, hsyn]

/-- `handle_response_` answers a complete request to this node. -/
theorem handleResponse_eq_answerTo {primaryAddress : Byte}
    (handlers : List (Telegram → List Byte)) {t : Telegram} (hs : t.state = .waitForRequestAck)
    (hz : t.getZz = toSecondary primaryAddress) (hc : t.isRequestComplete = true) :
    handleResponse primaryAddress handlers t = answerTo handlers t := by
  have hnack : uartSendChar nack = [nack] := rfl
  have hvalid : t.isRequestValid = decide (t.getRequestCrc = t.request.crc) := by
    rw [Telegram.isRequestValid, hc, Bool.true_and]
  rw [handleResponse, if_neg (by simp [hs, hz]), hvalid, answerTo, findReply_eq, hnack]
  by_cases hcrc : t.getRequestCrc = t.request.crc
  · simp only [hcrc, decide_true, Bool.not_true, Bool.false_eq_true, if_false, ne_eq,
      not_true_eq_false]
    cases hfind : (handlers.map fun handler => handler t).find? (· ≠ []) with
    | none => rfl
    | some reply =>
      have hne : reply.length ≠ 0 := by
        have hne := List.find?_some hfind
        simpa using hne
      simp only [Option.getD_some, hne, false_or]
      by_cases hlen : reply.length > responseBufferSize
      · rw [if_pos hlen, if_pos hlen]
      · rw [if_neg hlen, if_neg hlen, uartSendChar_length (Nat.not_lt.mp hlen), sendReply_eq,
          encodeAll_append, uartSendChar_eq_encode, uartSendChar_eq_encode]
        simp [replyCrc]
  · simp [hcrc]

/-! ### The calls that answer -/

namespace Ebus

variable (s : Ebus) (call : Call)

/-- The call takes the receiving telegram into a state it was not in. -/
def Enters (state : TelegramState) : Prop :=
  s.receivingTelegram.state ≠ state ∧
    (s.processReceivedChar call).1.receivingTelegram.state = state

variable {s call}

/-- An early return keeps the receiving telegram or drops it. -/
theorem newOrSame {pending : Bool} {t : Telegram} {P Q : Prop}
    (h : pending = true ∧ t = s.receivingTelegram ∧ P ∨ pending = false ∧ t = .new ∧ Q) :
    t = s.receivingTelegram ∨ t = .new := by
  rcases h with ⟨-, ht, -⟩ | ⟨-, ht, -⟩
  · exact .inl ht
  · exact .inr ht

/-- Only a symbol that is processed makes the receiver enter one of the states in which something is
expected. -/
theorem not_enters_of_silent {pending : Bool} {t : Telegram} {state : TelegramState}
    (h : s.processReceivedChar call = ({ s with inEsc := pending, receivingTelegram := t }, {}))
    (ht : t = s.receivingTelegram ∨ t = .new) (hs : state ≠ .waitForSyn) :
    ¬ s.Enters call state := by
  rintro ⟨hbefore, hafter⟩
  rw [h] at hafter
  rcases ht with rfl | rfl
  · exact hbefore hafter
  · exact hs hafter.symm

theorem refresh_ne {t : Telegram} {state : TelegramState} (h : t.state ≠ state)
    (hs : state ≠ .waitForSyn) : t.refresh.state ≠ state := by
  rw [Telegram.refresh]
  split
  · exact hs.symm
  · exact h

/-- A receiver that waits for the acknowledge of a request has just begun to, with the request
complete. -/
theorem Processed.enters_requestAck {real : Byte} (hp : Processed s call real)
    (h : (s.processReceivedChar call).1.receivingTelegram.state = .waitForRequestAck) :
    s.Enters call .waitForRequestAck ∧
      (s.processReceivedChar call).1.receivingTelegram.isRequestComplete = true := by
  have hbefore : s.receivingTelegram.state ≠ .waitForRequestAck := by
    intro hs
    rw [hp.receivingTelegram, Telegram.refresh_of_unfinished
      (TelegramBase.isFinished_of_state hs (by decide))] at h
    exact Telegram.receive_leaves_requestAck hs _ _ h
  refine ⟨⟨hbefore, h⟩, ?_⟩
  rw [hp.receivingTelegram] at h ⊢
  exact Telegram.isRequestComplete_of_receive (refresh_ne hbefore (by decide)) h

theorem Processed.enters_responseAck {real : Byte} (hp : Processed s call real)
    (h : (s.processReceivedChar call).1.receivingTelegram.state = .waitForResponseAck) :
    s.Enters call .waitForResponseAck := by
  refine ⟨fun hs => ?_, h⟩
  rw [hp.receivingTelegram, Telegram.refresh_of_unfinished
    (TelegramBase.isFinished_of_state hs (by decide))] at h
  exact Telegram.receive_leaves_responseAck hs _ _ h

/-- **The calls that answer a request** are those that make the receiver wait for its acknowledge,
with the node's own secondary address as its target. -/
theorem answer_iff : (s.processReceivedChar call).2.answer ≠ [] ↔
    s.Enters call .waitForRequestAck ∧
      (s.processReceivedChar call).1.receivingTelegram.getZz =
        toSecondary s.config.primaryAddress := by
  obtain ⟨pending, t, h, ht⟩ | ⟨real, hp, -⟩ := s.silent_or_processed call
  · have hnot : ¬ s.Enters call .waitForRequestAck :=
      not_enters_of_silent h (newOrSame ht) (by decide)
    rw [h]
    exact iff_of_false (fun hne => hne rfl) fun henters => by
      rw [← h] at henters
      exact hnot henters.1
  · rw [hp.answer]
    constructor
    · intro hne
      rw [handleResponse] at hne
      split at hne
      · exact absurd rfl hne
      · rename_i hdue
        rw [not_or, not_not, not_not] at hdue
        exact ⟨(hp.enters_requestAck hdue.1).1, hdue.2⟩
    · rintro ⟨henters, hz⟩
      rw [handleResponse_eq_answerTo _ henters.2 hz (hp.enters_requestAck henters.2).2]
      exact answerTo_ne_nil _ _

theorem answer_eq (h : (s.processReceivedChar call).2.answer ≠ []) :
    (s.processReceivedChar call).2.answer = answerTo call.sendResponseHandlers
      (s.processReceivedChar call).1.receivingTelegram := by
  obtain ⟨henters, hz⟩ := answer_iff.mp h
  obtain ⟨pending, t, heq, -⟩ | ⟨real, hp, -⟩ := s.silent_or_processed call
  · rw [heq] at h
    exact absurd rfl h
  · rw [hp.answer]
    exact handleResponse_eq_answerTo _ henters.2 hz (hp.enters_requestAck henters.2).2

/-- What the node sends when the response to its own request is complete. -/
theorem acknowledgeResponse_of_due {s : Ebus} (hs : s.receivingTelegram.state = .waitForResponseAck)
    (hq : s.receivingTelegram.getQq = s.config.primaryAddress) : s.acknowledgeResponse =
      if s.receivingTelegram.isResponseValid then [ack, syn] else [nack] := by
  rw [acknowledgeResponse, if_pos ⟨hs, hq⟩]
  rfl

/-- **The calls that acknowledge a response** are those that make the receiver wait for its
acknowledge, with this node as the one that asked. -/
theorem acknowledge_iff : (s.processReceivedChar call).2.acknowledge ≠ [] ↔
    s.Enters call .waitForResponseAck ∧
      (s.processReceivedChar call).1.receivingTelegram.getQq = s.config.primaryAddress := by
  obtain ⟨pending, t, h, ht⟩ | ⟨real, hp, -⟩ := s.silent_or_processed call
  · have hnot : ¬ s.Enters call .waitForResponseAck :=
      not_enters_of_silent h (newOrSame ht) (by decide)
    rw [h]
    exact iff_of_false (fun hne => hne rfl) fun henters => by
      rw [← h] at henters
      exact hnot henters.1
  · have hconfig := s.processReceivedChar_config call
    rw [hp.acknowledge, ← hconfig]
    constructor
    · intro hne
      rw [acknowledgeResponse] at hne
      split at hne
      · rename_i hdue
        exact ⟨hp.enters_responseAck hdue.1, hdue.2⟩
      · exact absurd rfl hne
    · rintro ⟨henters, hq⟩
      rw [acknowledgeResponse_of_due henters.2 hq]
      split <;> exact List.cons_ne_nil _ _

theorem acknowledge_eq (h : (s.processReceivedChar call).2.acknowledge ≠ []) :
    (s.processReceivedChar call).2.acknowledge =
      if (s.processReceivedChar call).1.receivingTelegram.isResponseValid then [ack, syn]
      else [nack] := by
  obtain ⟨henters, hq⟩ := acknowledge_iff.mp h
  obtain ⟨pending, t, heq, -⟩ | ⟨real, hp, -⟩ := s.silent_or_processed call
  · rw [heq] at h
    exact absurd rfl h
  · rw [hp.acknowledge]
    exact acknowledgeResponse_of_due henters.2 (by rw [hq, s.processReceivedChar_config call])

/-! ### Whole runs -/

/-- A call takes the receiving telegram further, or leaves one that has stored nothing. -/
theorem phase_le (s : Ebus) (call : Call) :
    (s.processReceivedChar call).1.receivingTelegram.Blank ∨
      s.receivingTelegram.state.phase ≤
        (s.processReceivedChar call).1.receivingTelegram.state.phase := by
  obtain ⟨pending, t, h, ht⟩ | ⟨real, hp, -⟩ := s.silent_or_processed call
  · rw [h]
    rcases newOrSame ht with rfl | rfl
    · exact .inr (Nat.le_refl _)
    · exact .inl ⟨rfl, rfl⟩
  · rw [hp.receivingTelegram]
    exact s.receivingTelegram.phase_receive _ _

/-- At some point of the run the receiver holds a new telegram. -/
def Renewed (s : Ebus) (calls : List Call) : Prop :=
  ∃ sofar rest, calls = sofar ++ rest ∧ (s.after sofar).receivingTelegram.Blank

theorem renewed_or_phase_le (s : Ebus) (calls : List Call) : s.Renewed calls ∨
    s.receivingTelegram.state.phase ≤ (s.after calls).receivingTelegram.state.phase := by
  induction calls using List.reverseRecOn with
  | nil => exact .inr (Nat.le_refl _)
  | append_singleton calls call ih =>
    rcases ih with ⟨sofar, rest, rfl, hpos⟩ | hle
    · exact .inl ⟨sofar, rest ++ [call], by rw [List.append_assoc], hpos⟩
    · rw [after_concat]
      rcases (s.after calls).phase_le call with hpos | hstep
      · left
        exact ⟨calls ++ [call], [], (List.append_nil _).symm, by rw [after_concat]; exact hpos⟩
      · exact .inr (Nat.le_trans hle hstep)

/-- Between two times that the receiver enters a state of a telegram under way it has made room for
another telegram. -/
theorem renewed_of_enters {s s' : Ebus} {call next : Call} {mid : List Call}
    {state : TelegramState} (hs' : (s.processReceivedChar call).1 = s')
    (hphase : ∀ state', state' = state ↔ state'.phase = state.phase) (hpos : 0 < state.phase)
    (hfirst : s.Enters call state) (hsecond : (s'.after mid).Enters next state) :
    s'.Renewed mid := by
  have hstart : s'.receivingTelegram.state.phase = state.phase := by
    rw [← hs', hfirst.2]
  have hend := congrArg TelegramState.phase hsecond.2
  rcases s'.renewed_or_phase_le mid with h | hle
  · exact h
  · rcases (s'.after mid).phase_le next with hblank | hstep
    · rw [hblank.1] at hend
      omega
    · have hsame : (s'.after mid).receivingTelegram.state.phase = state.phase := by omega
      exact absurd ((hphase _).mpr hsame) hsecond.1

/-- The call answers requests and acknowledges responses when they are due, and as they are due. -/
structure AnswersAsDue (s : Ebus) (call : Call) : Prop where
  answer_iff : (s.processReceivedChar call).2.answer ≠ [] ↔
    s.Enters call .waitForRequestAck ∧
      (s.processReceivedChar call).1.receivingTelegram.getZz =
        toSecondary s.config.primaryAddress
  answer_eq : (s.processReceivedChar call).2.answer ≠ [] →
    (s.processReceivedChar call).2.answer = answerTo call.sendResponseHandlers
      (s.processReceivedChar call).1.receivingTelegram
  acknowledge_iff : (s.processReceivedChar call).2.acknowledge ≠ [] ↔
    s.Enters call .waitForResponseAck ∧
      (s.processReceivedChar call).1.receivingTelegram.getQq = s.config.primaryAddress
  acknowledge_eq : (s.processReceivedChar call).2.acknowledge ≠ [] →
    (s.processReceivedChar call).2.acknowledge =
      if (s.processReceivedChar call).1.receivingTelegram.isResponseValid then [ack, syn]
      else [nack]

/-- **Answered once, and never unprompted.**  In every run, a call answers a request, or
acknowledges a response, exactly when the receiving telegram enters the state in which that is due;
and before it does so again the receiver has made room for another telegram. -/
theorem answered_once (config : Config) (sofar : List Call) (call : Call) :
    let s := (init config).after sofar
    AnswersAsDue s call ∧ ∀ mid next,
      let s' := (s.processReceivedChar call).1
      ((s.processReceivedChar call).2.answer ≠ [] →
          ((s'.after mid).processReceivedChar next).2.answer ≠ [] → s'.Renewed mid) ∧
        ((s.processReceivedChar call).2.acknowledge ≠ [] →
          ((s'.after mid).processReceivedChar next).2.acknowledge ≠ [] → s'.Renewed mid) := by
  intro s
  refine ⟨⟨answer_iff, answer_eq, acknowledge_iff, acknowledge_eq⟩, fun mid next => ⟨?_, ?_⟩⟩
  · intro hfirst hsecond
    exact renewed_of_enters rfl TelegramState.eq_requestAck_iff (by decide) (answer_iff.mp hfirst).1
      (answer_iff.mp hsecond).1
  · intro hfirst hsecond
    exact renewed_of_enters rfl TelegramState.eq_responseAck_iff (by decide)
      (acknowledge_iff.mp hfirst).1 (acknowledge_iff.mp hsecond).1

end Ebus

end EsphomeEbus
