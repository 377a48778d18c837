import EsphomeEbus.Answer
import EsphomeEbus.Lock
import EsphomeEbus.Slot

/-!
# One role at a time

A call can send a QQ, a request, the acknowledge of a response and an answer to a request, in four
blocks that do not look at each other.  Two of them look at the state of the receiving telegram and
two at that of the active command; what keeps them apart is that in the arbitration hardly anything
of a telegram can have been received.

* `Telegram.Early`: at most the first byte of a telegram has been received;
* `early_step`: a command in the arbitration finds the receiver early, and every call keeps this;
* `one_role_per_call`: no call of any run sends in two roles.
-/

namespace EsphomeEbus

open Elf Transducer

/-! ### The receiver early in a telegram -/

namespace Telegram

/-- No telegram is under way, or one of which at most the QQ has been received. -/
def Early (t : Telegram) : Prop :=
  t.Apart ∨ t.state = .waitForRequestData ∧ t.request.pos ≤ 1

/-- A telegram that is opened has stored nothing. -/
def OpensEmpty (t : Telegram) : Prop := t.state = .waitForArbitration → t.request.pos = 0

variable {t : Telegram}

/-- A request of which two bytes are there is not complete. -/
theorem not_isRequestComplete (h : t.request.pos ≤ 2) : t.isRequestComplete = false := by
  have hpos : ¬ t.request.pos > offsetData := by
    show ¬ t.request.pos > 5
    omega
  rw [isRequestComplete, decide_eq_false hpos, Bool.and_false, Bool.false_and, Bool.false_and]

theorem OpensEmpty.refresh (h : t.OpensEmpty) : t.refresh.OpensEmpty := by
  rw [Telegram.refresh]
  split
  · intro hs
    cases hs
  · exact h

/-- The symbol after a SYN is at most the first of a telegram. -/
theorem Apart.early_receive (h : t.Apart) (ho : t.OpensEmpty) (raw v : Byte) :
    (t.receive raw v).Early := by
  rcases h.receives raw v with ht | ht | ⟨hs, ht⟩
  · rw [ht]
    exact .inl h
  · rw [ht]
    left
    simp [Apart, setState]
  · rw [ht]
    right
    refine ⟨rfl, ?_⟩
    show t.request.pos + 1 ≤ 1
    rw [ho hs]

/-- One more symbol, and nobody is expected to acknowledge anything. -/
theorem Early.receive (h : t.Early) (raw v : Byte) : (t.receive raw v).NoAckDue := by
  rcases h with h | ⟨hs, hpos⟩
  · exact h.receive raw v
  · have hshort : (t.pushReqData v).isRequestComplete = false := by
      apply not_isRequestComplete
      show t.request.pos + 1 ≤ 2
      omega
    simp only [Telegram.receive, hs, hshort]
    split
    · split <;> simp [NoAckDue, setState]
    · simp [NoAckDue, pushReqData, TelegramBase.pushReqData, hs]

theorem Early.refresh (h : t.Early) : t.refresh.Early := by
  rcases h with h | ⟨hs, hpos⟩
  · exact .inl h.refresh
  · rw [Telegram.refresh, TelegramBase.isFinished_of_state hs (by decide)]
    exact .inr ⟨hs, hpos⟩

end Telegram

/-- What has been heard opens a telegram without a byte in it. -/
theorem Heard.opensEmpty {t : Telegram} {ss : List (Stuffing.Symbol Byte)} (h : Heard t ss) :
    t.OpensEmpty := by
  intro hs
  cases h with
  | opened _ ht => exact ht.request.pos_eq
  | idle h => rw [h] at hs; cases hs
  | request h => rw [h] at hs; cases hs
  | requestAck h => rw [h] at hs; cases hs
  | response h => rw [h] at hs; cases hs
  | responseAck h => rw [h] at hs; cases hs
  | completed h => rw [h] at hs; cases hs
  | failed h => rw [TelegramBase.isFinished, hs] at h; cases h

/-- What a call sends, by the roles in which it sends anything. -/
def Output.roles (o : Output) : List (List Byte) :=
  [o.qq, o.request, o.acknowledge, o.answer].filter (· ≠ [])

theorem Output.roles_le_one {o : Output}
    (hqq : o.qq ≠ [] → o.request = [] ∧ o.acknowledge = [] ∧ o.answer = [])
    (hrequest : o.request ≠ [] → o.acknowledge = [] ∧ o.answer = [])
    (hack : o.acknowledge ≠ [] → o.answer = []) : o.roles.length ≤ 1 := by
  unfold roles
  by_cases h₁ : o.qq = []
  · by_cases h₂ : o.request = []
    · by_cases h₃ : o.acknowledge = []
      · by_cases h₄ : o.answer = [] <;> simp [h₁, h₂, h₃, h₄]
      · simp [h₁, h₂, h₃, hack h₃]
    · obtain ⟨ha, hr⟩ := hrequest h₂
      simp [h₁, h₂, ha, hr]
  · obtain ⟨hr, ha, hans⟩ := hqq h₁
    simp [h₁, hr, ha, hans]

namespace Ebus

variable {s : Ebus} {call : Call} {real : Byte}

/-- A command in the arbitration finds the receiver early in a telegram, and before any if nothing
has been heard since its QQ. -/
structure EarlyInArbitration (s : Ebus) : Prop where
  early : Arbitrating s.activeCommand.toTelegramBase → s.receivingTelegram.Early
  apart : s.activeCommand.state = .waitForArbitration → s.receivingTelegram.Apart

/-! ### One call -/

/-- A command that a call leaves in the arbitration has been there before, or has just sent its QQ
on a SYN. -/
theorem Drives.arbitrating {b : Byte} {d : Driven} (h : Drives s b d)
    (hd : Arbitrating d.activeCommand.toTelegramBase) :
    b = syn ∨ s.activeCommand.state = .waitForArbitration ∧
      d.activeCommand.state = .waitForArbitration2nd := by
  cases h with
  | stays harb => exact absurd hd harb
  | sendsQq _ hb _ _ => exact .inl hb
  | secondRound hs => exact .inr ⟨hs, rfl⟩
  | sendsQqAgain _ hb => exact .inl hb
  | wins _ _ =>
    rw [startRequest_activeCommand] at hd
    exact absurd hd (not_arbitrating_setState _ (by split <;> decide))
  | acknowledged _ _ => exact absurd hd (not_arbitrating_setState _ (by decide))
  | givesUp _ =>
    rcases s.retryOrFail_state with hs | hs
    · exact absurd hd (not_arbitrating_of_state hs (by decide))
    · exact absurd hd (not_arbitrating_of_state hs (by decide))

/-- An arbitrating command is the one that was active before the call. -/
theorem nextCommand_of_arbitrating (hd : Delivers call)
    (h : Arbitrating (s.nextCommand call.dequeued).toTelegramBase) :
    s.nextCommand call.dequeued = s.activeCommand := nextCommand_of_started hd (.inl h)

/-- **A command in the arbitration finds the receiver early**, after every call. -/
theorem early_step (h : s.EarlyInArbitration) (ho : s.receivingTelegram.OpensEmpty)
    (hd : Delivers call) : (s.processReceivedChar call).1.EarlyInArbitration := by
  obtain ⟨pending, t, heq, ht⟩ | ⟨real, hp, -⟩ := s.silent_or_processed call
  · rw [heq]
    rcases newOrSame ht with rfl | rfl
    · exact ⟨h.early, h.apart⟩
    · have hnew : Telegram.new.Apart := by simp [Telegram.Apart, Telegram.new]
      exact ⟨fun _ => .inl hnew, fun _ => hnew⟩
  · have hdrives := s.drives_drivenBy call real
    have hsyn : call.receivedByte = syn →
        (s.receivingTelegram.refresh.receive call.receivedByte real).Apart := by
      intro hb
      rw [hb]
      exact Telegram.apart_receive_syn _ _
    constructor
    · intro harb
      rw [hp.activeCommand] at harb
      rw [hp.receivingTelegram]
      rcases hdrives.arbitrating harb with hb | ⟨hs, -⟩
      · exact .inl (hsyn hb)
      · have hnext : s.nextCommand call.dequeued = s.activeCommand :=
          nextCommand_of_arbitrating hd (.inl hs)
        have hactive : s.activeCommand.state = .waitForArbitration := by
          rw [← hnext]
          exact hs
        exact (h.apart hactive).refresh.early_receive ho.refresh _ _
    · intro hs
      rw [hp.activeCommand] at hs
      rw [hp.receivingTelegram]
      rcases hdrives.arbitrating (.inl hs) with hb | ⟨-, hs'⟩
      · exact hsyn hb
      · rw [hs'] at hs
        cases hs

/-- With no acknowledge due, the receiver has nothing to send. -/
theorem Processed.silent_of_noAckDue (hp : Processed s call real)
    (hn : (s.processReceivedChar call).1.receivingTelegram.NoAckDue) :
    (s.processReceivedChar call).2.acknowledge = [] ∧
      (s.processReceivedChar call).2.answer = [] := by
  rw [hp.acknowledge, hp.answer, acknowledgeResponse, if_neg (fun h => hn.2 h.1), handleResponse,
    if_pos (.inl hn.1)]
  exact ⟨rfl, rfl⟩

/-- A call that sends a QQ sends no request. -/
theorem Drives.request_of_qq {b : Byte} {d : Driven} (h : Drives s b d) (hd : d.qq ≠ []) :
    d.request = [] := by
  cases h with
  | wins _ _ =>
    unfold startRequest at hd
    split at hd <;> exact absurd rfl hd
  | _ => rfl

/-- **A call sends in one role**, if a command in the arbitration finds the receiver early. -/
theorem one_role_step (h : s.EarlyInArbitration) (hd : Delivers call) :
    (s.processReceivedChar call).2.roles.length ≤ 1 := by
  obtain ⟨pending, t, heq, -⟩ | ⟨real, hp, -⟩ := s.silent_or_processed call
  · rw [heq]
    show ({} : Output).roles.length ≤ 1
    decide
  · have hdrives := s.drives_drivenBy call real
    apply Output.roles_le_one
    · intro hqq
      rw [hp.qq] at hqq
      obtain ⟨hb, -, -⟩ := hdrives.sends hqq
      have hapart : (s.processReceivedChar call).1.receivingTelegram.Apart := by
        rw [hp.receivingTelegram, hb]
        exact Telegram.apart_receive_syn _ _
      rw [hp.request]
      exact ⟨hdrives.request_of_qq hqq, hp.silent_of_noAckDue ⟨hapart.2.1, hapart.2.2.2⟩⟩
    · intro hrequest
      rw [hp.request] at hrequest
      obtain ⟨harb, -, -⟩ := driveCommand_request _ hrequest
      have hnext : s.nextCommand call.dequeued = s.activeCommand :=
        nextCommand_of_arbitrating hd harb
      have hactive : Arbitrating s.activeCommand.toTelegramBase := by
        rw [← hnext]
        exact harb
      apply hp.silent_of_noAckDue
      rw [hp.receivingTelegram]
      exact (h.early hactive).refresh.receive _ _
    · intro hack
      obtain ⟨henters, -⟩ := acknowledge_iff.mp hack
      rw [hp.answer, handleResponse, if_pos]
      left
      rw [henters.2]
      decide

/-! ### Whole runs -/

theorem early_after (config : Config) {calls : List Call} (hd : ∀ call ∈ calls, Delivers call) :
    ((init config).after calls).EarlyInArbitration := by
  induction calls using List.reverseRecOn with
  | nil =>
    have hstate : (init config).activeCommand.state = .endCompleted := rfl
    have hidle := not_arbitrating_of_state hstate (by decide)
    exact ⟨fun h => absurd h hidle, fun h => absurd (.inl h) hidle⟩
  | append_singleton calls call ih =>
    have hsofar := ih fun call hcall => hd call (List.mem_append_left _ hcall)
    obtain ⟨ss, hheard⟩ := (reachable_after config calls).heard
    rw [after_concat]
    exact early_step hsofar hheard.opensEmpty (hd call (by simp))

/-- **One role per call.**  In every run, whatever bytes it brings, whatever the node's address and
whenever the queue hands over commands, a call sends in at most one of its roles: a QQ, a request,
the acknowledge of a response, or an answer. -/
theorem one_role_per_call (config : Config) {sofar : List Call} {call : Call}
    (hd : ∀ c ∈ sofar ++ [call], Delivers c) :
    (((init config).after sofar).processReceivedChar call).2.roles.length ≤ 1 :=
  one_role_step (early_after config fun c hc => hd c (List.mem_append_left _ hc))
    (hd call (by simp))

/-- The node 0x10 hears its QQ come back, and sends its request and nothing else. -/
theorem one_role_of_winner :
    (((init (defaultConfig 0x10#8)).after
      [⟨syn, some (.new 0x10#8 0x08#8 0x0704#16 [0x12#8]), []⟩]).processReceivedChar
        ⟨0x10#8, none, []⟩).2.roles.length ≤ 1 :=
  one_role_per_call (defaultConfig 0x10#8) (by decide +kernel)

end Ebus

end EsphomeEbus
