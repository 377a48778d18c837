import EsphomeEbus.Command

/-!
# Who may send: the arbitration of one node

A node sends its QQ in answer to a SYN, and its request when it then hears its own QQ.  The record
that says where this is safe is `Contending`: as long as nothing has been heard since that SYN, the
SYN was the byte before, and the node has answered it.

* `contending_step`: every call keeps the record;
* `request_ne_nil_iff`: when a call sends a request;
* `request_after_won_arbitration`: a run sends its requests in the slots after answered SYNs only,
  if and only if its calls are all `Undisturbed`;
* `request_over_running_telegram`: the run of a node that is disturbed.
-/

namespace EsphomeEbus

open Elf Transducer

/-! ### Addresses -/

theorem isPrimary_ne_syn {a : Byte} (h : isPrimary a = true) : a ≠ syn := by
  rintro rfl
  cases h

theorem isPrimary_ne_esc {a : Byte} (h : isPrimary a = true) : a ≠ esc := by
  rintro rfl
  cases h

/-- A SYN is in no priority class. -/
theorem class_syn_ne {a : Byte} (h : isPrimary a = true) :
    getPriorityClass syn ≠ getPriorityClass a := by
  intro hc
  rw [isPrimary, ← hc] at h
  cases h

/-- A SYN opens a telegram or ends one. -/
theorem Telegram.receive_syn_ne_waitForSyn (t : Telegram) (v : Byte) :
    (t.receive syn v).state ≠ .waitForSyn := by
  rcases t.receive_syn v with ⟨h, ht⟩ | ⟨_, ht⟩ | ⟨newState, h, ht⟩
  · rw [ht]
    exact fun hs => h.unsynced hs rfl
  · rw [ht]
    simp [setState]
  · rw [ht]
    cases h <;> simp [setState]

/-! ### The steps of an arbitration -/

namespace Ebus

variable {s : Ebus} {call : Call}

/-- The queue hands over commands as their constructor leaves them, from a primary address. -/
def HandsOver (call : Call) : Prop :=
  ∀ c ∈ call.dequeued, c.state = .waitForSend ∧ isPrimary c.getQq = true

instance (call : Call) : Decidable (HandsOver call) :=
  inferInstanceAs (Decidable (∀ c ∈ call.dequeued, _))

/-- A symbol with the raw byte QQ that a node in the arbitration hears is a plain byte and the first
symbol after a SYN, and no invalid escape pair has reset the receiver since that SYN. -/
def Undisturbed (s : Ebus) (call : Call) : Prop :=
  Arbitrating s.activeCommand.toTelegramBase → call.receivedByte = s.activeCommand.getQq →
    (s.inEsc = true → call.receivedByte = 0x00#8 ∨ call.receivedByte = 0x01#8) →
      s.inEsc = false ∧ s.charCountSinceLastSyn = 0 ∧ s.receivingTelegram.state ≠ .waitForSyn

instance (s : Ebus) (call : Call) : Decidable (Undisturbed s call) :=
  inferInstanceAs (Decidable (_ → _))

/-- The last of the calls delivered a SYN, and the driver answered it with `qq`. -/
def AnsweredSyn (config : Config) (calls : List Call) (qq : Byte) : Prop :=
  ∃ before last, calls = before ++ [last] ∧ last.receivedByte = syn ∧
    (((init config).after before).processReceivedChar last).2.qq = uartSendChar qq

/-- The record of an arbitration: where the active command stands, and what the calls so far have to
do with it. -/
structure Contending (config : Config) (calls : List Call) (s : Ebus) : Prop where
  after_eq : s = (init config).after calls
  primary : s.activeCommand.isFinished = true ∨ isPrimary s.activeCommand.getQq = true
  fresh : s.activeCommand.state = .waitForArbitration → s.charCountSinceLastSyn = 0
  answered : Arbitrating s.activeCommand.toTelegramBase → s.inEsc = false →
    s.charCountSinceLastSyn = 0 → s.receivingTelegram.state ≠ .waitForSyn →
    AnsweredSyn config calls s.activeCommand.getQq

theorem contending_init (config : Config) : Contending config [] (init config) where
  after_eq := rfl
  primary := .inl rfl
  fresh h := by cases h
  answered h := by rcases h with h | h <;> cases h

theorem not_arbitrating_startRequest :
    ¬ Arbitrating s.startRequest.activeCommand.toTelegramBase := by
  rw [startRequest_activeCommand]
  split
  · exact not_arbitrating_setState _ (by decide)
  · exact not_arbitrating_setState _ (by decide)

theorem not_arbitrating_retryOrFail : ¬ Arbitrating s.retryOrFail.activeCommand.toTelegramBase := by
  rcases retryOrFail_state (s := s) with hs | hs
  · exact not_arbitrating_of_state hs (by decide)
  · exact not_arbitrating_of_state hs (by decide)

/-- The command the switch works on has a primary QQ or is finished; unless it is the active one, it
waits to be sent. -/
theorem nextCommand_primary (hd : HandsOver call)
    (hprim : s.activeCommand.isFinished = true ∨ isPrimary s.activeCommand.getQq = true) :
    ((s.nextCommand call.dequeued).isFinished = true ∨
        isPrimary (s.nextCommand call.dequeued).getQq = true) ∧
      (s.nextCommand call.dequeued = s.activeCommand ∨
        (s.nextCommand call.dequeued).state = .waitForSend) := by
  rcases s.nextCommand_cases call.dequeued with h | ⟨-, h⟩
  · rw [h]
    exact ⟨hprim, .inl rfl⟩
  · obtain ⟨hs, hp⟩ := hd _ h
    exact ⟨.inr hp, .inr hs⟩

/-- A processed symbol leaves a command in the arbitration in two ways: a SYN was heard and
answered, or the symbol was the first after a SYN and showed another address of the same class. -/
theorem arbitrating_after {real : Byte} (hp : Processed s call real) (hd : HandsOver call)
    (hprim : s.activeCommand.isFinished = true ∨ isPrimary s.activeCommand.getQq = true)
    (harb : Arbitrating (s.processReceivedChar call).1.activeCommand.toTelegramBase) :
    call.receivedByte = syn ∧ (s.processReceivedChar call).2.qq =
        uartSendChar (s.processReceivedChar call).1.activeCommand.getQq ∨
      call.receivedByte ≠ syn ∧ s.activeCommand.state = .waitForArbitration ∧
        (s.processReceivedChar call).1.activeCommand.state = .waitForArbitration2nd := by
  obtain ⟨hc, hactive⟩ := nextCommand_primary hd hprim
  rw [hp.activeCommand] at harb ⊢
  rw [hp.qq]
  have hdrive : s.drivenBy call real =
      (s.beforeDrive call real).driveCommand call.receivedByte := rfl
  rw [hdrive] at harb ⊢
  cases hs : (s.nextCommand call.dequeued).state with
  | waitForSend =>
    rw [driveCommand_waitForSend _ hs] at harb ⊢
    split at harb
    · rename_i hsend
      rw [if_pos hsend]
      exact .inl ⟨hsend.1, rfl⟩
    · exact absurd harb (not_arbitrating_of_state hs (by decide))
  | waitForArbitration =>
    rw [driveCommand_waitForArbitration _ hs] at harb ⊢
    split at harb
    · exact absurd harb not_arbitrating_startRequest
    · rename_i hne
      rw [if_neg hne]
      split at harb
      · rename_i hclass
        rw [if_pos hclass]
        have hsame : s.nextCommand call.dequeued = s.activeCommand := by
          rcases hactive with h | h
          · exact h
          · exact absurd (hs.symm.trans h) (by decide)
        refine .inr ⟨?_, by rw [← hsame, hs], rfl⟩
        rintro hsyn
        rcases hc with hf | hq
        · rw [TelegramBase.isFinished_of_state hs (by decide)] at hf
          cases hf
        · rw [hsyn] at hclass
          exact class_syn_ne hq hclass
      · exact absurd harb not_arbitrating_retryOrFail
  | waitForArbitration2nd =>
    rw [driveCommand_waitForArbitration2nd _ hs] at harb ⊢
    split at harb
    · rename_i hsyn
      rw [if_pos hsyn]
      exact .inl ⟨hsyn, rfl⟩
    · split at harb
      · exact absurd harb not_arbitrating_startRequest
      · exact absurd harb not_arbitrating_retryOrFail
  | waitForCommandAck =>
    rw [driveCommand_waitForCommandAck _ hs] at harb
    split at harb
    · exact absurd harb (not_arbitrating_setState _ (by decide))
    · split at harb
      · exact absurd harb not_arbitrating_retryOrFail
      · exact absurd harb (not_arbitrating_of_state hs (by decide))
  | _ =>
    have hstay : (s.beforeDrive call real).activeCommand.state = _ := hs
    rw [driveCommand_other _ (by simp [hstay]) (by simp [Arbitrating, hstay]) (by simp [hstay])]
      at harb
    exact absurd harb (not_arbitrating_of_state hs (by decide))

/-- The switch leaves a finished command alone, and the QQ of every other as it was. -/
theorem Processed.primary {real : Byte} (hp : Processed s call real) (hd : HandsOver call)
    (hprim : s.activeCommand.isFinished = true ∨ isPrimary s.activeCommand.getQq = true) :
    (s.processReceivedChar call).1.activeCommand.isFinished = true ∨
      isPrimary (s.processReceivedChar call).1.activeCommand.getQq = true := by
  obtain ⟨hc, -⟩ := nextCommand_primary hd hprim
  rw [hp.activeCommand]
  rcases hc with hf | hq
  · left
    rw [drivenBy, driveCommand_finished (s := s.beforeDrive call real) _ hf]
    exact hf
  · right
    rw [TelegramBase.getQq, drivenBy,
      driveCommand_activeCommand_request (s := s.beforeDrive call real)]
    exact hq

/-- **Every call keeps the record.** -/
theorem contending_step {config : Config} {calls : List Call} (h : Contending config calls s)
    (hd : HandsOver call) : Contending config (calls ++ [call]) (s.processReceivedChar call).1 := by
  have hafter : (s.processReceivedChar call).1 = (init config).after (calls ++ [call]) := by
    rw [after_concat, ← h.after_eq]
  obtain ⟨pending, t, heq, hcase⟩ | ⟨real, hp, -⟩ := s.silent_or_processed call
  · refine ⟨hafter, ?_, ?_, ?_⟩
    · rw [heq]
      exact h.primary
    · rw [heq]
      exact h.fresh
    · rw [heq]
      intro _ hesc _ hsynced
      rcases hcase with ⟨rfl, -⟩ | ⟨-, rfl, -⟩
      · cases hesc
      · exact absurd rfl hsynced
  · have harbitrating := arbitrating_after hp hd h.primary
    refine ⟨hafter, hp.primary hd h.primary, ?_, ?_⟩
    · intro hs
      rcases harbitrating (.inl hs) with ⟨hsyn, -⟩ | ⟨-, -, h2⟩
      · rw [hp.charCount, hsyn, countSyn_syn]
      · rw [hs] at h2
        cases h2
    · intro harb _ hcount _
      rcases harbitrating harb with ⟨hsyn, hqq⟩ | ⟨hne, h1, -⟩
      · exact ⟨calls, call, rfl, hsyn, by rw [← h.after_eq, hqq]⟩
      · rw [hp.charCount, countSyn_of_ne_syn _ hne] at hcount
        have hone : s.charCountSinceLastSyn + 1 = 0 := hcount
        rw [h.fresh h1] at hone
        exact absurd hone (by decide)

/-- The record holds after every run. -/
theorem contending_after (config : Config) (calls : List Call)
    (hd : ∀ call ∈ calls, HandsOver call) : Contending config calls ((init config).after calls) :=
  run_history processReceivedChar (I := Contending config) (C := fun _ call => HandsOver call)
    (fun _ _ _ h hC => contending_step h hC) (init config) calls (contending_init config)
    (along_of_forall processReceivedChar (init config) calls hd)

/-! ### Requests and the SYNs before them -/

/-- A SYN that is answered leaves its mark on the driver. -/
theorem AnsweredSyn.heard {config : Config} {calls : List Call} {qq : Byte}
    (h : AnsweredSyn config calls qq) : ((init config).after calls).inEsc = false ∧
      ((init config).after calls).charCountSinceLastSyn = 0 ∧
      ((init config).after calls).receivingTelegram.state ≠ .waitForSyn := by
  obtain ⟨before, last, rfl, hsyn, hqq⟩ := h
  rw [after_concat]
  obtain ⟨pending, t, heq, -⟩ | ⟨real, hp, -⟩ :=
    ((init config).after before).silent_or_processed last
  · rw [heq] at hqq
    exact absurd hqq.symm (uartSendChar_ne_nil qq)
  · refine ⟨hp.inEsc, ?_, ?_⟩
    · rw [hp.charCount, hsyn, countSyn_syn]
    · rw [hp.receivingTelegram, hsyn]
      exact Telegram.receive_syn_ne_waitForSyn _ _

/-- **When a request is sent**: a node in the arbitration hears a symbol with its QQ as the raw
byte. -/
theorem request_ne_nil_iff (hd : HandsOver call)
    (hprim : s.activeCommand.isFinished = true ∨ isPrimary s.activeCommand.getQq = true) :
    (s.processReceivedChar call).2.request ≠ [] ↔
      Arbitrating s.activeCommand.toTelegramBase ∧ call.receivedByte = s.activeCommand.getQq ∧
        (s.inEsc = true → call.receivedByte = 0x00#8 ∨ call.receivedByte = 0x01#8) := by
  constructor
  · intro hreq
    obtain ⟨harb, hbyte, -, -⟩ := request_sent hreq
    obtain ⟨-, hactive⟩ := nextCommand_primary hd hprim
    have hsame : s.nextCommand call.dequeued = s.activeCommand := by
      rcases hactive with hs | hs
      · exact hs
      · exact absurd harb (not_arbitrating_of_state hs (by decide))
    rw [hsame] at harb hbyte
    refine ⟨harb, hbyte, ?_⟩
    intro hesc
    obtain ⟨pending, t, heq, -⟩ | ⟨real, hp, ⟨hplain, -⟩ | ⟨-, hb⟩⟩ := s.silent_or_processed call
    · rw [heq] at hreq
      exact absurd rfl hreq
    · rw [hesc] at hplain
      cases hplain
    · exact hb
  · rintro ⟨harb, hbyte, hpair⟩
    have hqq : isPrimary s.activeCommand.getQq = true := by
      rcases hprim with hf | hq
      · rw [harb.unfinished] at hf
        cases hf
      · exact hq
    have hsyn : call.receivedByte ≠ syn := by
      rw [hbyte]
      exact isPrimary_ne_syn hqq
    have hesc : call.receivedByte ≠ esc := by
      rw [hbyte]
      exact isPrimary_ne_esc hqq
    obtain ⟨real, hp⟩ := exists_processed (fun _ => hesc) hpair
    have hactive : (s.beforeDrive call real).activeCommand = s.activeCommand :=
      nextCommand_of_unfinished harb.unfinished _
    have hstart : s.drivenBy call real = (s.beforeDrive call real).startRequest :=
      driveCommand_wins (s := s.beforeDrive call real) _ (by rw [hactive]; exact harb) hsyn
        (by rw [hactive]; exact hbyte)
    rw [hp.request, hstart, startRequest_request]
    exact uartSendRemainingRequestPart_ne_nil _

/-- A call does not send a request unless it has won the bus for it, exactly if it is undisturbed.
-/
theorem won_iff_undisturbed {config : Config} {calls : List Call} (h : Contending config calls s)
    (hd : HandsOver call) :
    ((s.processReceivedChar call).2.request ≠ [] → call.receivedByte = s.activeCommand.getQq ∧
        s.inEsc = false ∧ AnsweredSyn config calls call.receivedByte) ↔ Undisturbed s call := by
  rw [request_ne_nil_iff hd h.primary]
  constructor
  · intro hwon harb hbyte hpair
    obtain ⟨-, -, hanswered⟩ := hwon ⟨harb, hbyte, hpair⟩
    rw [h.after_eq]
    exact hanswered.heard
  · rintro hu ⟨harb, hbyte, hpair⟩
    obtain ⟨hesc, hcount, hsynced⟩ := hu harb hbyte hpair
    refine ⟨hbyte, hesc, ?_⟩
    rw [hbyte]
    exact h.answered harb hesc hcount hsynced

/-- **No transmission without having won the bus.**  Whatever commands the queue hands over in a
run, every call of it that sends the rest of a request has received its QQ as a plain byte, right
after a SYN which the node itself has answered with that QQ, if and only if all its calls are
undisturbed. -/
theorem request_after_won_arbitration (config : Config) (calls : List Call)
    (hd : ∀ call ∈ calls, HandsOver call) :
    (∀ sofar call rest, calls = sofar ++ call :: rest →
      (((init config).after sofar).processReceivedChar call).2.request ≠ [] →
      call.receivedByte = ((init config).after sofar).activeCommand.getQq ∧
        ((init config).after sofar).inEsc = false ∧
        AnsweredSyn config sofar call.receivedByte) ↔
      Along processReceivedChar Undisturbed (init config) calls := by
  rw [along_iff]
  refine forall_congr' fun sofar => forall_congr' fun call => forall_congr' fun rest => ?_
  refine forall_congr' fun hsplit => ?_
  rw [hsplit] at hd
  have hsofar := contending_after config sofar fun c hc => hd c (by simp [hc])
  exact won_iff_undisturbed hsofar (hd call (by simp))

/-- A command of the primary 0x10. -/
def sampleCommand : SendCommand := .new 0x10#8 0x08#8 0x0704#16 []

/-- The command is handed over on a SYN, and wins in the slot after it. -/
theorem sample_wins :
    let s := (init (defaultConfig 0x10#8)).after [⟨syn, some sampleCommand, []⟩]
    0x10#8 = s.activeCommand.getQq ∧ s.inEsc = false ∧
      AnsweredSyn (defaultConfig 0x10#8) [⟨syn, some sampleCommand, []⟩] 0x10#8 :=
  (request_after_won_arbitration (defaultConfig 0x10#8)
    [⟨syn, some sampleCommand, []⟩, ⟨0x10#8, none, []⟩] (by decide +kernel)).mpr (by decide +kernel)
    [⟨syn, some sampleCommand, []⟩] ⟨0x10#8, none, []⟩ [] rfl (by decide +kernel)

/-- The command loses the slot to the primary 0x00, whose telegram is addressed to 0x10: the node
takes that address for its own QQ and sends over the running telegram. -/
theorem request_over_running_telegram :
    (∀ call ∈ [⟨syn, some sampleCommand, []⟩, ⟨0x00#8, none, []⟩, ⟨0x10#8, none, []⟩],
        HandsOver call) ∧
      (((init (defaultConfig 0x10#8)).after [⟨syn, some sampleCommand, []⟩,
        ⟨0x00#8, none, []⟩]).processReceivedChar ⟨0x10#8, none, []⟩).2.request ≠ [] ∧
      ¬ AnsweredSyn (defaultConfig 0x10#8) [⟨syn, some sampleCommand, []⟩, ⟨0x00#8, none, []⟩]
        0x10#8 := by
  refine ⟨by decide +kernel, by decide +kernel, ?_⟩
  rintro ⟨before, last, hcalls, hsyn, -⟩
  have hlast := congrArg List.getLast? hcalls
  rw [List.getLast?_concat] at hlast
  obtain rfl := Option.some.inj hlast
  exact absurd hsyn (by decide)

end Ebus

end EsphomeEbus
