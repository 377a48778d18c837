import EsphomeEbus.Answer
import EsphomeEbus.Slot

/-!
# Escape pairs and the states that look at the raw byte

`process_received_char` decodes an escape pair into `real_byte`, but the acknowledge states and the
switch over the active command go on to look at `received_byte`, the second byte of the pair.

* `takeData`, `driveData`, `takeSymbol`: what a data symbol should do, wherever it arrives;
* `escape_transparent_iff`: a pair does exactly that unless its second byte is mistaken;
* `syn_after_esc_lost`: a SYN after a dangling ESC does none of what a SYN should do.
-/

namespace EsphomeEbus

open Elf Transducer Stuffing

/-! ### Data symbols -/

/-- A data symbol in the receiving telegram.  It is neither a SYN nor an acknowledge. -/
def Telegram.takeData (t : Telegram) (v : Byte) : Telegram :=
  match t.state with
  | .waitForArbitration => (t.pushReqData v).setState .waitForRequestData
  | .waitForRequestData =>
    let t := t.pushReqData v
    if t.isRequestComplete then
      t.setState (if t.isAckExpected then .waitForRequestAck else .endCompleted)
    else t
  | .waitForRequestAck => t.setState .endErrorRequestNoAck
  | .waitForResponseData =>
    let t := t.pushResponseData v
    if t.isResponseComplete then t.setState .waitForResponseAck else t
  | .waitForResponseAck => t.setState .endErrorResponseNoAck
  | _ => t

namespace Ebus

/-- A data symbol and the active command: in the arbitration it is an address, elsewhere nothing. -/
def driveData (s : Ebus) (v : Byte) : Driven :=
  match s.activeCommand.state with
  | .waitForArbitration =>
    if v = s.activeCommand.getQq then s.startRequest
    else if getPriorityClass v = getPriorityClass s.activeCommand.getQq then
      s.setCommandState .waitForArbitration2nd
    else s.retryOrFail
  | .waitForArbitration2nd => if v = s.activeCommand.getQq then s.startRequest else s.retryOrFail
  | _ => s.stay

/-- A call that takes a symbol as data, whatever bytes it came in. -/
def takeSymbol (s : Ebus) (call : Call) (v : Byte) : Ebus × Output :=
  let counted : Ebus := { s with charCountSinceLastSyn := s.charCountSinceLastSyn + 1 }
  let queued := counted.queueFinished
  let dequeued := queued.1.dequeue call.dequeued
  let received : Ebus :=
    { dequeued.1 with receivingTelegram := dequeued.1.receivingTelegram.takeData v }
  let driven := received.driveData v
  let done : Ebus :=
    { received with activeCommand := driven.activeCommand, lockCounter := driven.lockCounter }
  (done,
    { queued := queued.2
      dequeueCalled := dequeued.2
      qq := driven.qq
      request := driven.request
      acknowledge := done.acknowledgeResponse
      answer := handleResponse done.config.primaryAddress call.sendResponseHandlers
        done.receivingTelegram })

end Ebus

/-- The two escape pairs. -/
theorem unmark_cases {c v : Byte} (h : wire.unmark c = some v) :
    c = 0x00#8 ∧ v = esc ∨ c = 0x01#8 ∧ v = syn := by
  have hunmark : wire.unmark c =
      if c = 0x00#8 then some esc else if c = 0x01#8 then some syn else none := rfl
  rw [hunmark] at h
  split at h
  · rename_i hc
    exact .inl ⟨hc, (Option.some.inj h).symm⟩
  · split at h
    · rename_i hc
      exact .inr ⟨hc, (Option.some.inj h).symm⟩
    · cases h

theorem unmark_ne_syn {c v : Byte} (h : wire.unmark c = some v) : c ≠ syn :=
  mark_ne_syn ((wire.unmark_eq_some v c).mp h)

/-! ### Where the second byte is mistaken -/

/-- The receiver takes the second byte of a pair for an acknowledge. -/
def Telegram.MistakesAck (t : Telegram) (c : Byte) : Prop :=
  c = ack ∧ (t.state = .waitForRequestAck ∨ t.state = .waitForResponseAck)

/-- The active command takes it for an acknowledge, or for the byte that won the arbitration. -/
def SendCommand.Mistakes (command : SendCommand) (c v : Byte) : Prop :=
  command.state = .waitForCommandAck ∧ c = ack ∨
    command.state = .waitForArbitration ∧
      (getPriorityClass command.getQq = getPriorityClass c ∨
        getPriorityClass command.getQq = getPriorityClass v) ∨
    command.state = .waitForArbitration2nd ∧ (command.getQq = c ∨ command.getQq = v)

/-- Making room for a new telegram does not touch one that is under way. -/
theorem Telegram.refresh_state_iff {t : Telegram} {state : TelegramState} (h0 : 0 ≤ state.toInt)
    (hs : state ≠ .waitForSyn) : t.refresh.state = state ↔ t.state = state := by
  constructor
  · intro h
    by_contra hne
    exact Ebus.refresh_ne hne hs h
  · intro h
    rw [refresh_of_unfinished (TelegramBase.isFinished_of_state h h0), h]

theorem Telegram.receive_eq_takeData_iff (t : Telegram) {c v : Byte}
    (hc : wire.unmark c = some v) : t.receive c v = t.takeData v ↔ ¬ t.MistakesAck c := by
  have hsyn := unmark_ne_syn hc
  have hnack : c ≠ nack := by
    rcases unmark_cases hc with ⟨rfl, -⟩ | ⟨rfl, -⟩ <;> decide
  unfold MistakesAck
  cases hs : t.state with
  | waitForRequestAck =>
    simp only [receive, takeData, hs, true_or, and_true, hnack, if_false]
    split
    · rename_i hack
      simp only [hack, not_true, iff_false]
      intro h
      have hstate := congrArg (fun t : Telegram => t.state) h
      revert hstate
      split <;> simp [setState]
    · rename_i hack
      simp [hack]
  | waitForResponseAck =>
    simp only [receive, takeData, hs, or_true, and_true, hnack, if_false]
    split
    · rename_i hack
      simp only [hack, not_true, iff_false]
      intro h
      have hstate := congrArg (fun t : Telegram => t.state) h
      cases hstate
    · rename_i hack
      simp [hack]
  | _ => simp [receive, takeData, hs, hsyn]

/-- The two bytes of a pair, its second and its value, are of different priority classes. -/
theorem getPriorityClass_ne {c v : Byte} (h : wire.unmark c = some v) :
    getPriorityClass c ≠ getPriorityClass v := by
  rcases unmark_cases h with ⟨rfl, rfl⟩ | ⟨rfl, rfl⟩ <;> decide

namespace Ebus

variable {s : Ebus} {c v : Byte}

theorem not_benched_startRequest : ¬ Benched s.startRequest.activeCommand := by
  rw [startRequest_activeCommand]
  split <;> simp [Benched, SendCommand.setState]

/-- In the first round a byte of another priority class makes the command give up. -/
theorem benched_firstRound_iff (hs : s.activeCommand.state = .waitForArbitration) (b : Byte) :
    Benched (s.driveCommand b).activeCommand ↔
      getPriorityClass s.activeCommand.getQq ≠ getPriorityClass b := by
  rw [driveCommand_waitForArbitration b hs]
  by_cases hb : b = s.activeCommand.getQq
  · rw [if_pos hb, hb]
    exact iff_of_false not_benched_startRequest fun h => h rfl
  · rw [if_neg hb]
    by_cases hclass : getPriorityClass b = getPriorityClass s.activeCommand.getQq
    · rw [if_pos hclass, hclass]
      exact iff_of_false (by simp [Benched, setCommandState, stay, SendCommand.setState])
        fun h => h rfl
    · rw [if_neg hclass]
      exact iff_of_true benched_retryOrFail fun h => hclass h.symm

/-- In the second round every byte but the own QQ does. -/
theorem benched_secondRound_iff (b : Byte) :
    Benched (if b = s.activeCommand.getQq then s.startRequest else s.retryOrFail).activeCommand ↔
      s.activeCommand.getQq ≠ b := by
  by_cases hb : b = s.activeCommand.getQq
  · rw [if_pos hb]
    exact iff_of_false not_benched_startRequest fun h => h hb.symm
  · rw [if_neg hb]
    exact iff_of_true benched_retryOrFail fun h => hb h.symm

theorem driveData_firstRound (hs : s.activeCommand.state = .waitForArbitration) (v : Byte) :
    s.driveData v = s.driveCommand v := by
  rw [driveCommand_waitForArbitration v hs, driveData, hs]

theorem driveData_secondRound (hs : s.activeCommand.state = .waitForArbitration2nd) (v : Byte) :
    s.driveData v = if v = s.activeCommand.getQq then s.startRequest else s.retryOrFail := by
  rw [driveData, hs]

theorem driveData_other (h : ¬ Arbitrating s.activeCommand.toTelegramBase) (v : Byte) :
    s.driveData v = s.stay := by
  unfold Arbitrating at h
  unfold driveData
  cases hs : s.activeCommand.state <;> simp_all

theorem firstRound_gives_up (hs : s.activeCommand.state = .waitForArbitration) {b : Byte}
    (hb : getPriorityClass s.activeCommand.getQq ≠ getPriorityClass b) :
    s.driveCommand b = s.retryOrFail := by
  rw [driveCommand_waitForArbitration b hs, if_neg (fun h => hb (by rw [h])),
    if_neg (fun h => hb h.symm)]

/-- The switch over the active command takes the second byte of a pair as data, unless it mistakes
it for something else. -/
theorem driveCommand_eq_driveData (hc : wire.unmark c = some v)
    (h : ¬ s.activeCommand.Mistakes c v) : s.driveCommand c = s.driveData v := by
  have hsyn := unmark_ne_syn hc
  unfold SendCommand.Mistakes at h
  cases hs : s.activeCommand.state with
  | waitForSend =>
    rw [driveCommand_waitForSend c hs, if_neg (fun h => hsyn h.1), driveData, hs]
  | waitForArbitration =>
    simp only [hs, true_and, reduceCtorEq, false_and, false_or, or_false, not_or] at h
    rw [driveData_firstRound hs, firstRound_gives_up hs h.1, firstRound_gives_up hs h.2]
  | waitForArbitration2nd =>
    simp only [hs, true_and, reduceCtorEq, false_and, false_or, not_or] at h
    rw [driveCommand_waitForArbitration2nd c hs, if_neg hsyn, if_neg (fun hq => h.1 hq.symm),
      driveData_secondRound hs, if_neg (fun hq => h.2 hq.symm)]
  | waitForCommandAck =>
    simp only [hs, true_and, reduceCtorEq, false_and, or_false] at h
    rw [driveCommand_waitForCommandAck c hs, if_neg h, if_neg hsyn, driveData, hs]
  | _ =>
    rw [driveCommand_other c (by simp [hs]) (by simp [Arbitrating, hs]) (by simp [hs]),
      driveData_other (by simp [Arbitrating, hs])]

/-- And if it does, the command ends up where no data symbol would have taken it. -/
theorem driveCommand_ne_driveData (hc : wire.unmark c = some v)
    (h : s.activeCommand.Mistakes c v) :
    (s.driveCommand c).activeCommand ≠ (s.driveData v).activeCommand := by
  have hsyn := unmark_ne_syn hc
  have hclass := getPriorityClass_ne hc
  intro heq
  rcases h with ⟨hs, hack⟩ | ⟨hs, hqq⟩ | ⟨hs, hqq⟩
  · rw [driveCommand_waitForCommandAck c hs, if_pos hack, driveData, hs] at heq
    have hstate : TelegramState.endCompleted = s.activeCommand.state :=
      congrArg (fun c : SendCommand => c.state) heq
    rw [hs] at hstate
    cases hstate
  · have hiff := benched_firstRound_iff hs c
    have hiff' := benched_firstRound_iff hs v
    rw [driveData_firstRound hs] at heq
    rw [heq, hiff'] at hiff
    rcases hqq with hqq | hqq
    · exact hiff.mp (fun h => hclass (hqq.symm.trans h)) hqq
    · exact hiff.mpr (fun h => hclass (h.symm.trans hqq)) hqq
  · have hiff := benched_secondRound_iff (s := s) c
    have hiff' := benched_secondRound_iff (s := s) v
    rw [driveCommand_waitForArbitration2nd c hs, if_neg hsyn, driveData_secondRound hs] at heq
    rw [heq, hiff'] at hiff
    have hne : c ≠ v := fun h => hclass (by rw [h])
    rcases hqq with hqq | hqq
    · exact hiff.mp (fun h => hne (hqq.symm.trans h)) hqq
    · exact hiff.mpr (fun h => hne (h.symm.trans hqq)) hqq

/-! ### A whole pair -/

variable {call : Call}

theorem takeSymbol_receivingTelegram (s : Ebus) (call : Call) (v : Byte) :
    (s.takeSymbol call v).1.receivingTelegram = s.receivingTelegram.refresh.takeData v := by
  simp only [takeSymbol, queueFinished_fst, dequeue_fst]

theorem takeSymbol_activeCommand (s : Ebus) (call : Call) (v : Byte)
    (hc : call.receivedByte ≠ syn) : (s.takeSymbol call v).1.activeCommand =
      ((s.beforeDrive call v).driveData v).activeCommand := by
  simp only [takeSymbol, queueFinished_fst, dequeue_fst, beforeDrive, countSyn_of_ne_syn _ hc]
  rfl

/-- The second byte of a pair is processed as data. -/
theorem processSymbol_eq_takeSymbol_iff (hc : wire.unmark call.receivedByte = some v) :
    s.processSymbol call v = s.takeSymbol call v ↔
      ¬ (s.receivingTelegram.MistakesAck call.receivedByte ∨
        (s.nextCommand call.dequeued).Mistakes call.receivedByte v) := by
  have hsyn := unmark_ne_syn hc
  have hreceive := s.receivingTelegram.refresh.receive_eq_takeData_iff hc
  have hrefresh : s.receivingTelegram.refresh.MistakesAck call.receivedByte ↔
      s.receivingTelegram.MistakesAck call.receivedByte := by
    unfold Telegram.MistakesAck
    rw [Telegram.refresh_state_iff (by decide) (by decide),
      Telegram.refresh_state_iff (by decide) (by decide)]
  rw [hrefresh] at hreceive
  constructor
  · intro heq hor
    rcases hor with hmistakes | hmistakes
    · have htelegram := congrArg (fun r : Ebus × Output => r.1.receivingTelegram) heq
      rw [processSymbol_receivingTelegram, takeSymbol_receivingTelegram] at htelegram
      exact hreceive.mp htelegram hmistakes
    · have hcommand := congrArg (fun r : Ebus × Output => r.1.activeCommand) heq
      rw [takeSymbol_activeCommand s call v hsyn, processSymbol_fst] at hcommand
      exact driveCommand_ne_driveData (s := s.beforeDrive call v) hc hmistakes hcommand
  · intro hnot
    rw [not_or] at hnot
    have hr := hreceive.mpr hnot.1
    have hd : s.drivenBy call v = (s.beforeDrive call v).driveData v :=
      driveCommand_eq_driveData (s := s.beforeDrive call v) hc hnot.2
    have hstate : (s.processSymbol call v).1 = (s.takeSymbol call v).1 := by
      rw [processSymbol_fst, hd]
      simp only [takeSymbol, queueFinished_fst, dequeue_fst, beforeDrive,
        countSyn_of_ne_syn _ hsyn, hr]
      rfl
    apply Prod.ext hstate
    rw [processSymbol_snd, hd, hstate]
    simp only [takeSymbol, queueFinished_fst, dequeue_fst, queueFinished_snd, dequeue_snd,
      beforeDrive, countSyn_of_ne_syn _ hsyn, hr]
    rfl

/-- The two calls that deliver an escape pair do nothing, and then what a data symbol with its value
does. -/
def TreatedAsData (s : Ebus) (first second : Call) (v : Byte) : Prop :=
  (s.processReceivedChar first).2 = {} ∧
    (s.processReceivedChar first).1.processReceivedChar second = s.takeSymbol second v

instance (s : Ebus) (first second : Call) (v : Byte) :
    Decidable (s.TreatedAsData first second v) := inferInstanceAs (Decidable (_ ∧ _))

/-- **Escape transparency.**  Outside an escape pair, the pair ESC 00 or ESC 01 is treated as the
data symbol it stands for, if and only if its second byte is mistaken neither by the receiver nor by
the active command. -/
theorem escape_transparent_iff {first second : Call} (hesc : s.inEsc = false)
    (hfirst : first.receivedByte = esc) (hpair : wire.unmark second.receivedByte = some v) :
    s.TreatedAsData first second v ↔
      ¬ (s.receivingTelegram.MistakesAck second.receivedByte ∨
        (s.nextCommand second.dequeued).Mistakes second.receivedByte v) := by
  have hopen : s.processReceivedChar first = ({ s with inEsc := true }, {}) := by
    rw [processReceivedChar, hesc, hfirst]
    rfl
  have hclose : ({ s with inEsc := true } : Ebus).processReceivedChar second =
      s.processSymbol second v := by
    have hsame : ({ s with inEsc := false } : Ebus) = s := by
      rw [← hesc]
    have hne := unmark_cases hpair
    rw [processReceivedChar]
    rcases hne with ⟨hb, rfl⟩ | ⟨hb, rfl⟩
    · simp [hb, hsame]
    · simp [hb, hsame]
  rw [TreatedAsData, hopen, hclose, and_iff_right rfl]
  exact processSymbol_eq_takeSymbol_iff hpair

/-- A node that has heard a whole request to 0x08 and waits for its acknowledge. -/
def awaitsAck : Ebus :=
  (init (defaultConfig 0x30#8)).after
    (quiet [0xAA#8, 0x10#8, 0x08#8, 0x07#8, 0x04#8, 0x00#8, 0x17#8])

/-- A node with the address 0x00 that has sent its QQ. -/
def zeroContender : Ebus :=
  (init (defaultConfig 0x00#8)).after
    [⟨syn, some (.new 0x00#8 0x08#8 0x0704#16 [0x12#8]), []⟩]

/-- In the middle of a request a pair is data. -/
theorem pair_in_request :
    let s := (init (defaultConfig 0x30#8)).after (quiet [0xAA#8, 0x10#8, 0x08#8])
    s.TreatedAsData ⟨esc, none, []⟩ ⟨0x01#8, none, []⟩ syn ↔
      ¬ (s.receivingTelegram.MistakesAck 0x01#8 ∨ (s.nextCommand none).Mistakes 0x01#8 syn) :=
  escape_transparent_iff (by decide +kernel) rfl rfl

/-- In place of an acknowledge ESC 00 acknowledges, and after its QQ it makes the node 0x00 win. -/
theorem pair_mistaken :
    (Reachable (defaultConfig 0x30#8) awaitsAck ∧ awaitsAck.inEsc = false ∧
      awaitsAck.receivingTelegram.state = .waitForRequestAck ∧
      (awaitsAck.after (quiet [esc, 0x00#8])).receivingTelegram.state = .waitForResponseData ∧
      ¬ awaitsAck.TreatedAsData ⟨esc, none, []⟩ ⟨0x00#8, none, []⟩ esc) ∧
    Reachable (defaultConfig 0x00#8) zeroContender ∧ zeroContender.inEsc = false ∧
      zeroContender.activeCommand.state = .waitForArbitration ∧
      (zeroContender.after (quiet [esc, 0x00#8])).activeCommand.state = .waitForCommandAck ∧
      ¬ zeroContender.TreatedAsData ⟨esc, none, []⟩ ⟨0x00#8, none, []⟩ esc := by
  refine ⟨⟨reachable_after _ _, ?_⟩, reachable_after _ _, ?_⟩
  · decide +kernel
  · decide +kernel

end Ebus

/-! ### A SYN after a dangling ESC -/

/-- The receiver takes the next byte for the QQ of a telegram. -/
def Telegram.ReadyForTelegram (t : Telegram) : Prop :=
  ∀ b, b ≠ syn → b ≠ esc →
    (t.refresh.receive b b).state = .waitForRequestData ∧ (t.refresh.receive b b).getQq = b

namespace Ebus

variable {s : Ebus} {call : Call}

/-- The call has on `s` the effect it has outside an escape pair, as far as the timing of the bus is
concerned: the counters, the kind of the SYN, the lock and the active command; and the receiver is
ready for the telegram after it. -/
structure Synchronises (s : Ebus) (call : Call) : Prop where
  inEsc : (s.processReceivedChar call).1.inEsc = false
  charCount : (s.processReceivedChar call).1.charCountSinceLastSyn = 0
  state : (s.processReceivedChar call).1.state =
    (({ s with inEsc := false } : Ebus).processReceivedChar call).1.state
  lockCounter : (s.processReceivedChar call).1.lockCounter =
    (({ s with inEsc := false } : Ebus).processReceivedChar call).1.lockCounter
  activeCommand : (s.processReceivedChar call).1.activeCommand =
    (({ s with inEsc := false } : Ebus).processReceivedChar call).1.activeCommand
  ready : (s.processReceivedChar call).1.receivingTelegram.ReadyForTelegram

/-- A SYN that closes no escape pair is swallowed: nothing is counted, classified, unlocked or
driven, and the receiver waits for another SYN. -/
theorem syn_swallowed (hesc : s.inEsc = true) (hsyn : call.receivedByte = syn) :
    s.processReceivedChar call = ({ s with inEsc := false, receivingTelegram := .new }, {}) := by
  rw [processReceivedChar, hesc, hsyn]
  rfl

/-- Outside an escape pair a SYN between two telegrams has all of its effects. -/
theorem syn_synchronises (hesc : s.inEsc = false) (hsyn : call.receivedByte = syn)
    (ht : s.receivingTelegram.isFinished = true ∨ s.receivingTelegram = .new) :
    s.Synchronises call := by
  have hp := processed_plain call hesc (by rw [hsyn]; decide)
  have hsame : ({ s with inEsc := false } : Ebus) = s := by
    rw [← hesc]
  have hnew : s.receivingTelegram.refresh = .new := by
    rcases ht with hf | ht
    · exact Telegram.refresh_of_finished hf
    · rw [ht]
      rfl
  refine ⟨hp.inEsc, ?_, by rw [hsame], by rw [hsame], by rw [hsame], ?_⟩
  · rw [hp.charCount, hsyn, countSyn_syn]
  · rw [hp.receivingTelegram, hnew, hsyn]
    intro b hb _
    have hfirst : ((Telegram.new.receive syn syn).refresh.receive b b) =
        ((Telegram.new.setState .waitForArbitration).pushReqData b).setState .waitForRequestData :=
      if_pos hb
    have hholds := (Telegram.holds_new.setState .waitForArbitration).pushReqData growing_nil b
    rw [hfirst]
    exact ⟨rfl, hholds.request.get_of_lt 0 (by simp)⟩

/-- **A SYN after a dangling ESC is lost**, in every state. -/
theorem syn_after_esc_lost (hesc : s.inEsc = true) (hsyn : call.receivedByte = syn) :
    ¬ s.Synchronises call := by
  intro h
  have hready : Telegram.new.ReadyForTelegram := by
    have hready := h.ready
    rwa [syn_swallowed hesc hsyn] at hready
  exact absurd (hready 0x10#8 (by decide) (by decide)).1 (by decide)

/-- A node whose command waits for its acknowledge, in an escape pair. -/
def waitsInEsc : Ebus :=
  (init (defaultConfig 0x10#8)).after
    (⟨syn, some (.new 0x10#8 0x08#8 0x0704#16 [0x12#8]), []⟩ :: quiet [0x10#8, esc])

theorem waitsInEsc_not_synchronised : ¬ waitsInEsc.Synchronises ⟨syn, none, []⟩ :=
  syn_after_esc_lost (by decide +kernel) rfl

/-- The SYN after it is no timeout for the command, and no start of anything. -/
theorem waitsInEsc_misses_syn : Reachable (defaultConfig 0x10#8) waitsInEsc ∧
    waitsInEsc.inEsc = true ∧ ¬ waitsInEsc.Synchronises ⟨syn, none, []⟩ ∧
    (waitsInEsc.after (quiet [syn])).charCountSinceLastSyn = 1 ∧
    (waitsInEsc.after (quiet [syn])).activeCommand.state = .waitForCommandAck ∧
    (({ waitsInEsc with inEsc := false } : Ebus).after (quiet [syn])).activeCommand.state =
      .waitForSend ∧
    (waitsInEsc.after (quiet [syn])).receivingTelegram.state = .waitForSyn := by
  refine ⟨reachable_after _ _, by decide +kernel, ?_, by decide +kernel⟩
  intro h
  have hcount := h.charCount
  revert hcount
  decide +kernel

end Ebus

end EsphomeEbus
