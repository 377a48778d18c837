import EsphomeEbus.Acknowledge
import EsphomeEbus.Contention
import EsphomeEbus.Limits
import EsphomeEbus.Responder
import EsphomeEbus.Roles

/-!
# A node as a station on the bus

What a byte on the bus makes a node send, said for a bus that carries one transmission at a time.

* `Ebus.react`: `process_received_char` as a station's machine, with what is in its queue and its
  handlers as the intake of a slot;
* `Uninterrupted`: a stretch of bytes that makes no node answer before its last byte;
* `uninterrupted_request`, `uninterrupted_answer`, `uninterrupted_acknowledge`: everything a node
  sends is such a stretch for the nodes that hear it;
* `react_unprompted`, `react_due`, `react_syn`, `react_slot`: when a node sends, and what.
-/

namespace EsphomeEbus

open Elf Transducer

/-! ### Stretches without an answer -/

/-- A receiver that hears the bytes `p` expects nobody to acknowledge anything before the last of
them, and up to there they bring no SYN. -/
def Uninterrupted (r : Bool × Telegram) (p : List Byte) : Prop :=
  ∀ u v, p = u ++ v → u ≠ [] → v ≠ [] →
    syn ∉ u ∧ (run (receiver false) r u).2.NoAckDue

theorem uninterrupted_nil (r : Bool × Telegram) : Uninterrupted r [] := by
  intro u v h hu
  exact absurd (List.append_eq_nil_iff.mp h.symm).1 hu

theorem uninterrupted_cons {r : Bool × Telegram} {b : Byte} {p : List Byte} :
    Uninterrupted r (b :: p) ↔
      (p ≠ [] → b ≠ syn ∧ (receiver false r b).1.2.NoAckDue) ∧
        Uninterrupted (receiver false r b).1 p := by
  constructor
  · intro h
    constructor
    · intro hp
      obtain ⟨hsyn, hdue⟩ := h [b] p rfl (by simp) hp
      exact ⟨fun hb => hsyn (by simp [hb]), hdue⟩
    · intro u v huv _ hv
      obtain ⟨hsyn, hdue⟩ := h (b :: u) v (by rw [huv, List.cons_append]) (by simp) hv
      exact ⟨fun hb => hsyn (List.mem_cons_of_mem b hb), hdue⟩
  · rintro ⟨hfirst, hrest⟩ u v huv hu hv
    cases u with
    | nil => exact absurd rfl hu
    | cons c u =>
      obtain ⟨rfl, rfl⟩ := List.cons.inj huv
      have hp : u ++ v ≠ [] := by simp [hv]
      by_cases hu' : u = []
      · subst hu'
        exact ⟨by simpa using (hfirst hp).1.symm, (hfirst hp).2⟩
      · obtain ⟨hsyn, hdue⟩ := hrest u v rfl hu' hv
        refine ⟨?_, hdue⟩
        rw [List.mem_cons, not_or]
        exact ⟨(hfirst hp).1.symm, hsyn⟩

theorem uninterrupted_single (r : Bool × Telegram) (b : Byte) : Uninterrupted r [b] :=
  uninterrupted_cons.mpr ⟨fun h => absurd rfl h, uninterrupted_nil _⟩

/-- Encoded values, of which no part before the last makes an acknowledge due. -/
theorem uninterrupted_encodeAll {t : Telegram} {vs : List Byte}
    (h : ∀ us ws, vs = us ++ ws → ws ≠ [] →
      (run (hear false) t (us.map wire.symbolOf)).NoAckDue) :
    Uninterrupted (false, t) (wire.encodeAll vs) := by
  intro u v huv _ hv
  refine ⟨fun hsyn => syn_not_mem_encodeAll vs (huv ▸ List.mem_append_left v hsyn), ?_⟩
  obtain ⟨us, ws, hvs, hws, hread⟩ := wire.symbols_prefix huv hv
  rw [receiver, wire.run_behind, hread]
  exact h us ws hvs hws

theorem noAckDue_of_state {t : Telegram} {state : TelegramState} (hs : t.state = state)
    (h : state ≠ .waitForRequestAck ∧ state ≠ .waitForResponseAck) : t.NoAckDue := by
  rw [Telegram.NoAckDue, hs]
  exact h

/-! ### What the nodes send -/

/-- The values that the winner of an arbitration sends. -/
def requestValues (c : SendCommand) : List Byte :=
  [c.getZz, c.getPb, c.getSb, c.getNn] ++
    (List.range c.getNn.toNat).map
      (fun i => BitVec.ofInt 8 (c.getRequestByte (BitVec.ofNat 8 i))) ++ [c.getCrc]

theorem uartSendRemainingRequestPart_eq_encodeAll (c : SendCommand) :
    uartSendRemainingRequestPart c = wire.encodeAll (requestValues c) := by
  have h := uartSendRemainingRequestPart_eq c
  rw [uartSendChar_eq_encode] at h
  exact List.append_cancel_left h

/-- With a QQ before them they make a complete request, whatever the command. -/
theorem complete_requestValues (qq : Byte) (c : SendCommand) :
    Complete offsetData (qq :: requestValues c) := by
  have hnn : (clipNn c.getNn).toNat = c.getNn.toNat := by
    have hlt : c.getNn.toNat < maxDataLength := clipNn_lt _
    rw [clipNn, if_neg (Nat.not_le.mpr hlt)]
  have hann : announced offsetData (qq :: requestValues c) = c.getNn.toNat := hnn
  rw [Complete, hann]
  simp [requestValues, offsetData]
  omega

/-- A receiver that has taken a QQ, or takes nothing, is not interrupted by the rest of the request.
-/
theorem uninterrupted_request {t : Telegram} {ys : List (Stuffing.Symbol Byte)} {qq : Byte}
    (hheard : Heard t ys) (happart : t.Apart) (hqq : qq ≠ syn) (c : SendCommand) :
    Uninterrupted (false, t.refresh.receive qq qq) (uartSendRemainingRequestPart c) := by
  rw [uartSendRemainingRequestPart_eq_encodeAll]
  apply uninterrupted_encodeAll
  intro us ws hvs hws
  obtain ⟨hheard', hunfinished⟩ := hheard.refresh
  have happart' := happart.refresh
  generalize t.refresh = t' at hheard' happart' hunfinished ⊢
  cases hheard' with
  | idle hs =>
    have hrest : t'.receive qq qq = t' := by rw [Telegram.receive, hs]; simp [hqq]
    rw [hrest, (becomes_unsynced false hs us).1]
    exact noAckDue_of_state hs (by decide)
  | opened hs ht =>
    -- the receiver takes the request, which is complete with its last value only
    have hfirst : t'.receive qq qq = (t'.pushReqData qq).setState .waitForRequestData := by
      simp only [Telegram.receive, hs, ne_eq, hqq, not_false_eq_true, if_true]
    have hc := complete_requestValues qq c
    rw [hvs, ← List.cons_append] at hc
    obtain ⟨t₁, hb₁, hs₁, -⟩ := becomes_request_part false us
      (t := (t'.pushReqData qq).setState .waitForRequestData) rfl
      ((ht.pushReqData growing_nil qq).setState _) (growing_of_complete offsetData_pos hc hws)
    rw [hfirst, hb₁.1]
    exact noAckDue_of_state hs₁ (by decide)
  | request hs => exact absurd hs happart'.1
  | requestAck hs => exact absurd hs happart'.2.1
  | response hs => exact absurd hs happart'.2.2.1
  | responseAck hs => exact absurd hs happart'.2.2.2
  | completed hs =>
    rw [TelegramBase.isFinished_of_end hs (by decide)] at hunfinished
    cases hunfinished
  | failed hf =>
    rw [hf] at hunfinished
    cases hunfinished

/-- A receiver that waits for the acknowledge of a request is not interrupted by the answer to it.
-/
theorem uninterrupted_answer {t : Telegram} {ys : List (Stuffing.Symbol Byte)}
    {handlers : List (Telegram → List Byte)} {primaryAddress : Byte} (hheard : Heard t ys)
    (hs : t.state = .waitForRequestAck) (hprim : isPrimary primaryAddress = true)
    (hz : t.getZz = toSecondary primaryAddress)
    (hreplies : ∀ handler ∈ handlers, ∀ t, (handler t).length < maxDataLength) :
    Uninterrupted (false, t) (answerTo handlers t) := by
  rw [answerTo]
  split
  · exact uninterrupted_single _ _
  · split
    · exact uninterrupted_single _ _
    · rename_i reply hfind
      have hlen : reply.length < maxDataLength := by
        obtain ⟨handler, hmem, rfl⟩ := List.mem_map.mp (List.mem_of_find?_eq_some hfind)
        exact hreplies handler hmem t
      rw [if_neg (by unfold responseBufferSize; omega)]
      obtain ⟨rq, ht, hack⟩ := hheard.request_of_waitForRequestAck hs
      have htype : t.getType = .primarySecondary :=
        getType_of_toSecondary (isPrimary_ne_esc hprim) hz hack
      have hnn : wire.encode (BitVec.ofNat 8 reply.length) = [BitVec.ofNat 8 reply.length] := by
        rw [← uartSendChar_eq_encode]
        exact uartSendChar_length (by unfold responseBufferSize; omega)
      have hbytes : [ack, BitVec.ofNat 8 reply.length] ++
          wire.encodeAll (reply ++ [replyCrc reply]) =
            ack :: wire.encodeAll (responseBytes reply ++ [replyCrc reply]) := by
        show _ = ack :: wire.encodeAll
          (BitVec.ofNat 8 reply.length :: (reply ++ [replyCrc reply]))
        rw [Stuffing.encodeAll_cons, hnn]
        rfl
      have hstep : (receiver false (false, t) ack).1 =
          (false, t.setState .waitForResponseData) := by
        have hb := becomes_requestAck false hs
        rw [(TelegramBase.isResponseExpected_iff _).mpr htype, if_pos rfl] at hb
        exact Prod.ext rfl hb.1
      rw [hbytes, uninterrupted_cons, hstep]
      have hwaits : (t.setState .waitForResponseData).state = .waitForResponseData := rfl
      refine ⟨fun _ => ⟨by decide, noAckDue_of_state hwaits (by decide)⟩, ?_⟩
      apply uninterrupted_encodeAll
      intro us ws hvs hws
      have hc := complete_response hlen (replyCrc reply)
      rw [hvs] at hc
      obtain ⟨t₁, hb₁, hs₁, -⟩ := becomes_response_part false us
        (t := t.setState .waitForResponseData) rfl (ht.setState _)
        (growing_of_complete responseOffset_pos hc hws)
      rw [hb₁.1]
      exact noAckDue_of_state hs₁ (by decide)

/-- A receiver that waits for the acknowledge of a response is not interrupted by it. -/
theorem uninterrupted_acknowledge {t : Telegram} (hs : t.state = .waitForResponseAck)
    (valid : Bool) : Uninterrupted (false, t) (if valid then [ack, syn] else [nack]) := by
  cases valid with
  | false => exact uninterrupted_single _ _
  | true =>
    have hf : t.isFinished = false := TelegramBase.isFinished_of_state hs (by decide)
    have hstep : (receiver false (false, t) ack).1.2 = t.setState .endCompleted := by
      show (hear false t (.plain ack)).1 = _
      rw [hear, Telegram.refresh_of_unfinished hf, Telegram.receive, hs]
      simp
    show Uninterrupted (false, t) [ack, syn]
    rw [uninterrupted_cons]
    refine ⟨fun _ => ⟨by decide, ?_⟩, uninterrupted_single _ _⟩
    rw [hstep]
    have hends : (t.setState .endCompleted).state = .endCompleted := rfl
    exact noAckDue_of_state hends (by decide)

/-! ### What a byte makes a node send -/

/-- What a node finds in a slot besides the byte: the command its queue hands over if it is asked,
and its handlers. -/
structure Intake where
  dequeued : Option SendCommand
  sendResponseHandlers : List (Telegram → List Byte)

/-- The call of a slot. -/
def Intake.call (x : Intake) (b : Byte) : Call := ⟨b, x.dequeued, x.sendResponseHandlers⟩

/-- The command waits to be sent, and is one of the node with this address, to a secondary or to
everyone. -/
structure Ours (address : Byte) (c : TelegramBase) : Prop where
  qq : c.getQq = address
  zz_ne_syn : c.getZz ≠ syn
  zz_ne_esc : c.getZz ≠ esc
  zz_not_primary : isPrimary c.getZz = false

/-- The rest of such a command begins with its ZZ. -/
theorem Ours.request_eq_cons {address : Byte} {c : SendCommand}
    (h : Ours address c.toTelegramBase) : ∃ p, uartSendRemainingRequestPart c = c.getZz :: p := by
  rw [uartSendRemainingRequestPart, Ebus.uartSendChar_of_ne h.zz_ne_syn h.zz_ne_esc]
  exact ⟨_, rfl⟩

/-- What is in a node's queue is new and its own, and what its handlers reply fits a telegram. -/
structure Intake.WellFormed (address : Byte) (x : Intake) : Prop where
  dequeued : ∀ c ∈ x.dequeued, c.state = .waitForSend ∧ Ours address c.toTelegramBase
  replies : ∀ handler ∈ x.sendResponseHandlers, ∀ t, (handler t).length < maxDataLength

theorem Intake.WellFormed.delivers {address : Byte} {x : Intake} (h : x.WellFormed address)
    (b : Byte) : Ebus.Delivers (x.call b) := fun c hc => (h.dequeued c hc).1

namespace Ebus

/-- `process_received_char` on a byte of the bus: the driver after it, and the bytes it sends. -/
def react (s : Ebus) (b : Byte) (x : Intake) : Ebus × List Byte :=
  ((s.processReceivedChar (x.call b)).1, (s.processReceivedChar (x.call b)).2.sent)

variable {s : Ebus} {b : Byte} {x : Intake}

theorem react_config : (s.react b x).1.config = s.config := processReceivedChar_config s _

/-- The receiver hears the byte, whatever else the node does with it. -/
theorem react_receiving : (s.react b x).1.receiving = (receiver false s.receiving b).1 := by
  have h := (receiver_projects s.config.queueReceivedTelegram s (x.call b) rfl).2
  have heq : (s.react b x).1.receiving =
      (receiver s.config.queueReceivedTelegram s.receiving b).1 := congrArg Prod.fst h.symm
  rw [heq]
  refine Prod.ext rfl ?_
  exact run_hear_congr _ _ _ _

/-- The record of what has been heard goes on. -/
theorem heard_react (h : ∃ ys, Heard s.receivingTelegram ys) :
    ∃ ys, Heard (s.react b x).1.receivingTelegram ys := by
  obtain ⟨ys, h⟩ := h
  have hproper : ∀ y ∈ (wire.read s.inEsc b).2, wire.Proper y := fun y => wire.proper_of_mem_read
  have heq : (s.react b x).1.receivingTelegram =
      run (hear false) s.receivingTelegram (wire.read s.inEsc b).2 :=
    congrArg Prod.snd react_receiving
  rw [heq]
  generalize (wire.read s.inEsc b).2 = more at hproper
  generalize s.receivingTelegram = t at h
  induction more generalizing t ys with
  | nil => exact ⟨ys, h⟩
  | cons y more ih =>
    exact ih (ys ++ [y]) (fun z hz => hproper z (List.mem_cons_of_mem y hz)) _
      (heard_hear false h (hproper y (by simp)))

/-- What a byte sends, by the blocks that send it. -/
theorem react_sent : (s.react b x).2 = (s.processReceivedChar (x.call b)).2.qq ++
    (s.processReceivedChar (x.call b)).2.request ++
    (s.processReceivedChar (x.call b)).2.acknowledge ++
    (s.processReceivedChar (x.call b)).2.answer := rfl

/-- Off a SYN no QQ is sent. -/
theorem qq_of_ne_syn (hsyn : b ≠ syn) : (s.processReceivedChar (x.call b)).2.qq = [] := by
  obtain ⟨pending, t, heq, -⟩ | ⟨real, hp, -⟩ := s.silent_or_processed (x.call b)
  · rw [heq]
  · by_contra hqq
    rw [hp.qq] at hqq
    exact hsyn ((s.drives_drivenBy (x.call b) real).sends hqq).1

/-- No request is sent off the QQ of a command in the arbitration. -/
theorem request_of_not_won (hd : Delivers (x.call b))
    (hqq : Arbitrating s.activeCommand.toTelegramBase → b ≠ s.activeCommand.getQq) :
    (s.processReceivedChar (x.call b)).2.request = [] := by
  by_contra hreq
  obtain ⟨harb, hb, -⟩ := request_sent hreq
  have hnext : s.nextCommand x.dequeued = s.activeCommand := nextCommand_of_arbitrating hd harb
  have hb' : b = (s.nextCommand x.dequeued).getQq := hb
  rw [hnext] at hb'
  exact hqq (hnext ▸ harb) hb'

/-- **Unprompted, a node sends nothing**: off a SYN and its own QQ, with no acknowledge due. -/
theorem react_unprompted (hd : Delivers (x.call b)) (hsyn : b ≠ syn)
    (hqq : Arbitrating s.activeCommand.toTelegramBase → b ≠ s.activeCommand.getQq)
    (hdue : (receiver false s.receiving b).1.2.NoAckDue) : (s.react b x).2 = [] := by
  have hrecv : (s.processReceivedChar (x.call b)).1.receivingTelegram.NoAckDue := by
    rw [← react_receiving (x := x)] at hdue
    exact hdue
  rw [react_sent, qq_of_ne_syn hsyn, request_of_not_won hd hqq]
  obtain ⟨pending, t, heq, -⟩ | ⟨real, hp, -⟩ := s.silent_or_processed (x.call b)
  · rw [heq]
    rfl
  · rw [(hp.silent_of_noAckDue hrecv).1, (hp.silent_of_noAckDue hrecv).2]
    rfl

/-- An acknowledge or an answer is due, and this is what is sent. -/
inductive Due (s : Ebus) (x : Intake) (sent : List Byte) : Prop
  | answer : s.receivingTelegram.state = .waitForRequestAck →
      s.receivingTelegram.getZz = toSecondary s.config.primaryAddress →
      sent = answerTo x.sendResponseHandlers s.receivingTelegram → Due s x sent
  | acknowledge : s.receivingTelegram.state = .waitForResponseAck →
      s.receivingTelegram.getQq = s.config.primaryAddress →
      sent = (if s.receivingTelegram.isResponseValid then [ack, syn] else [nack]) → Due s x sent

/-- **A node that sends off a SYN and its own QQ** sends what is due. -/
theorem react_due (hd : Delivers (x.call b)) (hsyn : b ≠ syn)
    (hqq : Arbitrating s.activeCommand.toTelegramBase → b ≠ s.activeCommand.getQq)
    (hsent : (s.react b x).2 ≠ []) :
    (s.react b x).1.inEsc = false ∧ (s.react b x).1.Due x (s.react b x).2 := by
  rw [react_sent, qq_of_ne_syn hsyn, request_of_not_won hd hqq] at hsent ⊢
  have hesc : (s.react b x).1.inEsc = false := by
    obtain ⟨pending, t, heq, -⟩ | ⟨real, hp, -⟩ := s.silent_or_processed (x.call b)
    · rw [heq] at hsent
      exact absurd rfl hsent
    · exact hp.inEsc
  refine ⟨hesc, ?_⟩
  have hconfig : (s.react b x).1.config = s.config := react_config
  by_cases hack : (s.processReceivedChar (x.call b)).2.acknowledge = []
  · have hans : (s.processReceivedChar (x.call b)).2.answer ≠ [] := by
      intro hans
      rw [hack, hans] at hsent
      exact hsent rfl
    obtain ⟨henters, hzz⟩ := answer_iff.mp hans
    refine .answer henters.2 (by rw [hconfig]; exact hzz) ?_
    rw [hack, answer_eq hans]
    rfl
  · obtain ⟨henters, hq⟩ := acknowledge_iff.mp hack
    have hans : (s.processReceivedChar (x.call b)).2.answer = [] := by
      by_contra hans
      have hstate := (answer_iff.mp hans).1.2
      rw [henters.2] at hstate
      cases hstate
    refine .acknowledge henters.2 (by rw [hconfig]; exact hq) ?_
    rw [hans, acknowledge_eq hack, List.append_nil]
    rfl

/-! ### The sending side of a slot -/

theorem ours_congr {address : Byte} {c c' : TelegramBase} (h : c.request = c'.request)
    (hc : Ours address c) : Ours address c' := by
  have hqq : c'.getQq = c.getQq := by rw [TelegramBase.getQq, TelegramBase.getQq, h]
  have hzz : c'.getZz = c.getZz := by rw [TelegramBase.getZz, TelegramBase.getZz, h]
  exact ⟨hqq.trans hc.qq, hzz ▸ hc.zz_ne_syn, hzz ▸ hc.zz_ne_esc, hzz ▸ hc.zz_not_primary⟩

/-- The active command is the node's own, unless it is finished. -/
def Owns (s : Ebus) (address : Byte) : Prop :=
  s.activeCommand.isFinished = true ∨ Ours address s.activeCommand.toTelegramBase

variable {address : Byte}

/-- The command that the switch works on waits to be sent, or is the active one. -/
theorem next_own (h : s.Owns address) (hx : x.WellFormed address) :
    ((s.nextCommand x.dequeued).isFinished = true ∨
        Ours address (s.nextCommand x.dequeued).toTelegramBase) ∧
      (s.nextCommand x.dequeued = s.activeCommand ∨
        (s.nextCommand x.dequeued).state = .waitForSend) := by
  rcases s.nextCommand_cases x.dequeued with heq | ⟨-, hmem⟩
  · rw [heq]
    exact ⟨h, .inl rfl⟩
  · obtain ⟨hstate, hours⟩ := hx.dequeued _ hmem
    exact ⟨.inr hours, .inr hstate⟩

theorem owns_react (h : s.Owns address) (hx : x.WellFormed address) :
    (s.react b x).1.Owns address := by
  obtain ⟨pending, t, heq, -⟩ | ⟨real, hp, -⟩ := s.silent_or_processed (x.call b)
  · rw [Owns, react, heq]
    exact h
  · have hactive : (s.react b x).1.activeCommand = (s.drivenBy (x.call b) real).activeCommand :=
      hp.activeCommand
    rw [Owns, hactive]
    obtain ⟨hfinished | hours, -⟩ := next_own h hx
    · left
      have hstay := driveCommand_finished b (s := s.beforeDrive (x.call b) real) hfinished
      rw [show s.drivenBy (x.call b) real = (s.beforeDrive (x.call b) real).stay from hstay]
      exact hfinished
    · exact .inr (ours_congr (driveCommand_activeCommand_request _).symm hours)

/-- A QQ of the node's own, in the arbitration. -/
theorem Owns.primary (h : s.Owns address) (hprim : isPrimary address = true)
    (harb : Arbitrating s.activeCommand.toTelegramBase) :
    isPrimary s.activeCommand.getQq = true ∧ s.activeCommand.getQq = address := by
  rcases h with hfinished | hours
  · rw [harb.unfinished] at hfinished
    cases hfinished
  · exact ⟨hours.qq ▸ hprim, hours.qq⟩

/-- On a SYN the switch sends the QQ of the command it leaves in the arbitration. -/
theorem Drives.on_syn {d : Driven} (h : Drives s syn d)
    (hfirst : s.activeCommand.state ≠ .waitForArbitration)
    (hprim : isPrimary s.activeCommand.getQq = true ∨ s.activeCommand.isFinished = true) :
    d.qq ++ d.request = if Arbitrating d.activeCommand.toTelegramBase
      then [d.activeCommand.getQq] else [] := by
  have hsends : ∀ c : SendCommand, c.request = s.activeCommand.request →
      Arbitrating c.toTelegramBase → s.activeCommand.isFinished = false →
      uartSendChar s.activeCommand.getQq ++ [] =
        if Arbitrating c.toTelegramBase then [c.getQq] else ([] : List Byte) := by
    intro c hc harb hf
    have hqq : c.getQq = s.activeCommand.getQq := by
      rw [TelegramBase.getQq, TelegramBase.getQq, hc]
    rcases hprim with hprim | hf'
    · rw [if_pos harb, uartSendChar_primary hprim, hqq, List.append_nil]
    · rw [hf] at hf'
      cases hf'
  have hsilent : ∀ c : SendCommand, ¬ Arbitrating c.toTelegramBase →
      ([] : List Byte) ++ [] = if Arbitrating c.toTelegramBase then [c.getQq] else [] := by
    intro c hc
    rw [if_neg hc]
    rfl
  cases h with
  | stays hn => exact hsilent _ hn
  | sendsQq hs => exact hsends _ rfl (.inl rfl) (TelegramBase.isFinished_of_state hs (by decide))
  | secondRound hs => exact absurd hs hfirst
  | sendsQqAgain hs =>
    exact hsends _ rfl (.inr hs) (TelegramBase.isFinished_of_state hs (by decide))
  | wins harb hb =>
    rcases hprim with hprim | hf
    · exact absurd hb.symm (isPrimary_ne_syn hprim)
    · rw [harb.unfinished] at hf
      cases hf
  | acknowledged hs =>
    exact hsilent _ (@not_arbitrating_setState _ .endCompleted (by decide))
  | givesUp => exact hsilent _ not_arbitrating_retryOrFail

/-- **A SYN**: the node sends the QQ of a command in the arbitration, and nothing else. -/
theorem react_syn (h : s.Owns address) (hx : x.WellFormed address)
    (hprim : isPrimary address = true) (hesc : s.inEsc = false)
    (hfirst : s.activeCommand.state ≠ .waitForArbitration) :
    AfterSyn (s.react syn x).1 ∧ (s.react syn x).2 =
      if Arbitrating (s.react syn x).1.activeCommand.toTelegramBase
        then [(s.react syn x).1.activeCommand.getQq] else [] := by
  obtain ⟨hp, hafter, hsent⟩ := @syn_slot _ (x.call syn) hesc rfl
  refine ⟨hafter, ?_⟩
  have hactive : (s.react syn x).1.activeCommand =
      (s.drivenBy (x.call syn) syn).activeCommand := hp.activeCommand
  obtain ⟨hown, hnext⟩ := next_own h hx
  have hdrives : Drives (s.beforeDrive (x.call syn) syn) syn (s.drivenBy (x.call syn) syn) :=
    drives_drivenBy s (x.call syn) syn
  rw [hactive, ← hdrives.on_syn ?_ ?_]
  · exact hsent
  · show (s.nextCommand x.dequeued).state ≠ .waitForArbitration
    rcases hnext with heq | hs
    · rwa [heq]
    · rw [hs]
      decide
  · show isPrimary (s.nextCommand x.dequeued).getQq = true ∨
      (s.nextCommand x.dequeued).isFinished = true
    rcases hown with hf | hours
    · exact .inr hf
    · left
      rw [hours.qq]
      exact hprim

/-- A SYN behind a single ESC is lost. -/
theorem react_syn_lost (hesc : s.inEsc = true) : (s.react syn x).2 = [] ∧
    (s.react syn x).1.activeCommand = s.activeCommand ∧
    (s.react syn x).1.charCountSinceLastSyn = s.charCountSinceLastSyn := by
  obtain ⟨pending, t, heq, -⟩ | ⟨real, -, ⟨hesc', -⟩ | ⟨-, hb⟩⟩ :=
    s.silent_or_processed (x.call syn)
  · rw [react, heq]
    exact ⟨rfl, rfl, rfl⟩
  · rw [hesc] at hesc'
    cases hesc'
  · exact absurd (show syn = 0x00#8 ∨ syn = 0x01#8 from hb) (by decide)

/-- Off a SYN, a command is still in the arbitration if the slot before it was its first, or if the
byte is a part of an escape pair. -/
theorem react_arbitrating (hd : Delivers (x.call b)) (hsyn : b ≠ syn)
    (harb : Arbitrating (s.react b x).1.activeCommand.toTelegramBase) :
    (s.activeCommand.state = .waitForArbitration ∧
        (s.react b x).1.activeCommand.state = .waitForArbitration2nd ∧
        (s.react b x).1.activeCommand.request = s.activeCommand.request) ∨
      (s.react b x).1.activeCommand = s.activeCommand ∧
        (s.react b x).1.charCountSinceLastSyn = s.charCountSinceLastSyn ∧
        (s.inEsc = true ∨ b = esc) := by
  obtain ⟨pending, t, heq, hcases⟩ | ⟨real, hp, -⟩ := s.silent_or_processed (x.call b)
  · right
    rw [react, heq]
    exact ⟨rfl, rfl, hcases.elim (fun h => .inr h.2.2.2) fun h => .inl h.2.2.1⟩
  · left
    have hactive : (s.react b x).1.activeCommand = (s.drivenBy (x.call b) real).activeCommand :=
      hp.activeCommand
    rw [hactive] at harb ⊢
    rcases (drives_drivenBy s (x.call b) real).arbitrating harb with hb | ⟨hs, hs'⟩
    · exact absurd hb hsyn
    · have hnext : s.nextCommand x.dequeued = s.activeCommand :=
        nextCommand_of_arbitrating hd (.inl hs)
      refine ⟨hnext ▸ hs, hs', ?_⟩
      rw [← hnext]
      exact driveCommand_activeCommand_request _

/-- A node that hears its QQ in the arbitration has won. -/
theorem drivenBy_won (harb : Arbitrating s.activeCommand.toTelegramBase)
    (hsyn : b ≠ syn) (hb : b = s.activeCommand.getQq) :
    s.drivenBy (x.call b) b = (s.beforeDrive (x.call b) b).startRequest ∧
      (s.beforeDrive (x.call b) b).activeCommand = s.activeCommand := by
  have hnext : s.nextCommand x.dequeued = s.activeCommand :=
    nextCommand_of_unfinished harb.unfinished _
  have harb' : Arbitrating (s.beforeDrive (x.call b) b).activeCommand.toTelegramBase := by
    show Arbitrating (s.nextCommand x.dequeued).toTelegramBase
    rw [hnext]
    exact harb
  exact ⟨driveCommand_wins b harb' hsyn
    (show b = (s.nextCommand x.dequeued).getQq from hnext ▸ hb), hnext⟩

/-- **The slot after a SYN**: a node that hears its QQ sends its request, and no other node sends.
-/
theorem react_slot (hd : Delivers (x.call b)) (hs : AfterSyn s) (hsyn : b ≠ syn) (hesc : b ≠ esc) :
    (s.react b x).1.charCountSinceLastSyn = 1 ∧ (s.react b x).2 =
      if Arbitrating s.activeCommand.toTelegramBase ∧ b = s.activeCommand.getQq
        then uartSendRemainingRequestPart s.activeCommand else [] := by
  obtain ⟨hp, hcount, hsent⟩ : Processed s (x.call b) b ∧
      (s.react b x).1.charCountSinceLastSyn = 1 ∧ (s.react b x).2 =
        (s.drivenBy (x.call b) b).qq ++ (s.drivenBy (x.call b) b).request :=
    @symbol_slot _ (x.call b) hs hsyn hesc
  have hqq : (s.drivenBy (x.call b) b).qq = [] := by
    rw [← hp.qq]
    exact qq_of_ne_syn hsyn
  have hsent' : (s.react b x).2 = (s.drivenBy (x.call b) b).request := by
    rw [hsent, hqq, List.nil_append]
  refine ⟨hcount, ?_⟩
  rw [hsent']
  split
  · rename_i h
    obtain ⟨hwins, hnext⟩ := drivenBy_won (x := x) h.1 hsyn h.2
    rw [hwins, startRequest_request, hnext]
  · rename_i h
    rw [← hp.request]
    exact request_of_not_won hd fun harb hb => h ⟨harb, hb⟩

/-- The winner's command waits for its acknowledge, if it expects one. -/
theorem react_won (hs : AfterSyn s) (hsyn : b ≠ syn) (hesc : b ≠ esc)
    (harb : Arbitrating s.activeCommand.toTelegramBase) (hb : b = s.activeCommand.getQq)
    (hack : s.activeCommand.isAckExpected = true) :
    (s.react b x).1.activeCommand = s.activeCommand.setState .waitForCommandAck := by
  obtain ⟨hp, -, -⟩ := @symbol_slot _ (x.call b) hs hsyn hesc
  have hactive : (s.react b x).1.activeCommand = (s.drivenBy (x.call b) b).activeCommand :=
    hp.activeCommand
  obtain ⟨hwins, hnext⟩ := drivenBy_won (x := x) harb hsyn hb
  rw [hactive, hwins, startRequest_activeCommand, hnext, hack, if_pos rfl]

end Ebus

end EsphomeEbus
