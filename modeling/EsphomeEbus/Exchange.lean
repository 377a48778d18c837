import EsphomeEbus.Bus
import EsphomeEbus.Transaction

/-!
# An exchange between two nodes of one bus

A node that has won the bus sends a request to the secondary address of another node of this code,
which answers, and whose answer the first one acknowledges.  Requester, responder and every listener
are the same code, and hear what the bus carries.

* `calls`: what a node of the bus is called with; `state_eq_after`: its driver runs on these calls;
* `sends_answer`, `sends_acknowledge`: a node whose turn it is takes it;
* `Begun`, `exchange_completes`: the whole exchange, byte by byte.
-/

namespace EsphomeEbus

open Elf Transducer SharedMedium WiredAnd

/-! ### What is due is sent -/

namespace Ebus

variable {s : Ebus} {b : Byte} {x : Intake}

/-- A byte that leaves a telegram under way, and no escape pair, was processed. -/
theorem processed_of_underway (hesc : (s.react b x).1.inEsc = false)
    (hs : (s.react b x).1.receivingTelegram.state ≠ .waitForSyn) :
    ∃ real, Processed s (x.call b) real := by
  obtain ⟨pending, t, heq, ⟨rfl, -⟩ | ⟨-, rfl, -⟩⟩ | ⟨real, hp, -⟩ :=
    s.silent_or_processed (x.call b)
  · rw [react, heq] at hesc
    cases hesc
  · rw [react, heq] at hs
    exact absurd rfl hs
  · exact ⟨real, hp⟩

/-- A node that a complete request is for answers it. -/
theorem sends_answer (hd : Delivers (x.call b)) (hsyn : b ≠ syn)
    (hqq : Arbitrating s.activeCommand.toTelegramBase → b ≠ s.activeCommand.getQq)
    (hesc : (s.react b x).1.inEsc = false)
    (hs : (s.react b x).1.receivingTelegram.state = .waitForRequestAck)
    (hz : (s.react b x).1.receivingTelegram.getZz = toSecondary s.config.primaryAddress) :
    (s.react b x).2 = answerTo x.sendResponseHandlers (s.react b x).1.receivingTelegram := by
  obtain ⟨real, hp⟩ := processed_of_underway hesc (by rw [hs]; decide)
  have hans : (s.processReceivedChar (x.call b)).2.answer ≠ [] :=
    answer_iff.mpr ⟨(hp.enters_requestAck hs).1, hz⟩
  have hsent : (s.react b x).2 ≠ [] := by
    rw [react_sent]
    exact List.append_ne_nil_of_right_ne_nil _ hans
  cases (react_due hd hsyn hqq hsent).2 with
  | answer _ _ h => exact h
  | acknowledge hs' =>
    rw [hs] at hs'
    cases hs'

/-- A node that has asked for a response acknowledges it. -/
theorem sends_acknowledge (hd : Delivers (x.call b)) (hsyn : b ≠ syn)
    (hqq : Arbitrating s.activeCommand.toTelegramBase → b ≠ s.activeCommand.getQq)
    (hesc : (s.react b x).1.inEsc = false)
    (hs : (s.react b x).1.receivingTelegram.state = .waitForResponseAck)
    (hq : (s.react b x).1.receivingTelegram.getQq = s.config.primaryAddress) :
    (s.react b x).2 =
      if (s.react b x).1.receivingTelegram.isResponseValid then [ack, syn] else [nack] := by
  obtain ⟨real, hp⟩ := processed_of_underway hesc (by rw [hs]; decide)
  have hack : (s.processReceivedChar (x.call b)).2.acknowledge ≠ [] :=
    acknowledge_iff.mpr ⟨hp.enters_responseAck hs, hq⟩
  have hsent : (s.react b x).2 ≠ [] := by
    rw [react_sent]
    exact List.append_ne_nil_of_left_ne_nil (List.append_ne_nil_of_right_ne_nil _ hack) _
  cases (react_due hd hsyn hqq hsent).2 with
  | answer hs' =>
    rw [hs] at hs'
    cases hs'
  | acknowledge _ _ h => exact h

end Ebus

namespace Bus

variable {n : ℕ} {bus : Bus n} {a r : Fin n} {b : Byte} {p : List Byte} {x : BusSlot n}

/-! ### The calls of a node -/

/-- The calls of `process_received_char` that a run of the bus makes to a node. -/
def calls (bus : Bus n) (xs : List (BusSlot n)) (i : Fin n) : List Call :=
  List.zipWith (fun b x => (x.intake i).call b) (outputs step bus xs) xs

theorem calls_cons (xs : List (BusSlot n)) (i : Fin n) : bus.calls (x :: xs) i =
    (x.intake i).call (bus.step x).2 :: (bus.step x).1.calls xs i := rfl

/-- A node's driver runs on its calls. -/
theorem state_eq_after (xs : List (BusSlot n)) (i : Fin n) :
    (run step bus xs i).state = (bus i).state.after (bus.calls xs i) := by
  induction xs generalizing bus with
  | nil => rfl
  | cons x xs ih =>
    rw [run_cons, ih, calls_cons]
    rfl

theorem bytesOf_calls (xs : List (BusSlot n)) (i : Fin n) :
    bytesOf (bus.calls xs i) = outputs step bus xs := by
  induction xs generalizing bus with
  | nil => rfl
  | cons x xs ih =>
    rw [calls_cons, outputs_cons, ← ih]
    rfl

theorem calls_take (xs : List (BusSlot n)) (i : Fin n) (k : ℕ) :
    (bus.calls xs i).take k = bus.calls (xs.take k) i := by
  induction k generalizing bus xs with
  | zero => rfl
  | succ k ih =>
    cases xs with
    | nil => rfl
    | cons x xs => exact congrArg (_ :: ·) (ih xs)

/-- What the queues hand over are commands of the nodes. -/
theorem handsOver_calls (ha : bus.Addressed) {xs : List (BusSlot n)}
    (hx : Along step Orderly bus xs) {i : Fin n} {call : Call} (hc : call ∈ bus.calls xs i) :
    Ebus.HandsOver call := by
  induction xs generalizing bus with
  | nil => cases hc
  | cons x xs ih =>
    rw [calls_cons, List.mem_cons] at hc
    rcases hc with rfl | hc
    · intro c hc
      obtain ⟨hstate, hours⟩ := (hx.1.intake i).dequeued c hc
      exact ⟨hstate, hours.qq ▸ ha.primary i⟩
    · exact ih ha.step hx.2 hc

/-! ### The turns of an exchange -/

/-- A transmission up to its last byte. -/
theorem Talks.to_last (h : bus.Talks a b p) {ys : List (BusSlot n)} (hlen : ys.length = p.length)
    (hy : Along step Orderly bus ys) : ∃ c, (run step bus ys).Talks a c [] ∧ c ∈ b :: p := by
  induction p generalizing bus b ys with
  | nil =>
    obtain rfl := List.length_eq_zero_iff.mp hlen
    exact ⟨b, h, by simp⟩
  | cons c p ih =>
    cases ys with
    | nil => cases hlen
    | cons y ys =>
      obtain ⟨d, hd, hmem⟩ := ih (h.next hy.1).2 (Nat.succ.inj hlen) hy.2
      exact ⟨d, hd, List.mem_cons_of_mem b hmem⟩

/-- The last slot of a transmission: everyone has to send what the byte makes him send. -/
theorem Talks.last_pending (h : bus.Talks a b []) (i : Fin n) : (bus.step x).2 = b ∧
    ((bus.step x).1 i).pending = ((bus i).state.react b (x.intake i)).2 := by
  have hcarried : (bus.step x).2 = b := h.alone.carried_eq h.pending (andAll_singleton b) x.idle
  refine ⟨hcarried, ?_⟩
  rw [step_pending, hcarried]
  by_cases hi : i = a
  · rw [hi, h.pending]
    rfl
  · rw [h.alone i hi]
    rfl

/-- **A transmission and what it makes another node send.**  If the receiver of node `i` ends up
with something that `i` has to react to, then that is what comes next. -/
theorem Talks.answered (h : bus.Talks a b p) {ys : List (BusSlot n)}
    (hlen : ys.length = p.length + 1) (hy : Along step Orderly bus ys) (hsyn : syn ∉ b :: p)
    {t : Telegram} (ht : run (receiver false) (bus r).state.receiving (b :: p) = (false, t)) :
    outputs step bus ys = b :: p ∧
      (t.state = .waitForRequestAck → t.getZz = toSecondary (bus.address r) → ∃ y ∈ ys,
        (run step bus ys r).pending = answerTo (y.intake r).sendResponseHandlers t) ∧
      (t.state = .waitForResponseAck → t.getQq = bus.address r →
        (run step bus ys r).pending = if t.isResponseValid then [ack, syn] else [nack]) := by
  have hcarried := h.carried hlen hy
  have hrecv : (run step bus ys r).state.receiving = (false, t) := by
    rw [run_receiving, hcarried, ht]
  rcases List.eq_nil_or_concat ys with rfl | ⟨ys, y, rfl⟩
  · cases hlen
  · rw [List.concat_eq_append] at *
    rw [along_concat] at hy
    have hlen' : ys.length = p.length := by simpa using hlen
    obtain ⟨c, hlast, hc⟩ := h.to_last hlen' hy.1
    have hcsyn : c ≠ syn := fun heq => hsyn (heq ▸ hc)
    obtain ⟨hstep, hpending⟩ := hlast.last_pending (x := y) r
    rw [run_concat] at hrecv ⊢
    rw [step_state, hstep] at hrecv
    have hesc : ((run step bus ys r).state.react c (y.intake r)).1.inEsc = false :=
      congrArg Prod.fst hrecv
    have htel : ((run step bus ys r).state.react c (y.intake r)).1.receivingTelegram = t :=
      congrArg Prod.snd hrecv
    have haddress : (run step bus ys r).state.config.primaryAddress = bus.address r :=
      run_address ys r
    have hqq := fun harb => (hlast.leaves r harb).ne_qq
    refine ⟨hcarried, fun hs hz => ⟨y, by simp, ?_⟩, fun hs hq => ?_⟩
    · rw [hpending, ← htel]
      exact Ebus.sends_answer (hy.2.delivers r c) hcsyn hqq hesc (htel ▸ hs)
        (by rw [haddress, ← hz, ← htel])
    · rw [hpending, ← htel]
      exact Ebus.sends_acknowledge (hy.2.delivers r c) hcsyn hqq hesc (htel ▸ hs)
        (by rw [haddress, ← hq, ← htel])

/-! ### The exchange -/

/-- The first SYN of an exchange is over: everyone waits for a telegram, and the node `a` has sent
its QQ, for the command of the message `m` to the node `r`. -/
structure Begun (bus : Bus n) (a r : Fin n) (m : Message) : Prop where
  regular : bus.Regular
  afterSyn : ∀ i, (bus i).state.AfterSyn
  opened : ∀ i, Open (bus i).state.receivingTelegram
  arbitrating : Arbitrating (bus.command a).toTelegramBase
  request : (bus.command a).request = m.sendCommand.request
  responder : m.zz = toSecondary (bus.address r)

variable {m : Message}

theorem Begun.qq_eq (h : bus.Begun a r m) : m.qq = bus.address a := by
  rw [← h.regular.coherent.qq_eq h.regular.addressed h.arbitrating, TelegramBase.getQq, h.request]
  exact (SendCommand.getQq_new m.qq m.zz m.command m.data_length).symm

theorem Begun.ours (h : bus.Begun a r m) :
    Ours (bus.address a) (bus.command a).toTelegramBase := by
  obtain hf | hours := h.regular.coherent.owns a
  · rw [show (bus a).state.activeCommand.isFinished = false from h.arbitrating.unfinished] at hf
    cases hf
  · exact hours

theorem Begun.zz_eq (h : bus.Begun a r m) : (bus.command a).getZz = m.zz := by
  rw [TelegramBase.getZz, h.request]
  exact SendCommand.getZz_new m.qq m.zz m.command m.data_length

theorem Begun.type_eq (h : bus.Begun a r m) : m.sendCommand.getType = .primarySecondary := by
  have hbroadcast : ∀ q : Byte, isPrimary q = true → toSecondary q ≠ broadcastAddress := by
    decide +kernel
  rw [m.getType_sendCommand, if_neg, if_neg]
  · rw [← h.zz_eq, h.ours.zz_not_primary]
    exact Bool.false_ne_true
  · rw [h.responder]
    exact hbroadcast _ (h.regular.addressed.primary r)

/-- The slot after the SYN, won by `a`, which goes on with the rest of its request. -/
theorem Begun.wins (h : bus.Begun a r m) (hx : bus.Orderly x) (hwin : (bus.step x).2 = m.qq) :
    ∃ c p, uartSendRemainingRequestPart m.sendCommand = c :: p ∧ (bus.step x).1.Talks a c p ∧
      ∀ i, ((bus.step x).1 i).state.receiving =
        run (receiver false) (false, (bus i).state.receivingTelegram) [m.qq] := by
  have hprim : isPrimary (bus.step x).2 = true := hwin ▸ m.qq_primary
  have hslot := Ebus.react_slot (hx.delivers a _) (h.afterSyn a) (isPrimary_ne_syn hprim)
    (isPrimary_ne_esc hprim)
  have hqq : (bus.step x).2 = (bus.command a).getQq := by
    rw [hwin, h.qq_eq, h.regular.coherent.qq_eq h.regular.addressed h.arbitrating]
  have htail : (bus a).pending.tail = [] := by
    cases h.regular.turn with
    | quiet hpending =>
      rw [hpending a]
      rfl
    | contention _ hpending =>
      rw [hpending a]
      split <;> rfl
    | @talk a' _ _ htalk =>
      have hcount := (htalk.leaves a h.arbitrating).charCount
      rw [(h.afterSyn a).charCount] at hcount
      cases hcount
  obtain ⟨p, hp⟩ := h.ours.request_eq_cons
  have hpending : ((bus.step x).1 a).pending = m.zz :: p := by
    rw [step_pending, htail, List.nil_append, hslot.2, if_pos ⟨h.arbitrating, hqq⟩, ← h.zz_eq]
    exact hp
  have hsent : uartSendRemainingRequestPart m.sendCommand = m.zz :: p := by
    rw [← h.zz_eq, ← hp]
    exact uartSendRemainingRequestPart_congr h.request.symm
  refine ⟨m.zz, p, hsent, (regular_step h.regular hx).talks hpending (.inl ?_), fun i => ?_⟩
  · rw [step_address]
    intro heq
    have hzz := h.ours.zz_not_primary
    rw [h.zz_eq, (List.cons.inj heq).1, h.regular.addressed.primary a] at hzz
    cases hzz
  · have hview : (bus i).state.receiving = (false, (bus i).state.receivingTelegram) := by
      rw [← (h.afterSyn i).inEsc]
      rfl
    rw [step_state, Ebus.react_receiving, hwin, hview]
    rfl

theorem run_receiver_encodeAll (t : Telegram) (vs : List Byte) :
    run (receiver false) (false, t) (wire.encodeAll vs) =
      (false, run (hear false) t (vs.map wire.symbolOf)) := by
  rw [receiver, wire.run_behind, wire.pendingAfter_encodeAll, wire.symbols_encodeAll]

/-- The request of a message in wire form: QQ, and what the winner sends after it. -/
theorem encodeAll_request (m : Message) :
    wire.encodeAll m.request = m.qq :: uartSendRemainingRequestPart m.sendCommand := by
  have hvalues : m.request = m.qq :: m.request.tail := rfl
  rw [hvalues, Stuffing.encodeAll_cons, ← uartSendChar_eq_encode,
    Ebus.uartSendChar_primary m.qq_primary, Message.sendCommand,
    uartSendRemainingRequestPart_new _ _ _ m.data_length]
  rfl

/-- The values of the answer of a secondary. -/
def answerValues (m : Message) : List Byte := ack :: withCrc (responseBytes m.response)

theorem encodeAll_answerValues (m : Message) :
    ∃ c p, wire.encodeAll (answerValues m) = ack :: c :: p := by
  have hnn : uartSendChar (BitVec.ofNat 8 m.response.length) =
      [BitVec.ofNat 8 m.response.length] :=
    uartSendChar_length (by have := m.response_length; unfold responseBufferSize; omega)
  refine ⟨BitVec.ofNat 8 m.response.length, ?_, ?_⟩
  rotate_left
  · rw [answerValues, withCrc, responseBytes, List.cons_append, Stuffing.encodeAll_cons,
      Stuffing.encodeAll_cons, ← uartSendChar_eq_encode (BitVec.ofNat 8 _), hnn]
    rfl

/-- The handlers of the node `r` reply to the request of the message with its response, which has
the same checksum in wire form. -/
structure Replies (r : Fin n) (m : Message) (xs : List (BusSlot n)) : Prop where
  reply : ∀ x ∈ xs, ∀ t, t.Holds m.request [] →
    findReply (x.intake r).sendResponseHandlers t = m.response
  nonempty : m.response ≠ []
  checksum : SameChecksum m.response

variable {xs ys : List (BusSlot n)}

/-- The answer to the request of a message. -/
theorem Replies.answerTo_eq (h : Replies r m xs) (hx : x ∈ xs) {t : Telegram}
    (ht : t.Holds m.request []) (hs : t.state = .waitForRequestAck)
    (hz : t.getZz = toSecondary (bus.address r)) :
    answerTo (x.intake r).sendResponseHandlers t = wire.encodeAll (answerValues m) := by
  have hvalid : t.isRequestValid = true :=
    (ht.isRequestValid_iff (.inl (by rw [hs]; decide))).mpr
      ⟨m.complete_request, checked_withCrc m.complete_request⟩
  have hcomplete : t.isRequestComplete = true :=
    (ht.isRequestComplete_iff (.inl (by rw [hs]; decide))).mpr m.complete_request
  have hreply := h.reply x hx t ht
  rw [← handleResponse_eq_answerTo _ hs hz hcomplete, handleResponse_eq hs hz hvalid, hreply]
  · rw [replyCrc, h.checksum]
    rfl
  · rw [hreply]
    exact List.length_pos_of_ne_nil h.nonempty
  · rw [hreply]
    exact m.response_length

/-- **The request**, up to its last byte; the node it is for is about to answer. -/
theorem Begun.requests (h : bus.Begun a r m) (hx : bus.Orderly x) (hwin : (bus.step x).2 = m.qq)
    (hlen : (x :: ys).length = (wire.encodeAll m.request).length)
    (hy : Along step Orderly (bus.step x).1 ys) (hreplies : Replies r m ys) :
    outputs step bus (x :: ys) = wire.encodeAll m.request ∧
      (run step bus (x :: ys) r).pending = wire.encodeAll (answerValues m) := by
  obtain ⟨c, p, hsent, htalks, hview⟩ := h.wins hx hwin
  have hrequest : wire.encodeAll m.request = m.qq :: c :: p := by
    rw [encodeAll_request, hsent]
  have hsyn : syn ∉ m.qq :: c :: p := hrequest ▸ syn_not_mem_encodeAll m.request
  obtain ⟨t, hb, ht, hs, -⟩ := (h.opened r).becomes_secondary false h.type_eq
  have hzz : t.getZz = m.zz := TelegramBase.getZz_of_stored ht.request
  have hrun : run (receiver false) ((bus.step x).1 r).state.receiving (c :: p) = (false, t) := by
    rw [hview r, ← run_append, List.singleton_append, ← hrequest, run_receiver_encodeAll, hb.1]
  obtain ⟨hout, hanswer, -⟩ := htalks.answered
    (by rw [hrequest] at hlen; exact Nat.succ.inj hlen) hy
    (fun hmem => hsyn (List.mem_cons_of_mem _ hmem)) hrun
  refine ⟨by rw [outputs_cons, hwin, hout, hrequest], ?_⟩
  have hz : t.getZz = toSecondary ((bus.step x).1.address r) := by
    rw [step_address, hzz, h.responder]
  obtain ⟨y, hmem, hpending⟩ := hanswer hs hz
  rw [run_cons, hpending, hreplies.answerTo_eq hmem ht hs hz]

/-- **The answer**, up to its last byte; the node that asked is about to acknowledge it. -/
theorem Begun.answers (h : bus.Begun a r m) {done : Bus n} (hdone : done.Regular)
    (haddress : ∀ i, done.address i = bus.address i)
    (hview : (done a).state.receiving =
      run (receiver false) (false, (bus a).state.receivingTelegram) (wire.encodeAll m.request))
    (hpending : (done r).pending = wire.encodeAll (answerValues m))
    (hlen : ys.length = (wire.encodeAll (answerValues m)).length)
    (hy : Along step Orderly done ys) : outputs step done ys = wire.encodeAll (answerValues m) ∧
      (run step done ys a).pending = [ack, syn] := by
  obtain ⟨c, p, hcons⟩ := encodeAll_answerValues m
  rw [hcons] at hpending hlen
  have htalks := hdone.talks hpending (.inl (by simp))
  obtain ⟨t, hb, hs, hq, hvalid⟩ := (h.opened a).becomes_answered h.type_eq false
  have hrun : run (receiver false) (done a).state.receiving (ack :: c :: p) = (false, t) := by
    rw [hview, ← run_append, ← hcons, ← Stuffing.encodeAll_append, run_receiver_encodeAll]
    exact congrArg (Prod.mk false) hb.1
  obtain ⟨hout, -, hack⟩ := htalks.answered hlen hy
    (hcons ▸ syn_not_mem_encodeAll (answerValues m)) hrun
  refine ⟨hcons ▸ hout, ?_⟩
  rw [hack hs (by rw [hq, h.qq_eq, haddress]), hvalid, if_pos rfl]

theorem Replies.subset (h : Replies r m xs) (hsub : ys ⊆ xs) : Replies r m ys :=
  ⟨fun y hy => h.reply y (hsub hy), h.nonempty, h.checksum⟩

/-- A list of slots split where a part of it ends. -/
theorem split_slots {k l : ℕ} (h : xs.length = k + l) :
    ∃ us vs, xs = us ++ vs ∧ us.length = k ∧ vs.length = l :=
  ⟨xs.take k, xs.drop k, (List.take_append_drop k xs).symm, by simp; omega, by simp; omega⟩

/-- **The bytes of an exchange.** -/
theorem Begun.carries (h : bus.Begun a r m) (hlen : xs.length = m.wireForm.length + 1)
    (hx : Along step Orderly bus xs) (hwin : (outputs step bus xs).head? = some m.qq)
    (hreplies : Replies r m xs) : outputs step bus xs = m.wireForm ++ [syn] := by
  have hform : m.wireForm =
      wire.encodeAll m.request ++ wire.encodeAll (answerValues m) ++ [ack] := by
    rw [Ebus.wireForm_of_secondary h.type_eq, Message.answered, Stuffing.encodeAll_append]
    rfl
  rw [hform, List.length_append, List.length_append, List.length_singleton, Nat.add_assoc] at hlen
  obtain ⟨xs, us, rfl, hlen, hlen₃⟩ := split_slots hlen
  obtain ⟨xs₁, xs₂, rfl, hlen₁, hlen₂⟩ := split_slots hlen
  obtain ⟨⟨hx₁, hx₂⟩, hx₃⟩ : (Along step Orderly bus xs₁ ∧
      Along step Orderly (run step bus xs₁) xs₂) ∧
      Along step Orderly (run step (run step bus xs₁) xs₂) us := by
    rwa [along_append, along_append, run_append] at hx
  cases xs₁ with
  | nil =>
    rw [encodeAll_request] at hlen₁
    cases hlen₁
  | cons x xs₁ =>
    obtain ⟨hout₁, hanswer⟩ := h.requests hx₁.1 (Option.some.inj hwin) hlen₁ hx₁.2
      (hreplies.subset (by simp))
    have hregular := regular_run h.regular hx₁
    obtain ⟨hout₂, hack⟩ := h.answers hregular (run_address (x :: xs₁))
      (by rw [run_receiving, hout₁, Ebus.receiving, (h.afterSyn a).inEsc]) hanswer hlen₂ hx₂
    have hout₃ := (regular_run hregular hx₂).carried hack (.inl (by simp)) hlen₃ hx₃
    rw [outputs_append, outputs_append, run_append, hout₁, hout₂, hout₃, hform]
    simp

/-- What an exchange leaves behind: its message on the wire, one telegram with it in the queue of
every node, the command of the node `a` completed, and every node ready for the next exchange. -/
structure Exchanged (bus : Bus n) (xs : List (BusSlot n)) (a : Fin n) (m : Message) : Prop where
  carried : outputs step bus xs = m.wireForm ++ [syn]
  queued : ∃ t, Carries t m ∧ ∀ i, (bus i).state.config.queueReceivedTelegram = true →
    (bus i).state.queuedDuring (bus.calls xs i) = [t]
  completed : ∃ ys, ys <+: xs ∧ ((run step bus ys).command a).state = .endCompleted ∧
    ((run step bus ys).command a).request = m.sendCommand.request
  ready : ∀ i, (run step bus xs i).state.AfterSyn ∧
    Open (run step bus xs i).state.receivingTelegram

/-- Every node queues the message. -/
theorem Begun.queues (h : bus.Begun a r m) (hout : outputs step bus xs = m.wireForm ++ [syn]) :
    ∃ t, Carries t m ∧ ∀ i, (bus i).state.config.queueReceivedTelegram = true →
      (bus i).state.queuedDuring (bus.calls xs i) = [t] := by
  obtain ⟨t, hheard, hcarries⟩ := (h.opened a).hears_message m
  refine ⟨t, hcarries, fun i hq => ?_⟩
  have hview : (bus i).state.receivingTelegram = (bus a).state.receivingTelegram :=
    congrArg Prod.snd (h.regular.coherent.view i a)
  rw [Ebus.queuedDuring_eq, bytesOf_calls, hout, (h.afterSyn i).inEsc, hq, hview]
  exact hheard

/-- The SYN at the end finds every receiver with the completed telegram, and opens it again. -/
theorem Begun.reopens (h : bus.Begun a r m) (hout : outputs step bus xs = m.wireForm ++ [syn])
    (i : Fin n) : (run step bus xs i).state.AfterSyn ∧
      Open (run step bus xs i).state.receivingTelegram := by
  obtain ⟨t, hb, hcarries⟩ := (h.opened i).becomes_message false m
  have hview : (bus i).state.receiving = (false, (bus i).state.receivingTelegram) := by
    rw [← (h.afterSyn i).inEsc]
    rfl
  rcases List.eq_nil_or_concat xs with rfl | ⟨ys, y, rfl⟩
  · exact absurd hout.symm (by simp)
  · rw [List.concat_eq_append, outputs_concat] at hout
    obtain ⟨hout, hsyn⟩ := List.append_inj' hout rfl
    obtain hsyn := List.singleton_inj.mp hsyn
    have hrecv : (run step bus ys i).state.receiving = (false, t) := by
      rw [run_receiving, hout, hview, m.wireForm_eq, run_receiver_encodeAll]
      exact congrArg (Prod.mk false) hb.1
    rw [List.concat_eq_append, run_concat, step_state, hsyn]
    have hslot := @Ebus.syn_slot _ ((y.intake i).call syn) (congrArg Prod.fst hrecv) rfl
    refine ⟨hslot.2.1, ?_⟩
    have hnew : ((run step bus ys i).state.react syn (y.intake i)).1.receivingTelegram =
        (hear false t (.plain syn)).1 := by
      have hreact := congrArg Prod.snd
        (Ebus.react_receiving (s := (run step bus ys i).state) (b := syn) (x := y.intake i))
      rw [hrecv] at hreact
      exact hreact
    have hfinished : t.isFinished = true :=
      TelegramBase.isFinished_of_end hcarries.completed (by decide)
    rw [hnew]
    show Open (t.refresh.receive syn syn)
    rw [Telegram.refresh_of_finished hfinished]
    exact open_new

/-- The command of the node that asked is completed. -/
theorem Begun.completes (h : bus.Begun a r m) (hx : Along step Orderly bus xs)
    (hout : outputs step bus xs = m.wireForm ++ [syn]) : ∃ ys, ys <+: xs ∧
      ((run step bus ys).command a).state = .endCompleted ∧
      ((run step bus ys).command a).request = m.sendCommand.request := by
  rcases List.eq_nil_or_concat xs with rfl | ⟨ys, y, rfl⟩
  · exact absurd hout.symm (by simp)
  rw [List.concat_eq_append, outputs_concat] at hout
  obtain ⟨hout, -⟩ := List.append_inj' hout rfl
  rw [List.concat_eq_append, along_concat] at hx
  have hform : m.wireForm = m.qq :: (uartSendRemainingRequestPart m.sendCommand ++
      wire.encodeAll (ack :: withCrc (responseBytes m.response)) ++ [ack]) := by
    rw [Ebus.wireForm_of_secondary h.type_eq, Message.answered, Stuffing.encodeAll_append,
      encodeAll_request]
    rfl
  cases ys with
  | nil =>
    rw [hform] at hout
    cases hout
  | cons x ys =>
    have hrest := hout.trans hform
    obtain ⟨hwin, hrest⟩ := List.cons.inj hrest
    have hqq : (bus.step x).2 = (bus.command a).getQq := by
      rw [hwin, h.qq_eq, h.regular.coherent.qq_eq h.regular.addressed h.arbitrating]
    have hprim : isPrimary (bus.step x).2 = true := hwin ▸ m.qq_primary
    have hack : (bus.command a).isAckExpected = true := by
      have htype : (bus.command a).getType = .primarySecondary := by
        rw [← h.type_eq, TelegramBase.getType, TelegramBase.getZz, h.request]
        rfl
      rw [TelegramBase.isAckExpected, htype]
      rfl
    have hactive : (bus.step x).1.command a =
        (bus.command a).setState .waitForCommandAck :=
      Ebus.react_won (h.afterSyn a) (isPrimary_ne_syn hprim) (isPrimary_ne_esc hprim)
        h.arbitrating hqq hack
    have hnosyn : Ebus.NoSyn ((bus.step x).1.calls ys a) := by
      intro call hc
      refine ⟨fun hsyn => ?_, handsOver_calls h.regular.addressed.step hx.1.2 hc⟩
      have hmem : syn ∈ bytesOf ((bus.step x).1.calls ys a) := hsyn ▸ List.mem_map_of_mem hc
      rw [bytesOf_calls] at hmem
      have hmem' : syn ∈ m.wireForm := hout ▸ List.mem_cons_of_mem _ hmem
      rw [m.wireForm_eq] at hmem'
      exact syn_not_mem_encodeAll _ hmem'
    obtain ⟨done, rest, hsplit, hcompleted, -⟩ := Ebus.completed_along
      (s := ((bus.step x).1 a).state) ((bus.step x).1.calls ys a)
      (show ((bus.step x).1.command a).state = _ by rw [hactive]; rfl) hnosyn
      (by rw [bytesOf_calls, hrest]; simp)
    have hdone : done = (bus.step x).1.calls (ys.take done.length) a := by
      rw [← calls_take, hsplit, List.take_left]
    have hcommand : (run step bus (x :: ys.take done.length)).command a =
        ((bus.command a).setState .waitForCommandAck).setState .endCompleted := by
      rw [← hactive, run_cons, command, state_eq_after, ← hdone]
      exact hcompleted
    refine ⟨x :: ys.take done.length, ?_, ?_, ?_⟩
    · rw [List.concat_eq_append]
      exact List.cons_prefix_cons.mpr
        ⟨rfl, (List.take_prefix _ ys).trans (List.prefix_append ys [y])⟩
    · rw [hcommand]
      rfl
    · rw [hcommand]
      exact h.request

section Runs

variable {configs : Fin n → Config}
  (hprim : ∀ i, isPrimary (configs i).primaryAddress = true)
  (hapart : ∀ i j, toSecondary (configs i).primaryAddress =
    toSecondary (configs j).primaryAddress → i = j)

include hprim hapart

/-- **The exchange completes.**  In every run of a bus of nodes with primary addresses, no two of
which share a secondary one: where everyone waits for a telegram, and node `a` is in the arbitration
with the command of a message to node `r` and wins the next slot, the exchange takes its course. -/
theorem exchange_completes {xs ys : List (BusSlot n)} (hx : Along step Orderly (start configs) xs)
    (hafter : ∀ i, (run step (start configs) xs i).state.AfterSyn)
    (hopen : ∀ i, Open (run step (start configs) xs i).state.receivingTelegram)
    (harb : Arbitrating ((run step (start configs) xs).command a).toTelegramBase)
    (hrequest : ((run step (start configs) xs).command a).request = m.sendCommand.request)
    (hzz : m.zz = toSecondary (configs r).primaryAddress)
    (hy : Along step Orderly (run step (start configs) xs) ys)
    (hwin : (outputs step (run step (start configs) xs) ys).head? = some m.qq)
    (hlen : ys.length = m.wireForm.length + 1) (hreplies : Replies r m ys) :
    Exchanged (run step (start configs) xs) ys a m := by
  have haddress : (run step (start configs) xs).address r = (configs r).primaryAddress :=
    run_address xs r
  have h : Begun (run step (start configs) xs) a r m :=
    ⟨regular_run (regular_start hprim hapart) hx, hafter, hopen, harb, hrequest,
      hzz.trans (congrArg toSecondary haddress.symm)⟩
  have hout := h.carries hlen hy hwin hreplies
  exact ⟨hout, h.queues hout, h.completes hy hout, h.reopens hout⟩

end Runs

/-- Node 0 is the primary 0x10; node 1 is the primary 0x03 and the secondary 0x08. -/
def askConfigs (i : Fin 2) : Config := defaultConfig (if i.val = 0 then 0x10#8 else 0x03#8)

/-- The message that node 0 has for node 1. -/
def askedMessage : Message :=
  { Ebus.sampleMessage with response := [0x12#8, 0x34#8], response_length := by decide }

/-- The queue of node 0 hands over the command on the first SYN. -/
def asking : BusSlot 2 where
  idle := syn
  intake i := if i.val = 0 then ⟨some askedMessage.sendCommand, []⟩ else ⟨none, []⟩

/-- Node 1 has a handler. -/
def replying : BusSlot 2 where
  idle := syn
  intake i := if i.val = 1 then ⟨none, [fun _ => [0x12#8, 0x34#8]]⟩ else ⟨none, []⟩

theorem wellFormed_asking (i : Fin 2) :
    (asking.intake i).WellFormed (askConfigs i).primaryAddress := by
  simp only [asking, askConfigs]
  split
  · exact wellFormed_new (by decide) (by decide)
  · exact wellFormed_empty _

theorem wellFormed_replying (i : Fin 2) (address : Byte) :
    (replying.intake i).WellFormed address := by
  simp only [replying]
  split
  · refine ⟨fun c hc => (Option.not_mem_none c hc).elim, fun handler hmem t => ?_⟩
    obtain rfl := List.mem_singleton.mp hmem
    show 2 < maxDataLength
    decide
  · exact wellFormed_empty _

/-- The exchange takes its course. -/
theorem exchange_asked : Exchanged (run step (start askConfigs) [asking])
    (List.replicate 15 replying) 0 askedMessage := by
  have hprim : ∀ i, isPrimary (askConfigs i).primaryAddress = true := by decide
  have hapart : ∀ i j, toSecondary (askConfigs i).primaryAddress =
      toSecondary (askConfigs j).primaryAddress → i = j := by decide
  have hregular := regular_start hprim hapart
  have hfirst : Along step Orderly (start askConfigs) [asking] := by
    refine hregular.along fun x hx => ?_
    obtain rfl := List.mem_singleton.mp hx
    exact ⟨rfl, wellFormed_asking⟩
  refine exchange_completes hprim hapart (r := 1) hfirst ?_ ?_ (.inl (by decide +kernel))
    (by decide +kernel) (by decide) ((regular_run hregular hfirst).along fun x hx => ?_)
    (by decide +kernel) (by decide +kernel) ⟨fun x hx t ht => ?_, by decide, by decide +kernel⟩
  · exact fun i => (@Ebus.syn_slot _ ((asking.intake i).call syn) rfl rfl).2.1
  · intro i
    have hview : (run step (start askConfigs) [asking] i).state.receivingTelegram =
        Telegram.new.receive syn syn :=
      congrArg Prod.snd (@run_receiving _ (start askConfigs) [asking] i)
    rw [hview]
    exact open_new
  · obtain rfl := List.eq_of_mem_replicate hx
    exact ⟨rfl, fun i => wellFormed_replying i _⟩
  · obtain rfl := List.eq_of_mem_replicate hx
    rfl

end Bus

end EsphomeEbus
