import EsphomeEbus.Content
import EsphomeEbus.Receiver

/-!
# What the receiving telegram says about the bytes heard

The receiving telegram is, at any time, a faithful record of the symbols since the SYN that opened
it. `Heard t ss` states this for every receive state, `heard_hear` proves that one more symbol keeps
it, and `heard_after` that it holds after any run.  What a completed telegram then says about the
wire is `queued_completed_spelled`.
-/

namespace EsphomeEbus

open Elf Transducer Stuffing

/-- The values a list of symbols stands for. -/
def values (ys : List (Symbol Byte)) : List Byte := ys.map Symbol.value

@[simp] theorem values_concat (ys : List (Symbol Byte)) (y : Symbol Byte) :
    values (ys ++ [y]) = values ys ++ [y.value] := by simp [values]

/-- A symbol that neither is a SYN nor breaks the escape encoding. -/
def IsData : Symbol Byte → Prop
  | .plain b => b ≠ syn
  | .pair _ _ => True
  | .invalid _ => False

instance : DecidablePred IsData
  | .plain b => inferInstanceAs (Decidable (b ≠ syn))
  | .pair _ _ => isTrue trivial
  | .invalid _ => isFalse id

theorem IsData.raw_ne_syn {y : Symbol Byte} (h : IsData y) (hy : wire.Proper y) : y.raw ≠ syn := by
  cases y with
  | plain b => exact h
  | pair c v => exact mark_ne_syn hy
  | invalid c => cases h

namespace Telegram

/-- QQ ZZ PB SB NN, the data bytes and the request CRC, as the telegram has them stored. -/
def storedRequest (t : Telegram) : List Byte :=
  [t.getQq, t.getZz, t.getPb, t.getSb, t.request.get offsetNn] ++
    (List.range t.getNn.toNat).map (fun i => t.request.get (offsetData + i)) ++ [t.getRequestCrc]

/-- The response length, the data bytes and the response CRC, as the telegram has them stored. -/
def storedResponse (t : Telegram) : List Byte :=
  t.response.get 0 ::
    (List.range t.getResponseNn.toNat).map (fun i => t.response.get (responseOffset + i)) ++
    [t.getResponseCrc]

/-- The symbols `body` spell the telegram: its request, and as far as its address has them the
acknowledge, the response, and the acknowledge of the response. -/
inductive Spells (t : Telegram) : List (Symbol Byte) → Prop
  | broadcast {rq : List (Symbol Byte)} :
      t.getZz = broadcastAddress → values rq = t.storedRequest → Spells t rq
  | acknowledged {rq : List (Symbol Byte)} {a : Symbol Byte} :
      t.getZz ≠ broadcastAddress → t.getType ≠ .primarySecondary →
      values rq = t.storedRequest → a.raw = ack → Spells t (rq ++ [a])
  | answered {rq rs : List (Symbol Byte)} {a b : Symbol Byte} :
      t.getZz ≠ broadcastAddress → t.getType = .primarySecondary →
      values rq = t.storedRequest → a.raw = ack →
      values rs = t.storedResponse → b.raw = ack → Spells t (rq ++ a :: rs ++ [b])

theorem Holds.storedRequest_eq {t : Telegram} {rq rs : List Byte} (ht : t.Holds rq rs)
    (hc : Complete offsetData rq) : t.storedRequest = rq := by
  have hlen : rq.length = 5 + t.getNn.toNat + 1 := by
    rw [ht.getNn_eq]
    exact hc
  rw [← map_range_eq (f := t.request.get) hlen fun i hi => ht.request.get_of_lt i (by omega),
    List.range_succ, List.range_add, List.map_append, List.map_append, List.map_map]
  rfl

theorem Holds.storedResponse_eq {t : Telegram} {rq rs : List Byte} (ht : t.Holds rq rs)
    (hc : Complete responseOffset rs) : t.storedResponse = rs := by
  have hlen : rs.length = 1 + t.getResponseNn.toNat + 1 := by
    rw [ht.getResponseNn_eq]
    exact hc
  rw [← map_range_eq (f := t.response.get) hlen fun i hi => ht.response.get_of_lt i (by omega),
    List.range_succ, List.range_add, List.map_append, List.map_append, List.map_map]
  rfl

end Telegram

/-! ### The record -/

/-- After the symbols `ss`, the receiving telegram `t` records what followed the last SYN. -/
inductive Heard : Telegram → List (Symbol Byte) → Prop
  | idle {t : Telegram} {ss : List (Symbol Byte)} :
      t.state = .waitForSyn → t.Holds [] [] → Heard t ss
  | opened {t : Telegram} {pre : List (Symbol Byte)} :
      t.state = .waitForArbitration → t.Holds [] [] → Heard t (pre ++ [.plain syn])
  | request {t : Telegram} {pre rq : List (Symbol Byte)} :
      t.state = .waitForRequestData → (∀ y ∈ rq, IsData y) → rq ≠ [] →
      t.Holds (values rq) [] → Growing offsetData (values rq) →
      Heard t (pre ++ .plain syn :: rq)
  | requestAck {t : Telegram} {pre rq : List (Symbol Byte)} :
      t.state = .waitForRequestAck → (∀ y ∈ rq, IsData y) →
      t.Holds (values rq) [] → Complete offsetData (values rq) →
      t.isAckExpected = true → Heard t (pre ++ .plain syn :: rq)
  | response {t : Telegram} {pre rq rs : List (Symbol Byte)} {a : Symbol Byte} :
      t.state = .waitForResponseData → (∀ y ∈ rq ++ a :: rs, IsData y) →
      t.Holds (values rq) (values rs) → Complete offsetData (values rq) → a.raw = ack →
      t.isResponseExpected = true → Growing responseOffset (values rs) →
      Heard t (pre ++ .plain syn :: (rq ++ a :: rs))
  | responseAck {t : Telegram} {pre rq rs : List (Symbol Byte)} {a : Symbol Byte} :
      t.state = .waitForResponseAck → (∀ y ∈ rq ++ a :: rs, IsData y) →
      t.Holds (values rq) (values rs) → Complete offsetData (values rq) → a.raw = ack →
      t.isResponseExpected = true → Complete responseOffset (values rs) →
      Heard t (pre ++ .plain syn :: (rq ++ a :: rs))
  | completed {t : Telegram} {pre body : List (Symbol Byte)} :
      t.state = .endCompleted → (∀ y ∈ body, IsData y) → t.Spells body →
      Heard t (pre ++ .plain syn :: body)
  | failed {t : Telegram} {ss : List (Symbol Byte)} :
      t.isFinished = true → t.state ≠ .endCompleted → Heard t ss

/-! ### One more symbol -/

namespace Telegram

variable {t : Telegram} {rq rs : List Byte}

/-- A request byte that is not the last. -/
theorem Holds.receive_request (ht : t.Holds rq rs) (hs : t.state = .waitForRequestData)
    {raw v : Byte} (hraw : raw ≠ syn) (hg : Growing offsetData rq)
    (hg' : Growing offsetData (rq ++ [v])) : t.receive raw v = t.pushReqData v := by
  have hp := ht.pushReqData hg v
  have hu : (t.pushReqData v).Underway := .inl (by show t.state.toInt > _; rw [hs]; decide)
  have hc : (t.pushReqData v).isRequestComplete = false := by
    rw [← Bool.not_eq_true, hp.isRequestComplete_iff hu]
    exact not_complete_of_growing hg'
  simp only [receive, hs, hraw, hc, if_false, Bool.false_eq_true]

/-- The last byte of a request. -/
theorem Holds.receive_requestEnd (ht : t.Holds rq rs) (hs : t.state = .waitForRequestData)
    {raw v : Byte} (hraw : raw ≠ syn) (hg : Growing offsetData rq)
    (hc : Complete offsetData (rq ++ [v])) : t.receive raw v = (t.pushReqData v).setState
      (if (t.pushReqData v).isAckExpected then .waitForRequestAck else .endCompleted) := by
  have hp := ht.pushReqData hg v
  have hu : (t.pushReqData v).Underway := .inl (by show t.state.toInt > _; rw [hs]; decide)
  have hc' : (t.pushReqData v).isRequestComplete = true := (hp.isRequestComplete_iff hu).mpr hc
  simp only [receive, hs, hraw, hc', if_false, if_true]

/-- A response byte that is not the last. -/
theorem Holds.receive_response (ht : t.Holds rq rs) (hs : t.state = .waitForResponseData)
    {raw v : Byte} (hraw : raw ≠ syn) (hg : Growing responseOffset rs)
    (hg' : Growing responseOffset (rs ++ [v])) : t.receive raw v = t.pushResponseData v := by
  have hp := ht.pushResponseData hg v
  have hu : (t.pushResponseData v).Underway := .inl (by show t.state.toInt > _; rw [hs]; decide)
  have hc : (t.pushResponseData v).isResponseComplete = false := by
    rw [← Bool.not_eq_true, hp.isResponseComplete_iff hu]
    exact not_complete_of_growing hg'
  simp only [receive, hs, hraw, hc, if_false, Bool.false_eq_true]

/-- The last byte of a response. -/
theorem Holds.receive_responseEnd (ht : t.Holds rq rs) (hs : t.state = .waitForResponseData)
    {raw v : Byte} (hraw : raw ≠ syn) (hg : Growing responseOffset rs)
    (hc : Complete responseOffset (rs ++ [v])) :
    t.receive raw v = (t.pushResponseData v).setState .waitForResponseAck := by
  have hp := ht.pushResponseData hg v
  have hu : (t.pushResponseData v).Underway := .inl (by show t.state.toInt > _; rw [hs]; decide)
  have hc' : (t.pushResponseData v).isResponseComplete = true :=
    (hp.isResponseComplete_iff hu).mpr hc
  simp only [receive, hs, hraw, hc', if_false, if_true]

end Telegram

/-- A telegram whose state is one of the end states other than `endCompleted`. -/
theorem heard_end {t : Telegram} {ss : List (Symbol Byte)} (newState : TelegramState)
    (hf : newState.toInt < 0) (hc : newState ≠ .endCompleted) : Heard (t.setState newState) ss :=
  .failed (decide_eq_true hf) hc

/-- A finished telegram leaves nothing behind. -/
theorem Heard.refresh {t : Telegram} {ss : List (Symbol Byte)} (h : Heard t ss) :
    Heard t.refresh ss ∧ t.refresh.isFinished = false := by
  rw [Telegram.refresh]
  cases hf : t.isFinished with
  | true => exact ⟨.idle rfl Telegram.holds_new, rfl⟩
  | false => exact ⟨h, hf⟩

theorem forall_concat {P : Symbol Byte → Prop} {ys : List (Symbol Byte)} {y : Symbol Byte}
    (h : ∀ x ∈ ys, P x) (hy : P y) : ∀ x ∈ ys ++ [y], P x := by
  intro x hx
  rcases List.mem_append.mp hx with hx | hx
  · exact h x hx
  · exact List.mem_singleton.mp hx ▸ hy

/-- **A data symbol keeps the record.** -/
theorem heard_receive_data {t : Telegram} {ss : List (Symbol Byte)} (h : Heard t ss)
    (hf : t.isFinished = false) {y : Symbol Byte} (hy : IsData y) (hraw : y.raw ≠ syn) :
    Heard (t.receive y.raw y.value) (ss ++ [y]) := by
  cases h with
  | idle hs ht =>
    simp only [Telegram.receive, hs, hraw, if_false]
    exact .idle hs ht
  | opened hs ht =>
    simp only [Telegram.receive, hs, ne_eq, hraw, not_false_eq_true, if_true]
    rw [List.append_assoc]
    refine .request rfl (by simpa using hy) (by simp) ((ht.pushReqData growing_nil _).setState _) ?_
    exact Nat.lt_of_lt_of_le (show 1 < 5 + 1 by decide)
      (Nat.add_le_add_right (Nat.le_add_right 5 _) 1)
  | @request pre rq hs hd hne ht hg =>
    rw [List.append_assoc, List.cons_append]
    have hp := ht.pushReqData hg y.value
    rw [← values_concat] at hp
    rcases growing_concat offsetData_pos hg y.value with hg' | hc
    · rw [ht.receive_request hs hraw hg hg']
      exact .request hs (forall_concat hd hy) (by simp) hp (by simpa using hg')
    · rw [ht.receive_requestEnd hs hraw hg hc]
      rw [← values_concat] at hc
      cases ha : (t.pushReqData y.value).isAckExpected with
      | true => exact .requestAck rfl (forall_concat hd hy) (hp.setState _) hc ha
      | false =>
        refine .completed rfl (forall_concat hd hy) (.broadcast ?_ ?_)
        · exact (TelegramBase.isAckExpected_eq_false_iff _).mp ha
        · exact ((hp.setState _).storedRequest_eq hc).symm
  | @requestAck pre rq hs hd ht hc ha =>
    simp only [Telegram.receive, hs]
    split
    · rename_i hack
      rw [List.append_assoc, List.cons_append]
      cases hr : t.isResponseExpected with
      | true =>
        exact .response rfl (forall_concat hd hy) (ht.setState _) hc hack hr growing_nil
      | false =>
        refine .completed rfl (forall_concat hd hy) (.acknowledged ?_ ?_ ?_ hack)
        · exact (TelegramBase.isAckExpected_iff _).mp ha
        · intro h
          have hresp : t.isResponseExpected = true := (TelegramBase.isResponseExpected_iff _).mpr h
          rw [hresp] at hr
          cases hr
        · exact ((ht.setState _).storedRequest_eq hc).symm
    · split
      · exact heard_end _ (by decide) (by decide)
      · exact heard_end _ (by decide) (by decide)
  | @response pre rq rs a hs hd ht hc ha he hg =>
    rw [List.append_assoc, List.cons_append, List.append_assoc, List.cons_append]
    have hd' := forall_concat hd hy
    rw [List.append_assoc, List.cons_append] at hd'
    have hp := ht.pushResponseData hg y.value
    rw [← values_concat] at hp
    rcases growing_concat responseOffset_pos hg y.value with hg' | hc'
    · rw [ht.receive_response hs hraw hg hg']
      exact .response hs hd' hp hc ha he (by simpa using hg')
    · rw [ht.receive_responseEnd hs hraw hg hc']
      exact .responseAck rfl hd' (hp.setState _) hc ha he (by simpa using hc')
  | @responseAck pre rq rs a hs hd ht hc ha he hc' =>
    simp only [Telegram.receive, hs]
    split
    · rename_i hack
      rw [List.append_assoc, List.cons_append]
      refine .completed rfl (forall_concat hd hy) (.answered ?_ ?_ ?_ ha ?_ hack)
      · exact TelegramBase.ackExpected_of_responseExpected he
      · exact (TelegramBase.isResponseExpected_iff _).mp he
      · exact ((ht.setState _).storedRequest_eq hc).symm
      · exact ((ht.setState _).storedResponse_eq hc').symm
    · split
      · exact heard_end _ (by decide) (by decide)
      · exact heard_end _ (by decide) (by decide)
  | completed hs hd hsp =>
    rw [TelegramBase.isFinished, hs] at hf
    cases hf
  | failed hfin hc =>
    rw [hfin] at hf
    cases hf

/-- **A SYN keeps the record.** -/
theorem heard_receive_syn {t : Telegram} {ss : List (Symbol Byte)} (h : Heard t ss)
    (hf : t.isFinished = false) : Heard (t.receive syn syn) (ss ++ [.plain syn]) := by
  cases h with
  | idle hs ht =>
    simp only [Telegram.receive, hs, if_true]
    exact .opened rfl (ht.setState _)
  | opened hs ht =>
    simp only [Telegram.receive, hs, ne_eq, not_true_eq_false, if_false]
    exact .opened hs ht
  | request hs =>
    simp only [Telegram.receive, hs, if_true]
    split
    · exact heard_end _ (by decide) (by decide)
    · exact heard_end _ (by decide) (by decide)
  | requestAck hs =>
    simp only [Telegram.receive, hs]
    exact heard_end _ (by decide) (by decide)
  | response hs =>
    simp only [Telegram.receive, hs]
    exact heard_end _ (by decide) (by decide)
  | responseAck hs =>
    simp only [Telegram.receive, hs]
    exact heard_end _ (by decide) (by decide)
  | completed hs hd hsp =>
    rw [TelegramBase.isFinished, hs] at hf
    cases hf
  | failed hfin hc =>
    rw [hfin] at hf
    cases hf

/-- **One more symbol keeps the record.** -/
theorem heard_hear (queues : Bool) {t : Telegram} {ss : List (Symbol Byte)} (h : Heard t ss)
    {y : Symbol Byte} (hy : wire.Proper y) : Heard (hear queues t y).1 (ss ++ [y]) := by
  obtain ⟨hr, hf⟩ := h.refresh
  cases y with
  | plain b =>
    by_cases hb : b = syn
    · subst hb
      exact heard_receive_syn hr hf
    · exact heard_receive_data hr hf (y := .plain b) hb hb
  | pair c v =>
    have hdata : IsData (.pair c v) := trivial
    exact heard_receive_data hr hf hdata (hdata.raw_ne_syn hy)
  | invalid c => exact .idle rfl Telegram.holds_new

/-- **The receiving telegram is a record of what was heard**, in every run. -/
theorem heard_after (config : Config) (calls : List Call) :
    Heard ((Ebus.init config).after calls).receivingTelegram
      (wire.symbols false (bytesOf calls)) := by
  have hrun := run_history (hear config.queueReceivedTelegram) (I := fun ss t => Heard t ss)
    (C := fun _ y => wire.Proper y) (fun _ _ _ h hy => heard_hear _ h hy) .new
    (wire.symbols false (bytesOf calls)) (.idle rfl Telegram.holds_new)
    (along_of_forall _ _ _ fun _ hy => wire.proper_of_mem_symbols hy)
  rw [Ebus.after_receivingTelegram]
  exact hrun

/-! ### Completed telegrams -/

/-- A finished telegram makes room before the next symbol is received, so a symbol that leaves a
finished telegram has just finished it. -/
theorem receive_refresh_finished {t : Telegram} {raw v : Byte}
    (h : (t.refresh.receive raw v).isFinished = true) : t.isFinished = false := by
  cases hf : t.isFinished with
  | false => rfl
  | true =>
    simp only [Telegram.refresh, hf, if_true, Telegram.receive, Telegram.new] at h
    split at h <;> cases h

theorem finished_of_completed {t : Telegram} (h : t.state = .endCompleted) :
    t.isFinished = true := TelegramBase.isFinished_of_end h (by decide)

namespace Ebus

/-- The call that leaves a completed telegram with no escape byte pending has just completed it. -/
theorem completes_of_completed (s : Ebus) (call : Call)
    (hc : (s.processReceivedChar call).1.receivingTelegram.state = .endCompleted)
    (hp : (s.processReceivedChar call).1.inEsc = false) :
    s.receivingTelegram.state ≠ .endCompleted := by
  have hnot : ∀ real, (s.receivingTelegram.refresh.receive call.receivedByte real).state =
      .endCompleted → s.receivingTelegram.state ≠ .endCompleted := by
    intro real h hs
    have hf := receive_refresh_finished (finished_of_completed h)
    rw [finished_of_completed hs] at hf
    cases hf
  obtain ⟨-, -, h⟩ | ⟨-, -, -, h⟩ | ⟨-, -, h⟩ | ⟨real, -, -, h⟩ := s.processReceivedChar_cases call
  · rw [h] at hp
    cases hp
  · rw [h] at hc
    cases hc
  · rw [h, processSymbol_receivingTelegram] at hc
    exact hnot _ hc
  · rw [h, processSymbol_receivingTelegram] at hc
    exact hnot _ hc

theorem processSymbol_queued (s : Ebus) (call : Call) (real : Byte) {t : Telegram}
    (ht : t ∈ (s.processSymbol call real).2.queued) :
    t = s.receivingTelegram ∧ t.isFinished = true := by
  rw [processSymbol_snd] at ht
  simp only at ht
  split at ht
  · rename_i hf
    rw [Bool.and_eq_true] at hf
    obtain rfl := List.mem_singleton.mp ht
    exact ⟨rfl, hf.1⟩
  · cases ht

/-- Only the receiving telegram is ever queued, and only when it is finished. -/
theorem queued_eq (s : Ebus) (call : Call) {t : Telegram}
    (ht : t ∈ (s.processReceivedChar call).2.queued) :
    t = s.receivingTelegram ∧ t.isFinished = true := by
  obtain ⟨-, -, h⟩ | ⟨-, -, -, h⟩ | ⟨-, -, h⟩ | ⟨real, -, -, h⟩ := s.processReceivedChar_cases call
  · rw [h] at ht
    cases ht
  · rw [h] at ht
    cases ht
  · rw [h] at ht
    exact processSymbol_queued s call _ ht
  · rw [h] at ht
    exact processSymbol_queued { s with inEsc := false } call real ht

/-- A completed telegram was completed by the last byte, or by the one before it if that last byte
opened an escape pair. -/
theorem completed_at {config : Config} {sofar : List Call}
    (hc : ((init config).after sofar).receivingTelegram.state = .endCompleted) :
    ∃ done pending, sofar = done ++ pending ∧ (pending = [] ∨ bytesOf pending = [esc]) ∧
      ((init config).after done).receivingTelegram = ((init config).after sofar).receivingTelegram ∧
      wire.pendingAfter false (bytesOf done) = false := by
  cases hp : wire.pendingAfter false (bytesOf sofar) with
  | false => exact ⟨sofar, [], by simp, .inl rfl, rfl, hp⟩
  | true =>
    rcases List.eq_nil_or_concat' sofar with rfl | ⟨done, call, rfl⟩
    · cases hp
    · have hbytes : bytesOf (done ++ [call]) = bytesOf done ++ [call.receivedByte] := by
        simp [bytesOf]
      rw [hbytes] at hp
      obtain ⟨hb, hp', hsym⟩ := wire.pendingAfter_concat hp
      refine ⟨done, [call], rfl, .inr ?_, ?_, hp'⟩
      · exact congrArg (fun b => [b]) hb
      · rw [after_receivingTelegram, after_receivingTelegram, hbytes]
        exact congrArg _ hsym.symm

/-- **Soundness of completed telegrams.**  Whenever, in any run, a call queues a telegram in state
`endCompleted`, the bytes so far end in one uninterrupted stretch after a SYN that spells exactly
this telegram: the calls before are `before`, then the call `last` on which the telegram was
completed, then at most the first byte of an escape pair. -/
theorem queued_completed_spelled (config : Config) (sofar : List Call) (call : Call) (t : Telegram)
    (ht : t ∈ (((init config).after sofar).processReceivedChar call).2.queued)
    (hc : t.state = .endCompleted) :
    ∃ before last pending pre body,
      sofar = before ++ [last] ++ pending ∧ (pending = [] ∨ bytesOf pending = [esc]) ∧
      ((init config).after before).receivingTelegram.state ≠ .endCompleted ∧
      ((init config).after (before ++ [last])).receivingTelegram = t ∧
      wire.pendingAfter false (bytesOf (before ++ [last])) = false ∧
      wire.symbols false (bytesOf (before ++ [last])) = pre ++ .plain syn :: body ∧
      (∀ y ∈ body, IsData y) ∧ t.Spells body := by
  obtain ⟨rfl, -⟩ := queued_eq _ _ ht
  obtain ⟨done, pending, rfl, hpend, hsame, hp⟩ := completed_at hc
  rw [← hsame] at hc ⊢
  have hheard := heard_after config done
  rcases List.eq_nil_or_concat' done with rfl | ⟨before, last, rfl⟩
  · cases hc
  · have hstep : ((init config).after (before ++ [last])) =
        (((init config).after before).processReceivedChar last).1 := run_concat _ _ _ _
    generalize hsyms : wire.symbols false (bytesOf (before ++ [last])) = ss at hheard
    cases hheard with
    | @completed pre body hs hd hsp =>
      refine ⟨before, last, pending, pre, body, rfl, hpend, ?_, rfl, hp, hsyms, hd, hsp⟩
      refine completes_of_completed _ last (hstep ▸ hc) ?_
      rw [← hstep, after_inEsc]
      exact hp
    | failed _ hne => exact absurd hc hne
    | idle hs => rw [hs] at hc; cases hc
    | opened hs => rw [hs] at hc; cases hc
    | request hs => rw [hs] at hc; cases hc
    | requestAck hs => rw [hs] at hc; cases hc
    | response hs => rw [hs] at hc; cases hc
    | responseAck hs => rw [hs] at hc; cases hc

/-- A broadcast of the primary 0x10, queued on the SYN after it. -/
theorem broadcast_spelled :
    let sofar := quiet [0xAA#8, 0x10#8, 0xFE#8, 0x07#8, 0x00#8, 0x00#8, 0x13#8]
    let t := ((init (defaultConfig 0x30#8)).after sofar).receivingTelegram
    ∃ before last pending pre body,
      sofar = before ++ [last] ++ pending ∧ (pending = [] ∨ bytesOf pending = [esc]) ∧
      ((init (defaultConfig 0x30#8)).after before).receivingTelegram.state ≠ .endCompleted ∧
      ((init (defaultConfig 0x30#8)).after (before ++ [last])).receivingTelegram = t ∧
      wire.pendingAfter false (bytesOf (before ++ [last])) = false ∧
      wire.symbols false (bytesOf (before ++ [last])) = pre ++ .plain syn :: body ∧
      (∀ y ∈ body, IsData y) ∧ t.Spells body :=
  queued_completed_spelled _ _ ⟨syn, none, []⟩ _ (by decide +kernel) (by decide +kernel)

end Ebus

end EsphomeEbus
