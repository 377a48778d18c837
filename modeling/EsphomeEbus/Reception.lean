import EsphomeEbus.History
import EsphomeEbus.Message

/-!
# Reception of well-formed messages

What the receiver makes of a message in wire form, started from any state it can be in.

* `becomes_request`, `becomes_response`: the receiving telegram along a frame;
* `Open.hears_message`: a receiver that a SYN has opened queues the message, exactly as sent;
* `received_after_two_syns`: two SYNs open every receiver;
* `received_after_syn_iff`: a single SYN opens the receiver exactly when no telegram is under way,
  since the SYN that ends a telegram opens none.
-/

namespace EsphomeEbus

open Elf Transducer Stuffing

/-! ### Symbols of encoded values -/

theorem raw_symbolOf_ne_syn (v : Byte) : (wire.symbolOf v).raw ≠ syn := by
  rw [symbolOf]
  cases h : wire.mark v with
  | none =>
    show v ≠ syn
    rintro rfl
    cases h
  | some c => exact mark_ne_syn h

theorem hear_symbolOf (queues : Bool) (t : Telegram) (v : Byte) :
    hear queues t (wire.symbolOf v) =
      (t.refresh.receive (wire.symbolOf v).raw v, if t.isFinished && queues then [t] else []) := by
  rw [symbolOf]
  cases wire.mark v <;> rfl

theorem hear_symbolOf_of_unfinished (queues : Bool) {t : Telegram} (hf : t.isFinished = false)
    (v : Byte) :
    hear queues t (wire.symbolOf v) = (t.receive (wire.symbolOf v).raw v, []) := by
  rw [hear_symbolOf, Telegram.refresh, hf]
  rfl

/-! ### Along a frame -/

/-- Fed the values `vs` in wire form, the telegram `t` becomes `t'`, and nothing is queued. -/
def Becomes (queues : Bool) (t : Telegram) (vs : List Byte) (t' : Telegram) : Prop :=
  run (hear queues) t (vs.map wire.symbolOf) = t' ∧
    emitted (hear queues) t (vs.map wire.symbolOf) = []

theorem becomes_nil (queues : Bool) (t : Telegram) : Becomes queues t [] t := ⟨rfl, rfl⟩

theorem Becomes.append {queues : Bool} {t t' t'' : Telegram} {vs ws : List Byte}
    (h : Becomes queues t vs t') (h' : Becomes queues t' ws t'') :
    Becomes queues t (vs ++ ws) t'' := by
  obtain ⟨hrun, hout⟩ := h
  obtain ⟨hrun', hout'⟩ := h'
  constructor
  · rw [List.map_append, run_append, hrun, hrun']
  · rw [List.map_append, emitted_append, hout, hrun, hout']
    rfl

theorem becomes_single (queues : Bool) {t : Telegram} (hf : t.isFinished = false) (v : Byte) :
    Becomes queues t [v] (t.receive (wire.symbolOf v).raw v) := by
  have h := hear_symbolOf_of_unfinished queues hf v
  constructor
  · rw [List.map_singleton, run_cons, h, run_nil]
  · rw [List.map_singleton, emitted_cons, h]
    rfl

/-- A frame that still takes a byte took one before its last. -/
theorem Growing.of_append {h : ℕ} (hh : 0 < h) {l m : List Byte} (hg : Growing h (l ++ m)) :
    Growing h l := by
  unfold Growing at *
  rw [List.length_append] at hg
  rcases Nat.lt_or_ge l.length h with hl | hl
  · omega
  · rw [announced_append hh hl] at hg
    omega

/-- A frame grows until its checksum byte. -/
theorem growing_of_complete_concat {h : ℕ} (hh : 0 < h) {l : List Byte} {v : Byte}
    (hc : Complete h (l ++ [v])) : Growing h l := growing_of_complete hh hc (by simp)

variable (queues : Bool) {t : Telegram} {rq rs vs : List Byte}

/-- The bytes of a request before its last. -/
theorem becomes_request_part (vs : List Byte) (hs : t.state = .waitForRequestData)
    (ht : t.Holds rq rs) (hg : Growing offsetData (rq ++ vs)) :
    ∃ t', Becomes queues t vs t' ∧ t'.state = .waitForRequestData ∧ t'.Holds (rq ++ vs) rs := by
  induction vs using List.reverseRecOn with
  | nil => exact ⟨t, becomes_nil queues t, hs, by rwa [List.append_nil]⟩
  | append_singleton vs v ih =>
    rw [← List.append_assoc] at hg ⊢
    have hg' := hg.of_append offsetData_pos
    obtain ⟨t', hb, hs', ht'⟩ := ih hg'
    have hstep := ht'.receive_request hs' (raw_symbolOf_ne_syn v) hg' hg
    refine ⟨t'.pushReqData v, ?_, hs', ht'.pushReqData hg' v⟩
    have hlast := becomes_single queues (TelegramBase.isFinished_of_state hs' (by decide)) v
    rw [hstep] at hlast
    exact hb.append hlast

/-- The bytes of a response before its last. -/
theorem becomes_response_part (vs : List Byte) (hs : t.state = .waitForResponseData)
    (ht : t.Holds rq rs) (hg : Growing responseOffset (rs ++ vs)) :
    ∃ t', Becomes queues t vs t' ∧ t'.state = .waitForResponseData ∧ t'.Holds rq (rs ++ vs) := by
  induction vs using List.reverseRecOn with
  | nil => exact ⟨t, becomes_nil queues t, hs, by rwa [List.append_nil]⟩
  | append_singleton vs v ih =>
    rw [← List.append_assoc] at hg ⊢
    have hg' := hg.of_append responseOffset_pos
    obtain ⟨t', hb, hs', ht'⟩ := ih hg'
    have hstep := ht'.receive_response hs' (raw_symbolOf_ne_syn v) hg' hg
    refine ⟨t'.pushResponseData v, ?_, hs', ht'.pushResponseData hg' v⟩
    have hlast := becomes_single queues (TelegramBase.isFinished_of_state hs' (by decide)) v
    rw [hstep] at hlast
    exact hb.append hlast

/-- A whole response. -/
theorem becomes_response (hs : t.state = .waitForResponseData) (ht : t.Holds rq []) {v : Byte}
    (hc : Complete responseOffset (vs ++ [v])) :
    ∃ t', Becomes queues t (vs ++ [v]) t' ∧ t'.state = .waitForResponseAck ∧
      t'.Holds rq (vs ++ [v]) := by
  have hg := growing_of_complete_concat responseOffset_pos hc
  obtain ⟨t', hb, hs', ht'⟩ := becomes_response_part queues vs hs ht hg
  have hstep := ht'.receive_responseEnd hs' (raw_symbolOf_ne_syn v) hg hc
  have hlast := becomes_single queues (TelegramBase.isFinished_of_state hs' (by decide)) v
  rw [hstep] at hlast
  exact ⟨_, hb.append hlast, rfl, (ht'.pushResponseData hg v).setState _⟩

/-- A telegram that a SYN has opened. -/
structure Open (t : Telegram) : Prop where
  state_eq : t.state = .waitForArbitration
  holds : t.Holds [] []

/-- The first byte after a SYN. -/
theorem Open.becomes_first (ho : Open t) (v : Byte) :
    ∃ t', Becomes queues t [v] t' ∧ t'.state = .waitForRequestData ∧ t'.Holds [v] [] := by
  have hstep : t.receive (wire.symbolOf v).raw v =
      (t.pushReqData v).setState .waitForRequestData := by
    simp only [Telegram.receive, ho.state_eq, ne_eq, raw_symbolOf_ne_syn, not_false_eq_true,
      if_true]
  have hfirst := becomes_single queues (TelegramBase.isFinished_of_state ho.state_eq (by decide)) v
  rw [hstep] at hfirst
  exact ⟨_, hfirst, rfl, (ho.holds.pushReqData growing_nil v).setState _⟩

/-- A whole request. -/
theorem Open.becomes_request (ho : Open t) {qq v : Byte}
    (hc : Complete offsetData (qq :: vs ++ [v])) :
    ∃ t', Becomes queues t (qq :: vs ++ [v]) t' ∧ t'.Holds (qq :: vs ++ [v]) [] ∧
      t'.state = if t'.isAckExpected then .waitForRequestAck else .endCompleted := by
  have hg := growing_of_complete_concat offsetData_pos hc
  obtain ⟨t₁, hb₁, hs₁, ht₁⟩ := ho.becomes_first queues qq
  obtain ⟨t₂, hb₂, hs₂, ht₂⟩ := becomes_request_part queues vs hs₁ ht₁ hg
  have hstep := ht₂.receive_requestEnd hs₂ (raw_symbolOf_ne_syn v) hg hc
  have hlast := becomes_single queues (TelegramBase.isFinished_of_state hs₂ (by decide)) v
  rw [hstep] at hlast
  exact ⟨_, (hb₁.append hb₂).append hlast, (ht₂.pushReqData hg v).setState _, rfl⟩

/-- The acknowledge of a request. -/
theorem becomes_requestAck (hs : t.state = .waitForRequestAck) :
    Becomes queues t [ack]
      (t.setState (if t.isResponseExpected then .waitForResponseData else .endCompleted)) := by
  have h := becomes_single queues (TelegramBase.isFinished_of_state hs (by decide)) ack
  rwa [Telegram.receive, hs] at h

/-- The acknowledge of a request and the response after it. -/
theorem becomes_answer (hs : t.state = .waitForRequestAck) (he : t.isResponseExpected = true)
    (ht : t.Holds rq []) {v : Byte} (hc : Complete responseOffset (vs ++ [v])) :
    ∃ t', Becomes queues t (ack :: (vs ++ [v])) t' ∧ t'.state = .waitForResponseAck ∧
      t'.Holds rq (vs ++ [v]) := by
  have hack := becomes_requestAck queues hs
  rw [he, if_pos rfl] at hack
  obtain ⟨t', hb, hs', ht'⟩ :=
    becomes_response queues rfl (ht.setState .waitForResponseData) hc
  exact ⟨t', hack.append hb, hs', ht'⟩

/-- Before the last byte of the response the telegram waits for the acknowledge or for response
data. -/
theorem answer_partway (hs : t.state = .waitForRequestAck) (he : t.isResponseExpected = true)
    (ht : t.Holds rq []) (hc : Complete responseOffset vs) {us ws : List Byte}
    (h : ack :: vs = us ++ ws) (hws : ws ≠ []) :
    us = [] ∨ (run (hear queues) t (us.map wire.symbolOf)).state = .waitForResponseData := by
  cases us with
  | nil => exact .inl rfl
  | cons a us =>
    right
    rw [List.cons_append, List.cons.injEq] at h
    obtain ⟨rfl, rfl⟩ := h
    have hg : Growing responseOffset ([] ++ us) := growing_of_complete responseOffset_pos hc hws
    have hack := becomes_requestAck queues hs
    rw [he, if_pos rfl] at hack
    obtain ⟨t', hb, hs', -⟩ :=
      becomes_response_part queues us rfl (ht.setState .waitForResponseData) hg
    have hrun := (hack.append hb).1
    rw [List.singleton_append] at hrun
    rw [hrun, hs']

/-- The acknowledge of a response. -/
theorem becomes_responseAck (hs : t.state = .waitForResponseAck) :
    Becomes queues t [ack] (t.setState .endCompleted) := by
  have h := becomes_single queues (TelegramBase.isFinished_of_state hs (by decide)) ack
  rwa [Telegram.receive, hs] at h

/-! ### A whole message -/

theorem Message.request_eq_cons (m : Message) : ∃ vs, m.request = m.qq :: vs ++
    [crc8From 0 (requestBytes m.qq m.zz m.command m.data)] := ⟨_, rfl⟩

theorem Message.complete_request (m : Message) : Complete offsetData m.request :=
  EsphomeEbus.complete_request _ _ _ m.data_length _

/-- A telegram that holds the request of a message has its type. -/
theorem getType_of_holds {m : Message} (ht : t.Holds m.request rs) :
    t.getType = m.sendCommand.getType := by
  have hzz : t.getZz = m.zz := TelegramBase.getZz_of_stored ht.request
  rw [m.getType_sendCommand, TelegramBase.getType, hzz, if_neg m.zz_ne_esc]

/-- An open receiver takes the request of a message. -/
theorem Open.becomes_requestOf (ho : Open t) (m : Message) :
    ∃ t', Becomes queues t m.request t' ∧ t'.Holds m.request [] ∧
      t'.getType = m.sendCommand.getType ∧
      t'.state = if t'.isAckExpected then .waitForRequestAck else .endCompleted := by
  have hc := m.complete_request
  obtain ⟨vs, hvs⟩ := m.request_eq_cons
  rw [hvs] at hc
  obtain ⟨t', hb, ht, hs⟩ := ho.becomes_request queues hc
  rw [← hvs] at hb ht
  exact ⟨t', hb, ht, getType_of_holds ht, hs⟩

/-- The request of a message to a secondary. -/
theorem Open.becomes_secondary (ho : Open t) {m : Message}
    (htype : m.sendCommand.getType = .primarySecondary) :
    ∃ t', Becomes queues t m.request t' ∧ t'.Holds m.request [] ∧
      t'.state = .waitForRequestAck ∧ t'.isResponseExpected = true := by
  obtain ⟨t', hb, ht, htype', hs⟩ := ho.becomes_requestOf queues m
  rw [TelegramBase.isAckExpected, htype', htype] at hs
  exact ⟨t', hb, ht, hs, (TelegramBase.isResponseExpected_iff _).mpr (htype'.trans htype)⟩

/-- **An open receiver takes a message as it was sent.** -/
theorem Open.becomes_message (ho : Open t) (m : Message) :
    ∃ t', Becomes queues t (m.request ++ m.reaction) t' ∧ Carries t' m := by
  rw [Message.reaction]
  cases hm : m.sendCommand.getType with
  | broadcast =>
    obtain ⟨t₁, hb₁, ht₁, htype, hs₁⟩ := ho.becomes_requestOf queues m
    rw [hm] at htype
    rw [TelegramBase.isAckExpected, htype] at hs₁
    refine ⟨t₁, by simpa using hb₁, carries_of_holds hs₁ ht₁ fun h => ?_⟩
    rw [htype] at h
    cases h
  | primarySecondary =>
    obtain ⟨t₁, hb₁, ht₁, hs₁, he⟩ := ho.becomes_secondary queues hm
    have hc := complete_response m.response_length (crc8From 0 (responseBytes m.response))
    obtain ⟨t₂, hb₂, hs₂, ht₂⟩ := becomes_answer queues hs₁ he ht₁ hc
    have hb₃ := becomes_responseAck queues hs₂
    exact ⟨_, hb₁.append (hb₂.append hb₃),
      carries_of_holds rfl (ht₂.setState .endCompleted) fun _ => rfl⟩
  | primaryPrimary =>
    obtain ⟨t₁, hb₁, ht₁, htype, hs₁⟩ := ho.becomes_requestOf queues m
    rw [hm] at htype
    rw [TelegramBase.isAckExpected, htype] at hs₁
    have hresp : t₁.isResponseExpected = false := by
      rw [TelegramBase.isResponseExpected, htype]
      rfl
    have hb₂ := becomes_requestAck queues hs₁
    rw [hresp] at hb₂
    refine ⟨_, hb₁.append hb₂, carries_of_holds rfl (ht₁.setState .endCompleted) fun h => ?_⟩
    have hnot : t₁.getType = .primarySecondary := h
    rw [htype] at hnot
    cases hnot
  | unknown =>
    rw [m.getType_sendCommand] at hm
    split at hm
    · cases hm
    · split at hm <;> cases hm

/-- A byte stream that carries a message and the SYN after it. -/
theorem symbols_wireForm_syn (m : Message) :
    wire.symbols false (m.wireForm ++ [syn]) =
      (m.request ++ m.reaction).map wire.symbolOf ++ [.plain syn] := by
  rw [m.wireForm_eq, wire.symbols_append, wire.symbols_encodeAll, wire.pendingAfter_encodeAll]
  rfl

/-- An open receiver queues the message on the SYN after it. -/
theorem Open.hears_message (ho : Open t) (m : Message) :
    ∃ t', emitted (hear true) t (wire.symbols false (m.wireForm ++ [syn])) = [t'] ∧
      Carries t' m := by
  obtain ⟨t', ⟨hrun, hout⟩, hcarries⟩ := ho.becomes_message true m
  refine ⟨t', ?_, hcarries⟩
  have hf := finished_of_completed hcarries.completed
  rw [symbols_wireForm_syn, emitted_append, hrun, hout, emitted_cons, hear, hf]
  rfl

/-- A receiver that no SYN has opened hears nothing of a message. -/
theorem becomes_unsynced (hs : t.state = .waitForSyn) (vs : List Byte) : Becomes queues t vs t := by
  induction vs with
  | nil => exact becomes_nil queues t
  | cons v vs ih =>
    have hfirst := becomes_single queues (TelegramBase.isFinished_of_state hs (by decide)) v
    have hraw := raw_symbolOf_ne_syn v
    rw [Telegram.receive, hs] at hfirst
    simp only [hraw, if_false] at hfirst
    exact hfirst.append ih

theorem hear_symbolOf_of_finished (hf : t.isFinished = true) (v : Byte) :
    hear queues t (wire.symbolOf v) = (.new, if queues then [t] else []) := by
  rw [hear_symbolOf, Telegram.refresh, hf, if_pos rfl, Telegram.receive]
  simp only [Telegram.new, raw_symbolOf_ne_syn, if_false, Bool.true_and]

/-- A receiver whose telegram is finished makes nothing of the values that follow, and queues that
telegram only. -/
theorem misses_values (hf : t.isFinished = true) (v : Byte) (vs : List Byte) :
    run (hear queues) t ((v :: vs).map wire.symbolOf) = .new ∧
      emitted (hear queues) t ((v :: vs).map wire.symbolOf) = if queues then [t] else [] := by
  have hfirst := hear_symbolOf_of_finished queues hf v
  obtain ⟨hrun, hout⟩ := becomes_unsynced queues (t := .new) rfl vs
  rw [List.map_cons]
  constructor
  · rw [run_cons, hfirst, hrun]
  · rw [emitted_cons, hfirst, hout, List.append_nil]

/-- A receiver whose telegram has just been broken off queues that telegram and nothing else. -/
theorem misses_message (hf : t.isFinished = true) (m : Message) :
    emitted (hear true) t (wire.symbols false (m.wireForm ++ [syn])) = [t] := by
  obtain ⟨vs, hvs⟩ := m.request_eq_cons
  obtain ⟨hrun, hout⟩ := misses_values true hf m.qq
    (vs ++ [crc8From 0 (requestBytes m.qq m.zz m.command m.data)] ++ m.reaction)
  rw [symbols_wireForm_syn, hvs, List.cons_append, List.cons_append, emitted_append, hrun, hout]
  rfl

/-! ### What a SYN does to the receiver -/

/-- No telegram is under way: none was opened, or the last one is finished. -/
def Idle (t : Telegram) : Prop :=
  t.state = .waitForSyn ∨ t.state = .waitForArbitration ∨ t.isFinished = true

instance (t : Telegram) : Decidable (Idle t) := inferInstanceAs (Decidable (_ ∨ _ ∨ _))

theorem open_new : Open ((Telegram.new).receive syn syn) := ⟨rfl, Telegram.holds_new.setState _⟩

theorem hear_syn_of_state {state : TelegramState} (hs : t.state = state) (h : 0 ≤ state.toInt) :
    (hear queues t (.plain syn)).1 = t.receive syn syn := by
  rw [hear, Telegram.refresh, TelegramBase.isFinished_of_state hs h]
  rfl

/-- A SYN opens the receiver if no telegram is under way, and otherwise ends the telegram. -/
theorem hear_syn {ss : List (Symbol Byte)} (h : Heard t ss) :
    Idle t ∧ Open (hear queues t (.plain syn)).1 ∨
      ¬ Idle t ∧ (hear queues t (.plain syn)).1.isFinished = true ∧
        (hear queues t (.plain syn)).1.state ≠ .endCompleted := by
  have hidle : ∀ {state : TelegramState}, t.state = state → 0 ≤ state.toInt →
      state ≠ .waitForSyn → state ≠ .waitForArbitration → ¬ Idle t := by
    intro state hs h0 h1 h2
    simp [Idle, hs, h1, h2, TelegramBase.isFinished_of_state hs h0]
  have hend : ∀ state : TelegramState, state.toInt < 0 → state ≠ .endCompleted →
      (t.setState state).isFinished = true ∧ (t.setState state).state ≠ .endCompleted :=
    fun state h0 hne => ⟨decide_eq_true h0, hne⟩
  have hfinished : t.isFinished = true → Open (hear queues t (.plain syn)).1 := by
    intro hf
    rw [hear, Telegram.refresh, hf, if_pos rfl]
    exact open_new
  cases h with
  | idle hs ht =>
    refine .inl ⟨.inl hs, ?_⟩
    rw [hear_syn_of_state queues hs (by decide), Telegram.receive, hs]
    exact ⟨rfl, ht.setState _⟩
  | opened hs ht =>
    refine .inl ⟨.inr (.inl hs), ?_⟩
    rw [hear_syn_of_state queues hs (by decide), Telegram.receive, hs]
    exact ⟨hs, ht⟩
  | request hs =>
    refine .inr ⟨hidle hs (by decide) (by decide) (by decide), ?_⟩
    rw [hear_syn_of_state queues hs (by decide), Telegram.receive, hs]
    simp only [if_true]
    split
    · exact hend .endArbitration (by decide) (by decide)
    · exact hend .endErrorUnexpectedSyn (by decide) (by decide)
  | requestAck hs =>
    refine .inr ⟨hidle hs (by decide) (by decide) (by decide), ?_⟩
    rw [hear_syn_of_state queues hs (by decide), Telegram.receive, hs]
    exact hend .endErrorRequestNoAck (by decide) (by decide)
  | response hs =>
    refine .inr ⟨hidle hs (by decide) (by decide) (by decide), ?_⟩
    rw [hear_syn_of_state queues hs (by decide), Telegram.receive, hs]
    exact hend .endErrorUnexpectedSyn (by decide) (by decide)
  | responseAck hs =>
    refine .inr ⟨hidle hs (by decide) (by decide) (by decide), ?_⟩
    rw [hear_syn_of_state queues hs (by decide), Telegram.receive, hs]
    exact hend .endErrorResponseNoAck (by decide) (by decide)
  | completed hs =>
    have hf := finished_of_completed hs
    exact .inl ⟨.inr (.inr hf), hfinished hf⟩
  | failed hf => exact .inl ⟨.inr (.inr hf), hfinished hf⟩

theorem Open.hear_syn (ho : Open t) : Open (hear queues t (.plain syn)).1 := by
  rw [hear_syn_of_state queues ho.state_eq (by decide), Telegram.receive, ho.state_eq]
  exact ho

namespace Ebus

theorem reachable_after (config : Config) (calls : List Call) :
    Reachable config ((init config).after calls) := ⟨calls, rfl⟩

theorem Reachable.heard {config : Config} {s : Ebus} (h : Reachable config s) :
    ∃ ss, Heard s.receivingTelegram ss := by
  obtain ⟨calls, rfl⟩ := h
  exact ⟨_, heard_after config calls⟩

/-- **Two SYNs open every receiver.** -/
theorem open_after_two_syns {config : Config} {s : Ebus} (hs : Reachable config s)
    {first second : Call} (h₁ : first.receivedByte = syn) (h₂ : second.receivedByte = syn) :
    Open (s.after [first, second]).receivingTelegram ∧ (s.after [first, second]).inEsc = false := by
  obtain ⟨ss, hheard⟩ := hs.heard
  rw [after_receivingTelegram, after_inEsc]
  have hbytes : bytesOf [first, second] = [syn, syn] := by
    rw [bytesOf, List.map_cons, List.map_singleton, h₁, h₂]
  rw [hbytes]
  cases s.inEsc with
  | true =>
    -- the first SYN breaks the escape pair and resets the receiver
    exact ⟨open_new, rfl⟩
  | false =>
    refine ⟨?_, rfl⟩
    show Open (hear _ (hear _ s.receivingTelegram (.plain syn)).1 (.plain syn)).1
    obtain ⟨-, ho⟩ | ⟨-, hf, -⟩ := hear_syn s.config.queueReceivedTelegram hheard
    · exact ho.hear_syn _
    · rw [hear, Telegram.refresh, hf, if_pos rfl]
      exact open_new

/-- **Reception after two SYNs.**  In every reachable state, two SYNs and then the wire form of a
message with the SYN after it make the driver queue, during the message and that SYN, exactly one
telegram, and that telegram carries the message. -/
theorem received_after_two_syns {config : Config} (hq : config.queueReceivedTelegram = true)
    {s : Ebus} (hs : Reachable config s) (m : Message) {first second : Call} {calls : List Call}
    (h₁ : first.receivedByte = syn) (h₂ : second.receivedByte = syn)
    (hcalls : bytesOf calls = m.wireForm ++ [syn]) :
    ∃ t, (s.after [first, second]).queuedDuring calls = [t] ∧ Carries t m := by
  obtain ⟨ho, hesc⟩ := open_after_two_syns hs h₁ h₂
  rw [queuedDuring_eq, hesc, hcalls, after_config, hs.config, hq]
  exact ho.hears_message m

/-- The primary 0x10 asks the secondary 0x08; both send a byte that has to be escaped. -/
def sampleMessage : Message where
  qq := 0x10#8
  zz := 0x08#8
  command := 0x0704#16
  data := [0xAA#8]
  response := [0xA9#8]
  qq_primary := rfl
  zz_ne_syn := by decide
  zz_ne_esc := by decide
  data_length := by decide
  response_length := by decide

/-- The message, after a request that breaks off inside an escape pair. -/
theorem received_after_two_syns_sample :
    let s := (init (defaultConfig 0x30#8)).after (quiet [0xAA#8, 0x10#8, 0x08#8, 0xA9#8])
    ∃ t, (s.after (quiet [syn, syn])).queuedDuring (quiet (sampleMessage.wireForm ++ [syn])) = [t] ∧
      Carries t sampleMessage :=
  received_after_two_syns rfl
    (reachable_after (defaultConfig 0x30#8) (quiet [0xAA#8, 0x10#8, 0x08#8, 0xA9#8])) sampleMessage
    rfl rfl (by decide +kernel)

/-- **Resynchronisation on a single SYN.**  In a reachable state with no escape byte pending, one
SYN and then the wire form of a message with the SYN after it make the driver queue exactly one
completed telegram, which carries the message, if and only if no telegram was under way. -/
theorem received_after_syn_iff {config : Config} (hq : config.queueReceivedTelegram = true)
    {s : Ebus} (hs : Reachable config s) (hesc : s.inEsc = false) (m : Message) {first : Call}
    {calls : List Call} (h₁ : first.receivedByte = syn)
    (hcalls : bytesOf calls = m.wireForm ++ [syn]) :
    (∃ t, ((s.after [first]).queuedDuring calls).filter (fun t => t.state = .endCompleted) = [t] ∧
      Carries t m) ↔ Idle s.receivingTelegram := by
  obtain ⟨ss, hheard⟩ := hs.heard
  have hbytes : bytesOf [first] = [syn] := by rw [bytesOf, List.map_singleton, h₁]
  have hopened : (s.after [first]).receivingTelegram =
      (hear config.queueReceivedTelegram s.receivingTelegram (.plain syn)).1 := by
    rw [after_receivingTelegram, hbytes, hesc, hs.config]
    rfl
  have hesc' : (s.after [first]).inEsc = false := by
    rw [after_inEsc, hbytes, hesc]
    rfl
  rw [queuedDuring_eq, hesc', hcalls, after_config, hs.config, hopened, hq]
  obtain ⟨hidle, ho⟩ | ⟨hidle, hf, hne⟩ := hear_syn true hheard
  · refine iff_of_true ?_ hidle
    obtain ⟨t, hout, hcarries⟩ := ho.hears_message m
    refine ⟨t, ?_, hcarries⟩
    rw [hout, List.filter_singleton]
    simp [hcarries.completed]
  · refine iff_of_false ?_ hidle
    rintro ⟨t, hout, -⟩
    rw [misses_message hf m, List.filter_singleton] at hout
    simp [hne] at hout

/-- The message, after a broadcast that has not been queued yet. -/
theorem received_after_syn_sample :
    let s := (init (defaultConfig 0x30#8)).after
      (quiet [0xAA#8, 0x10#8, 0xFE#8, 0x07#8, 0x00#8, 0x00#8, 0x13#8])
    (∃ t, ((s.after (quiet [syn])).queuedDuring (quiet (sampleMessage.wireForm ++ [syn]))).filter
        (fun t => t.state = .endCompleted) = [t] ∧ Carries t sampleMessage) ↔
      Idle s.receivingTelegram :=
  received_after_syn_iff rfl
    (reachable_after (defaultConfig 0x30#8)
      (quiet [0xAA#8, 0x10#8, 0xFE#8, 0x07#8, 0x00#8, 0x00#8, 0x13#8]))
    (by decide +kernel) sampleMessage rfl (by decide +kernel)

/-- The message is lost after the lone QQ of a collision. -/
theorem lost_after_collision :
    let s := (init (defaultConfig 0x30#8)).after (quiet [0xAA#8, 0x10#8])
    Reachable (defaultConfig 0x30#8) s ∧ s.inEsc = false ∧
      ¬ ∃ t, ((s.after (quiet [syn])).queuedDuring
        (quiet (sampleMessage.wireForm ++ [syn]))).filter (fun t => t.state = .endCompleted) = [t] ∧
          Carries t sampleMessage := by
  refine ⟨reachable_after _ _, by decide +kernel, ?_⟩
  rintro ⟨t, hout, -⟩
  have hnone : ((((init (defaultConfig 0x30#8)).after (quiet [0xAA#8, 0x10#8])).after
      (quiet [syn])).queuedDuring (quiet (sampleMessage.wireForm ++ [syn]))).filter
        (fun t => t.state = .endCompleted) = [] := by decide +kernel
  rw [hnone] at hout
  cases hout

end Ebus

end EsphomeEbus
