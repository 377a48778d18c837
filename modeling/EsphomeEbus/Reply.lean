import EsphomeEbus.Reception

/-!
# The reply of a secondary, and the requester that hears it

`handle_response_` sends an acknowledge, the reply and a checksum; a requester running the same code
decodes them.  Both sides frame the reply in the same way, but the sender runs its checksum over the
bytes as they go out, escape pairs included, and the receiver over the values it has decoded.

* `handleResponse_eq`: what is sent is an encoded list of values;
* `answered`: the requester has the reply, whatever it is, exactly when its last byte has arrived;
* `reply_accepted_iff`: it finds the checksum right exactly when the reply has the same checksum in
  both forms.
-/

namespace EsphomeEbus

open Elf Transducer Stuffing

/-! ### What the sender sends -/

/-- The checksum a sender of `reply` ends with: over the length and the reply in wire form. -/
def replyCrc (reply : List Byte) : Byte :=
  crc8From 0 (BitVec.ofNat 8 reply.length :: wire.encodeAll reply)

theorem uartSendCharCrc_run (b crc : Byte) :
    uartSendCharCrc b true true crc = (wire.encode b, crc8From crc (wire.encode b)) := by
  rw [← uartSendChar_eq_encode]
  rfl

/-- The loop over the reply sends its wire form, and runs the checksum over that form. -/
theorem sendReply_eq (reply : List Byte) (crc : Byte) :
    sendReply reply crc = (wire.encodeAll reply, crc8From crc (wire.encodeAll reply)) := by
  induction reply generalizing crc with
  | nil => rfl
  | cons b reply ih =>
    simp only [sendReply, uartSendCharCrc_run, ih, encodeAll_cons, crc8From_append]

/-- A valid request to this node is answered with the first reply a handler has. -/
theorem handleResponse_eq {primaryAddress : Byte} {handlers : List (Telegram → List Byte)}
    {t : Telegram} (hs : t.state = .waitForRequestAck) (hz : t.getZz = toSecondary primaryAddress)
    (hv : t.isRequestValid = true) (hpos : 1 ≤ (findReply handlers t).length)
    (hlen : (findReply handlers t).length < maxDataLength) :
    handleResponse primaryAddress handlers t = wire.encodeAll
      (ack :: (responseBytes (findReply handlers t) ++ [replyCrc (findReply handlers t)])) := by
  have hsize : (findReply handlers t).length ≤ responseBufferSize :=
    Nat.le_trans (Nat.le_of_lt hlen) (by decide)
  rw [handleResponse, if_neg (by simp [hs, hz]), hv]
  simp only [Bool.not_true, Bool.false_eq_true, if_false]
  rw [if_neg (by omega), sendReply_eq]
  simp [uartSendChar_eq_encode, responseBytes, replyCrc]

/-! ### What the requester makes of it -/

/-- A node's own secondary address is a secondary address, unless it is no address at all. -/
theorem toSecondary_type : ∀ a : Byte, a ≠ esc → toSecondary a ≠ broadcastAddress →
    toSecondary a ≠ esc ∧ isPrimary (toSecondary a) = false := by decide +kernel

theorem getType_of_toSecondary {t : Telegram} {primaryAddress : Byte} (hne : primaryAddress ≠ esc)
    (hz : t.getZz = toSecondary primaryAddress) (ha : t.isAckExpected = true) :
    t.getType = .primarySecondary := by
  rw [TelegramBase.isAckExpected_iff, hz] at ha
  obtain ⟨hesc, hprim⟩ := toSecondary_type primaryAddress hne ha
  rw [TelegramBase.getType, hz, if_neg hesc, if_neg ha, hprim]
  rfl

/-- A telegram that waits for the acknowledge of its request holds a whole request and no response.
-/
theorem Heard.request_of_waitForRequestAck {t : Telegram} {ss : List (Symbol Byte)} (h : Heard t ss)
    (hs : t.state = .waitForRequestAck) : ∃ rq, t.Holds rq [] ∧ t.isAckExpected = true := by
  cases h with
  | requestAck _ _ ht _ ha => exact ⟨_, ht, ha⟩
  | idle h => rw [h] at hs; cases hs
  | opened h => rw [h] at hs; cases hs
  | request h => rw [h] at hs; cases hs
  | response h => rw [h] at hs; cases hs
  | responseAck h => rw [h] at hs; cases hs
  | completed h => rw [h] at hs; cases hs
  | failed h => rw [TelegramBase.isFinished, hs] at h; cases h

/-- The run `calls` from `r` brings in the reply: the last call and no other makes the receiver wait
for the acknowledge of a response, and the response it holds is `reply`. -/
structure Answered (r : Ebus) (calls : List Call) (reply : List Byte) : Prop where
  complete : (r.after calls).receivingTelegram.state = .waitForResponseAck
  notBefore : ∀ sofar rest, calls = sofar ++ rest → rest ≠ [] →
    (r.after sofar).receivingTelegram.state ≠ .waitForResponseAck
  nn : (r.after calls).receivingTelegram.getResponseNn.toNat = reply.length
  bytes : ∀ i (h : i < reply.length),
    (r.after calls).receivingTelegram.getResponseByte (BitVec.ofNat 8 i) = (reply[i]).toNat

variable {config : Config} {r : Ebus} {reply : List Byte} {calls : List Call} {crc : Byte}

/-- **The reply is decoded**, whatever bytes it has and whatever checksum follows it. -/
theorem answered (hr : Ebus.Reachable config r) (hesc : r.inEsc = false)
    (hs : r.receivingTelegram.state = .waitForRequestAck)
    (hps : r.receivingTelegram.getType = .primarySecondary) (hlen : reply.length < maxDataLength)
    (hcalls : bytesOf calls = wire.encodeAll (ack :: (responseBytes reply ++ [crc]))) :
    Answered r calls reply ∧ ((r.after calls).receivingTelegram.isResponseValid = true ↔
      crc = crc8From 0 (responseBytes reply)) := by
  obtain ⟨ss, hheard⟩ := hr.heard
  obtain ⟨rq, ht, -⟩ := hheard.request_of_waitForRequestAck hs
  have he := (TelegramBase.isResponseExpected_iff _).mpr hps
  have hc := complete_response hlen crc
  obtain ⟨t', hb, hs', ht'⟩ := becomes_answer r.config.queueReceivedTelegram hs he ht hc
  have hafter : (r.after calls).receivingTelegram = t' := by
    rw [Ebus.after_receivingTelegram, hesc, hcalls, wire.symbols_encodeAll]
    exact hb.1
  constructor
  · refine ⟨?_, ?_, ?_, ?_⟩
    · rw [hafter, hs']
    · intro sofar rest hsplit hrest
      have hbytes : wire.encodeAll (ack :: (responseBytes reply ++ [crc])) =
          bytesOf sofar ++ bytesOf rest := by
        rw [← hcalls, hsplit, bytesOf, List.map_append]
        rfl
      obtain ⟨us, ws, hvs, hws, hread⟩ :=
        wire.symbols_prefix hbytes (by simpa [bytesOf] using hrest)
      rw [Ebus.after_receivingTelegram, hesc, hread]
      rcases answer_partway r.config.queueReceivedTelegram hs he ht hc hvs hws with rfl | hdata
      · rw [List.map_nil, run_nil, hs]
        decide
      · rw [hdata]
        decide
    · rw [hafter]
      exact Telegram.getResponseNn_of_stored ht'.response hlen
    · intro i hi
      rw [hafter]
      exact Telegram.getResponseByte_of_stored ht'.response hlen hi
  · rw [hafter, ht'.isResponseValid_iff (.inl (by rw [hs']; decide)), and_iff_right hc,
      checked_concat_iff hc]

/-- A requester that expects no response is done with the acknowledge, and makes nothing of a reply.
-/
theorem unanswered (hesc : r.inEsc = false) (hs : r.receivingTelegram.state = .waitForRequestAck)
    (he : r.receivingTelegram.isResponseExpected = false) {v : Byte} {vs : List Byte}
    (hcalls : bytesOf calls = wire.encodeAll (ack :: v :: vs)) :
    (r.after calls).receivingTelegram.state ≠ .waitForResponseAck := by
  have hack := becomes_requestAck r.config.queueReceivedTelegram hs
  rw [he] at hack
  have hmissed := misses_values r.config.queueReceivedTelegram (finished_of_completed rfl) v vs
    (t := r.receivingTelegram.setState .endCompleted)
  have hrun : run (hear r.config.queueReceivedTelegram) r.receivingTelegram
      ((ack :: v :: vs).map wire.symbolOf) = .new := by
    rw [← List.singleton_append, List.map_append, run_append, hack.1]
    exact hmissed.1
  rw [Ebus.after_receivingTelegram, hesc, hcalls, wire.symbols_encodeAll, hrun]
  decide

/-! ### Agreement -/

/-- The reply has the same checksum in wire form as it has by its values. -/
def SameChecksum (reply : List Byte) : Prop :=
  crc8From 0 (BitVec.ofNat 8 reply.length :: wire.encodeAll reply) =
    crc8From 0 (BitVec.ofNat 8 reply.length :: reply)

instance (reply : List Byte) : Decidable (SameChecksum reply) :=
  inferInstanceAs (Decidable (_ = _))

/-- A reply without SYN and ESC is sent as it is. -/
theorem sameChecksum_of_unreserved {reply : List Byte} (h : ∀ b ∈ reply, b ≠ syn ∧ b ≠ esc) :
    SameChecksum reply := by
  have hsame : wire.encodeAll reply = reply := by
    induction reply with
    | nil => rfl
    | cons b reply ih =>
      obtain ⟨hsyn, hesc⟩ := h b (by simp)
      have hmark : wire.mark b = none := by simp [wire, hsyn, hesc]
      rw [encodeAll_cons, encode_of_mark_none _ hmark, ih fun c hc => h c (by simp [hc])]
      rfl
  rw [SameChecksum, hsame]

/-- **Reply encoder and response decoder.**  A requester that waits for the acknowledge of a
request, fed the bytes with which `handle_response_` of another node answers this valid request, has
the reply exactly on the last byte and finds its checksum right, if and only if the reply has the
same checksum in wire form as it has by its values and the other node's address is not ESC. -/
theorem reply_accepted_iff (primaryAddress : Byte)
    (handlers : List (Telegram → List Byte)) (hr : Ebus.Reachable config r) (hesc : r.inEsc = false)
    (hs : r.receivingTelegram.state = .waitForRequestAck)
    (hz : r.receivingTelegram.getZz = toSecondary primaryAddress)
    (hv : r.receivingTelegram.isRequestValid = true)
    (hreply : findReply handlers r.receivingTelegram = reply)
    (hpos : 1 ≤ reply.length) (hlen : reply.length < maxDataLength)
    (hcalls : bytesOf calls = handleResponse primaryAddress handlers r.receivingTelegram) :
    Answered r calls reply ∧ (r.after calls).receivingTelegram.isResponseValid = true ↔
      SameChecksum reply ∧ primaryAddress ≠ esc := by
  subst hreply
  rw [handleResponse_eq hs hz hv hpos hlen] at hcalls
  by_cases hne : primaryAddress = esc
  · -- ESC for an address makes the request one of no type
    have hesczz : r.receivingTelegram.getZz = esc := by
      rw [hz, hne]
      decide
    have he : r.receivingTelegram.isResponseExpected = false := by
      rw [TelegramBase.isResponseExpected, TelegramBase.getType, if_pos hesczz]
      rfl
    have hnot := unanswered hesc hs he hcalls
    exact iff_of_false (fun h => hnot h.1.complete) fun h => h.2 hne
  · obtain ⟨ss, hheard⟩ := hr.heard
    obtain ⟨-, -, hack⟩ := hheard.request_of_waitForRequestAck hs
    obtain ⟨hans, hvalid⟩ := answered hr hesc hs (getType_of_toSecondary hne hz hack) hlen hcalls
    rw [and_iff_right hans, and_iff_left hne, hvalid]
    exact Iff.rfl

/-- The primary 0x10 has sent a request to the secondary of 0x30. -/
def requester : Ebus :=
  (Ebus.init (defaultConfig 0x10#8)).after
    (quiet [0xAA#8, 0x10#8, 0x35#8, 0x07#8, 0x04#8, 0x00#8, 0xA2#8])

/-- Two plain bytes are accepted. -/
theorem plain_reply_accepted :
    let calls := quiet
      (handleResponse 0x30#8 [fun _ => [0x12#8, 0x34#8]] requester.receivingTelegram)
    Answered requester calls [0x12#8, 0x34#8] ∧
        (requester.after calls).receivingTelegram.isResponseValid = true ↔
      SameChecksum [0x12#8, 0x34#8] ∧ (0x30#8 : Byte) ≠ esc :=
  reply_accepted_iff 0x30#8 [fun _ => [0x12#8, 0x34#8]] (Ebus.reachable_after _ _)
    (by decide +kernel) (by decide +kernel) (by decide +kernel) (by decide +kernel)
    (by decide +kernel) (by decide) (by decide) (bytesOf_quiet _)

/-- A byte that has to be escaped is not: the requester has it, and finds the checksum wrong. -/
theorem escaped_reply_rejected :
    let calls := quiet (handleResponse 0x30#8 [fun _ => [0xAA#8]] requester.receivingTelegram)
    requester.receivingTelegram.state = .waitForRequestAck ∧
      requester.receivingTelegram.getZz = toSecondary 0x30#8 ∧
      requester.receivingTelegram.isRequestValid = true ∧ requester.inEsc = false ∧
      ¬ (Answered requester calls [0xAA#8] ∧
        (requester.after calls).receivingTelegram.isResponseValid = true) := by
  refine ⟨by decide +kernel, by decide +kernel, by decide +kernel, by decide +kernel, ?_⟩
  rintro ⟨-, hvalid⟩
  revert hvalid
  decide +kernel

end EsphomeEbus
