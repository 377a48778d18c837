import EsphomeEbus.Command
import EsphomeEbus.Reply

/-!
# Lengths at the limit of the buffers

A request takes 15 bytes of data: `get_nn` reads 16 and more as none.  Neither side that chooses a
length knows that limit.  The constructor of a command pushes whatever payload it is given, and
`handle_response_` sends a reply of up to `RESPONSE_BUFFER_SIZE` bytes, which counts the length byte
and the checksum.

* `Sound`, `sound_iff`: a command is sound exactly if its payload has at most 15 bytes;
* `Decodes`, `acknowledged_decodable_iff`: an acknowledged reply is decoded exactly if it has at
  most 15 bytes.
-/

namespace EsphomeEbus

open Elf Transducer Stuffing

/-! ### The constructor of a command -/

namespace TelegramBase

/-- The positions that a list of pushes writes at. -/
def writePositions (t : TelegramBase) : List Byte → List ℕ
  | [] => []
  | b :: bs => t.request.pos :: writePositions (t.pushReqData b) bs

/-- They are consecutive: nothing asks whether they are in the buffer. -/
theorem writePositions_eq (t : TelegramBase) (bs : List Byte) :
    t.writePositions bs = List.range' t.request.pos bs.length := by
  induction bs generalizing t with
  | nil => rfl
  | cons b bs ih => rw [writePositions, ih, List.length_cons, List.range'_succ]; rfl

end TelegramBase

namespace SendCommand

variable (qq zz : Byte) (command : BitVec 16) (payload : List Byte)

/-- The bytes that the constructor pushes, its checksum last. -/
def pushedBytes : List Byte :=
  requestBytes qq zz command payload ++ [(unsealed qq zz command payload).request.crc]

theorem new_eq_foldl : (new qq zz command payload).toTelegramBase =
    (pushedBytes qq zz command payload).foldl TelegramBase.pushReqData { state := .waitForSend } :=
  by rw [new_eq, pushedBytes, List.foldl_append]; rfl

/-- The positions that the constructor writes at. -/
def writePositions : List ℕ :=
  TelegramBase.writePositions { state := .waitForSend } (pushedBytes qq zz command payload)

theorem writePositions_eq : writePositions qq zz command payload =
    List.range (offsetData + payload.length + 1) := by
  rw [writePositions, TelegramBase.writePositions_eq, pushedBytes, List.length_append,
    length_requestBytes, List.range_eq_range']
  rfl

end SendCommand

/-- The bytes a command puts on the wire over all are the wire form of these values. -/
theorem uartSendRemainingRequestPart_eq (c : SendCommand) :
    uartSendChar c.getQq ++ uartSendRemainingRequestPart c =
      wire.encodeAll ([c.getQq, c.getZz, c.getPb, c.getSb, c.getNn] ++
        (List.range c.getNn.toNat).map
          (fun i => BitVec.ofInt 8 (c.getRequestByte (BitVec.ofNat 8 i))) ++ [c.getCrc]) := by
  simp only [uartSendRemainingRequestPart, uartSendChar_eq_encode, encodeAll_append, encodeAll_cons,
    encodeAll_nil, List.append_nil, List.append_assoc]
  congr 5
  rw [encodeAll, List.flatMap_map]

/-- The bytes are the wire form of a frame: addresses, command word, a length byte that is the
number of payload bytes, the payload, and the checksum of all these. -/
def Frames (bytes : List Byte) (qq zz : Byte) (command : BitVec 16) (payload : List Byte) : Prop :=
  ∃ nn : Byte, nn.toNat = payload.length ∧ bytes = wire.encodeAll
    (withCrc ([qq, zz, (command >>> 8).setWidth 8, command.setWidth 8, nn] ++ payload))

/-- The constructor writes inside the buffer, and the command, in whatever state and after how many
tries it is sent, sends a frame of its payload. -/
structure Sound (qq zz : Byte) (command : BitVec 16) (payload : List Byte) : Prop where
  inside : ∀ i ∈ SendCommand.writePositions qq zz command payload, i < requestBufferSize
  sent : ∀ c : SendCommand, c.request = (SendCommand.new qq zz command payload).request →
    Frames (uartSendChar c.getQq ++ uartSendRemainingRequestPart c) qq zz command payload

/-- No frame that a command sends has 16 bytes of data or more. -/
theorem length_of_frames {c : SendCommand} {qq zz : Byte} {command : BitVec 16}
    {payload : List Byte}
    (h : Frames (uartSendChar c.getQq ++ uartSendRemainingRequestPart c) qq zz command payload) :
    payload.length < maxDataLength := by
  obtain ⟨nn, -, heq⟩ := h
  rw [uartSendRemainingRequestPart_eq] at heq
  have hvalues := congrArg List.length (wire.encodeAll_injective heq)
  have hnn : c.getNn.toNat < maxDataLength := clipNn_lt _
  simp only [withCrc, List.length_append, List.length_cons, List.length_nil, List.length_map,
    List.length_range] at hvalues
  omega

/-- **A payload yields a sound command**, for all addresses and command words, if and only if it has
fewer than 16 bytes.  None is refused. -/
theorem sound_iff (qq zz : Byte) (command : BitVec 16) (payload : List Byte) :
    Sound qq zz command payload ↔ payload.length < maxDataLength := by
  constructor
  · intro h
    rcases Nat.lt_or_ge maxDataLength payload.length with hlong | hshort
    · -- the first cell behind the buffer is written
      have hpos := h.inside requestBufferSize
      rw [SendCommand.writePositions_eq, List.mem_range] at hpos
      exact absurd (hpos (by unfold requestBufferSize; omega)) (Nat.lt_irrefl _)
    · exact length_of_frames (h.sent _ rfl)
  · intro h
    refine ⟨?_, ?_⟩
    · intro i hi
      rw [SendCommand.writePositions_eq, List.mem_range] at hi
      unfold requestBufferSize
      omega
    · intro c hc
      refine ⟨BitVec.ofNat 8 payload.length, toNat_byte (Nat.lt_trans h (by decide)), ?_⟩
      have hqq : c.getQq = qq := by
        rw [TelegramBase.getQq, hc]
        exact SendCommand.getQq_new qq zz command h
      rw [hqq, uartSendRemainingRequestPart_congr hc,
        uartSendRemainingRequestPart_new qq zz command h, uartSendChar_eq_encode]
      rfl

/-- A payload of 16 bytes is sent as none, with a checksum over a length of 16; one of 17 bytes is
written past the buffer. -/
theorem long_payload_unsound :
    uartSendRemainingRequestPart (.new 0x10#8 0x08#8 0x0704#16 (List.replicate 16 0)) =
        [0x08#8, 0x07#8, 0x04#8, 0x00#8, 0x07#8] ∧
      22 ∈ SendCommand.writePositions 0x10#8 0x08#8 0x0704#16 (List.replicate 17 0) ∧
      ¬ Sound 0x10#8 0x08#8 0x0704#16 (List.replicate 17 0) := by
  refine ⟨by decide +kernel, by decide +kernel, ?_⟩
  intro h
  exact absurd (h.inside 22 (by decide +kernel)) (by decide)

/-! ### Acknowledged replies -/

/-- Fed the bytes of `calls`, the requester `r` takes them for the acknowledge of its request, then
for response data up to the last byte, on which it has exactly `reply`. -/
structure Decodes (r : Ebus) (calls : List Call) (reply : List Byte) : Prop where
  during : ∀ sofar rest, calls = sofar ++ rest → sofar ≠ [] → rest ≠ [] →
    (r.after sofar).receivingTelegram.state = .waitForResponseData
  complete : (r.after calls).receivingTelegram.state = .waitForResponseAck
  nn : (r.after calls).receivingTelegram.getResponseNn.toNat = reply.length
  bytes : ∀ i (h : i < reply.length),
    (r.after calls).receivingTelegram.getResponseByte (BitVec.ofNat 8 i) = (reply[i]).toNat

/-- If the answer is an acknowledge, the requester decodes the reply; a reply that no telegram holds
is answered with a NACK and nothing else. -/
def OnlyDecodable (r : Ebus) (calls : List Call) (answer reply : List Byte) : Prop :=
  (answer.head? = some ack → Decodes r calls reply) ∧
    (reply.length = 0 ∨ maxDataLength ≤ reply.length → answer = [nack])

section Acknowledged

variable {config : Config} {r : Ebus} {reply : List Byte} {calls : List Call} {crc : Byte}
  {t : Telegram} {primaryAddress : Byte} {handlers : List (Telegram → List Byte)}

/-- Between its first byte and its last the requester takes an answer for response data. -/
theorem answer_during (hr : Ebus.Reachable config r) (hesc : r.inEsc = false)
    (hs : r.receivingTelegram.state = .waitForRequestAck)
    (hps : r.receivingTelegram.getType = .primarySecondary) (hlen : reply.length < maxDataLength)
    (hcalls : bytesOf calls = wire.encodeAll (ack :: (responseBytes reply ++ [crc])))
    {sofar rest : List Call} (hsplit : calls = sofar ++ rest) (hsofar : sofar ≠ [])
    (hrest : rest ≠ []) :
    (r.after sofar).receivingTelegram.state = .waitForResponseData := by
  obtain ⟨ss, hheard⟩ := hr.heard
  obtain ⟨rq, ht, -⟩ := hheard.request_of_waitForRequestAck hs
  have he := (TelegramBase.isResponseExpected_iff _).mpr hps
  have hc := complete_response hlen crc
  have hbytes : wire.encodeAll (ack :: (responseBytes reply ++ [crc])) =
      bytesOf sofar ++ bytesOf rest := by
    rw [← hcalls, hsplit, bytesOf, List.map_append]
    rfl
  obtain ⟨us, ws, hvs, hws, hread⟩ := wire.symbols_prefix hbytes (by simpa [bytesOf] using hrest)
  rw [Ebus.after_receivingTelegram, hesc, hread]
  rcases answer_partway r.config.queueReceivedTelegram hs he ht hc hvs hws with rfl | hdata
  · -- the first byte is the acknowledge, and a symbol
    exfalso
    obtain ⟨first, more, rfl⟩ := List.exists_cons_of_ne_nil hsofar
    have hfirst : first.receivedByte = ack := by
      have hhead := congrArg List.head? hbytes
      rw [encodeAll_cons, encode_ack] at hhead
      exact (Option.some.inj hhead).symm
    have hsymbols := congrArg List.length hread
    rw [bytesOf, List.map_cons, hfirst, ← List.singleton_append, wire.symbols_append,
      List.length_append] at hsymbols
    exact absurd hsymbols (Nat.ne_of_gt (Nat.add_pos_left (by decide) _))
  · exact hdata

/-- A reply without bytes or with too many is answered with a NACK. -/
theorem handleResponse_nack (hs : t.state = .waitForRequestAck)
    (hz : t.getZz = toSecondary primaryAddress) (hv : t.isRequestValid = true)
    (hlen : (findReply handlers t).length = 0 ∨
      responseBufferSize < (findReply handlers t).length) :
    handleResponse primaryAddress handlers t = [nack] := by
  rw [handleResponse, if_neg (by simp [hs, hz]), hv]
  simp only [Bool.not_true, Bool.false_eq_true, if_false]
  rw [if_pos hlen]
  rfl

/-- Every other reply is acknowledged. -/
theorem head_handleResponse (hs : t.state = .waitForRequestAck)
    (hz : t.getZz = toSecondary primaryAddress) (hv : t.isRequestValid = true)
    (hlen : ¬ ((findReply handlers t).length = 0 ∨
      responseBufferSize < (findReply handlers t).length)) :
    (handleResponse primaryAddress handlers t).head? = some ack := by
  rw [handleResponse, if_neg (by simp [hs, hz]), hv]
  simp only [Bool.not_true, Bool.false_eq_true, if_false]
  rw [if_neg hlen]
  rfl

/-- A reply that fits a telegram is decoded, unless the node has the address ESC. -/
theorem decodes_iff_of_fits (hs : t.state = .waitForRequestAck)
    (hz : t.getZz = toSecondary primaryAddress) (hv : t.isRequestValid = true)
    (hr : Ebus.Reachable config r) (hesc : r.inEsc = false)
    (hs' : r.receivingTelegram.state = .waitForRequestAck)
    (hsame : r.receivingTelegram.request = t.request)
    (hpos : 0 < (findReply handlers t).length)
    (hlt : (findReply handlers t).length < maxDataLength)
    (hcalls : bytesOf calls = handleResponse primaryAddress handlers t) :
    Decodes r calls (findReply handlers t) ↔ primaryAddress ≠ esc := by
  have hz' : r.receivingTelegram.getZz = toSecondary primaryAddress := by
    rw [TelegramBase.getZz, hsame]
    exact hz
  rw [handleResponse_eq hs hz hv hpos hlt] at hcalls
  obtain ⟨ss, hheard⟩ := hr.heard
  obtain ⟨-, -, hexpected⟩ := hheard.request_of_waitForRequestAck hs'
  by_cases hne : primaryAddress = esc
  · -- the secondary of ESC is ESC, and nobody waits for its response
    have hzesc : r.receivingTelegram.getZz = esc := by
      rw [hz', hne]
      decide
    have he : r.receivingTelegram.isResponseExpected = false := by
      rw [TelegramBase.isResponseExpected, TelegramBase.getType, if_pos hzesc]
      rfl
    have hnot := unanswered hesc hs' he hcalls
    exact iff_of_false (fun h => hnot h.complete) fun h => h hne
  · have hps := getType_of_toSecondary hne hz' hexpected
    obtain ⟨hans, -⟩ := answered hr hesc hs' hps hlt hcalls
    refine iff_of_true ?_ hne
    exact ⟨fun _ _ hsplit hsofar hrest =>
      answer_during hr hesc hs' hps hlt hcalls hsplit hsofar hrest, hans.complete, hans.nn,
      hans.bytes⟩

/-- **Only decodable replies are acknowledged.**  A node with a valid request to it answers from its
handlers, and a requester that waits for the acknowledge of this request hears the answer.  What the
handlers reply is decoded where it is acknowledged, and refused where it cannot be, if and only if
it has not 16, 17 or 18 bytes, and the address of the node is not ESC or the reply refused. -/
theorem acknowledged_decodable_iff (handlers : List (Telegram → List Byte))
    (hs : t.state = .waitForRequestAck) (hz : t.getZz = toSecondary primaryAddress)
    (hv : t.isRequestValid = true) (hr : Ebus.Reachable config r) (hesc : r.inEsc = false)
    (hs' : r.receivingTelegram.state = .waitForRequestAck)
    (hsame : r.receivingTelegram.request = t.request)
    (hreply : findReply handlers t = reply)
    (hcalls : bytesOf calls = handleResponse primaryAddress handlers t) :
    OnlyDecodable r calls (handleResponse primaryAddress handlers t) reply ↔
      (reply.length < maxDataLength ∨ responseBufferSize < reply.length) ∧
        (primaryAddress = esc → reply.length = 0 ∨ responseBufferSize < reply.length) := by
  subst hreply
  by_cases hnack : (findReply handlers t).length = 0 ∨
      responseBufferSize < (findReply handlers t).length
  · have hanswer := handleResponse_nack hs hz hv hnack
    refine iff_of_true ⟨?_, fun _ => hanswer⟩ ⟨?_, fun _ => hnack⟩
    · rw [hanswer]
      intro h
      exact absurd (Option.some.inj h) (by decide)
    · rcases hnack with h | h
      · exact .inl (by rw [h]; decide)
      · exact .inr h
  · have hack := head_handleResponse hs hz hv hnack
    obtain ⟨hpos, hsize⟩ := not_or.mp hnack
    rcases Nat.lt_or_ge (findReply handlers t).length maxDataLength with hlt | hge
    · have hdecodes := decodes_iff_of_fits hs hz hv hr hesc hs' hsame (Nat.pos_of_ne_zero hpos) hlt
        hcalls
      have hfits : ¬ ((findReply handlers t).length = 0 ∨
          maxDataLength ≤ (findReply handlers t).length) := by omega
      constructor
      · intro h
        exact ⟨.inl hlt, fun heq => absurd heq (hdecodes.mp (h.1 hack))⟩
      · intro h
        exact ⟨fun _ => hdecodes.mpr fun heq => hnack (h.2 heq), fun hlen => absurd hlen hfits⟩
    · -- a reply of 16, 17 or 18 bytes is acknowledged all the same
      refine iff_of_false (fun h => ?_) fun h => ?_
      · rw [h.2 (.inr hge)] at hack
        exact absurd (Option.some.inj hack) (by decide)
      · rcases h.1 with hlt | hlarge
        · exact absurd hlt (Nat.not_lt.mpr hge)
        · exact hsize hlarge

end Acknowledged

/-- The reply of two bytes is decoded. -/
theorem short_reply_decodable :
    OnlyDecodable requester
        (quiet (handleResponse 0x30#8 [fun _ => [0x12#8, 0x34#8]] requester.receivingTelegram))
        (handleResponse 0x30#8 [fun _ => [0x12#8, 0x34#8]] requester.receivingTelegram)
        [0x12#8, 0x34#8] ↔
      (2 < maxDataLength ∨ responseBufferSize < 2) ∧
        ((0x30#8 : Byte) = esc → 2 = 0 ∨ responseBufferSize < 2) :=
  acknowledged_decodable_iff [fun _ => [0x12#8, 0x34#8]] (by decide +kernel) (by decide +kernel)
    (by decide +kernel) (Ebus.reachable_after _ _) (by decide +kernel) (by decide +kernel) rfl
    (by decide +kernel) (bytesOf_quiet _)

/-- A reply of 16 bytes is acknowledged; the requester takes its first byte for the checksum of an
empty response. -/
theorem long_reply_acknowledged :
    let answer := handleResponse 0x30#8 [fun _ => List.replicate 16 0] requester.receivingTelegram
    let heard := (requester.after (quiet (answer.take 3))).receivingTelegram
    requester.receivingTelegram.isRequestValid = true ∧ answer.head? = some ack ∧
      answer.length = 19 ∧ heard.state = .waitForResponseAck ∧ heard.getResponseNn = 0 ∧
      ¬ OnlyDecodable requester (quiet answer) answer (List.replicate 16 0) := by
  refine ⟨by decide +kernel, by decide +kernel, by decide +kernel, by decide +kernel,
    by decide +kernel, ?_⟩
  intro h
  have hanswer := h.2 (.inr (by decide))
  revert hanswer
  decide +kernel

end EsphomeEbus
