import EsphomeEbus.Content
import EsphomeEbus.Receiver

/-!
# Well-formed messages and their wire form

A `Message` is what one participant has to say to another: addresses, command word, data, and the
response if the address asks for one.  The telegrams of the source are its representations: a
`SendCommand` holds the request, the bus carries `wireForm`, and a `Telegram` that `Carries` it is
what a listener should end up with.

* `SendCommand.holds_new`: the constructor stores the request and its checksum;
* `uartSendRemainingRequestPart_new`: what a winner of the arbitration sends is the wire form of the
  request without QQ;
* `Message.wireForm_eq`: the whole wire form is an escape-encoded list of values.
-/

namespace EsphomeEbus

open Elf Stuffing

/-- Addresses, command word and contents of one telegram, within the limits of the bus. -/
structure Message where
  qq : Byte
  zz : Byte
  command : BitVec 16
  data : List Byte
  response : List Byte
  qq_primary : isPrimary qq = true
  zz_ne_syn : zz ≠ syn
  zz_ne_esc : zz ≠ esc
  data_length : data.length < maxDataLength
  response_length : response.length < maxDataLength

/-- QQ ZZ PB SB NN and the data: a request without its CRC. -/
def requestBytes (qq zz : Byte) (command : BitVec 16) (data : List Byte) : List Byte :=
  [qq, zz, (command >>> 8).setWidth 8, command.setWidth 8, BitVec.ofNat 8 data.length] ++ data

/-- NN and the data: a response without its CRC. -/
def responseBytes (data : List Byte) : List Byte := BitVec.ofNat 8 data.length :: data

/-- A list of bytes and its checksum. -/
def withCrc (l : List Byte) : List Byte := l ++ [crc8From 0 l]

namespace Message

variable (m : Message)

/-- The command that sends the request of the message. -/
def sendCommand : SendCommand := .new m.qq m.zz m.command m.data

/-- What follows the request on the wire: nothing for a broadcast, the acknowledge of a primary, or
the acknowledge of a secondary, its response, and the acknowledge of that. -/
def reactionForm : List Byte :=
  match m.sendCommand.getType with
  | .broadcast => []
  | .primarySecondary =>
    [ack] ++ (withCrc (responseBytes m.response)).flatMap uartSendChar ++ [ack]
  | _ => [ack]

/-- The bytes of the message on the wire, between the SYN before it and the SYN after it. -/
def wireForm : List Byte :=
  (requestBytes m.qq m.zz m.command m.data ++ [m.sendCommand.getCrc]).flatMap uartSendChar ++
    m.reactionForm

end Message

/-- The telegram is completed and holds exactly the message, with right checksums. -/
structure Carries (t : Telegram) (m : Message) : Prop where
  completed : t.state = .endCompleted
  qq : t.getQq = m.qq
  zz : t.getZz = m.zz
  command : t.getCommand = m.command
  nn : t.getNn.toNat = m.data.length
  data : ∀ i (h : i < m.data.length), t.getRequestByte (BitVec.ofNat 8 i) = (m.data[i]).toNat
  requestValid : t.isRequestValid = true
  responseNn : t.getType = .primarySecondary → t.getResponseNn.toNat = m.response.length
  response : t.getType = .primarySecondary → ∀ i (h : i < m.response.length),
    t.getResponseByte (BitVec.ofNat 8 i) = (m.response[i]).toNat
  responseValid : t.getType = .primarySecondary → t.isResponseValid = true

/-! ### Frames made of a header, data and a checksum -/

/-- A number that fits a byte. -/
theorem toNat_byte {n : ℕ} (h : n < 256) : (BitVec.ofNat 8 n).toNat = n := by
  rw [BitVec.toNat_ofNat]
  exact Nat.mod_eq_of_lt h

theorem clipNn_ofNat {n : ℕ} (h : n < maxDataLength) : (clipNn (BitVec.ofNat 8 n)).toNat = n := by
  have hn : (BitVec.ofNat 8 n).toNat = n := toNat_byte (Nat.lt_trans h (by decide))
  rw [clipNn, hn, if_neg (by omega), hn]

@[simp] theorem length_requestBytes (qq zz : Byte) (command : BitVec 16) (data : List Byte) :
    (requestBytes qq zz command data).length = offsetData + data.length := by
  simp only [requestBytes, List.length_append]
  rfl

@[simp] theorem length_responseBytes (data : List Byte) :
    (responseBytes data).length = responseOffset + data.length := by
  rw [responseBytes, List.length_cons, Nat.add_comm]
  rfl

theorem announced_requestBytes (qq zz : Byte) (command : BitVec 16) {data : List Byte}
    (h : data.length < maxDataLength) :
    announced offsetData (requestBytes qq zz command data) = data.length := clipNn_ofNat h

theorem announced_responseBytes {data : List Byte} (h : data.length < maxDataLength) :
    announced responseOffset (responseBytes data) = data.length := clipNn_ofNat h

theorem complete_request (qq zz : Byte) (command : BitVec 16) {data : List Byte}
    (h : data.length < maxDataLength) (crc : Byte) :
    Complete offsetData (requestBytes qq zz command data ++ [crc]) := by
  apply complete_concat offsetData_pos
  rw [announced_requestBytes _ _ _ h, length_requestBytes]

theorem complete_response {data : List Byte} (h : data.length < maxDataLength) (crc : Byte) :
    Complete responseOffset (responseBytes data ++ [crc]) := by
  apply complete_concat responseOffset_pos
  rw [announced_responseBytes h, length_responseBytes]

/-! ### The constructor of a command -/

namespace TelegramBase

/-- A push to the request, said of the part of a telegram that commands share. -/
theorem holds_pushReqData {t : TelegramBase} {l : List Byte}
    (ht : t.request.Holds offsetData [esc, esc] l) (hg : Growing offsetData l) (x : Byte) :
    (t.pushReqData x).request.Holds offsetData [esc, esc] (l ++ [x]) :=
  RollingBuffer.holds_pushBuffer ht offsetData_pos rfl (by decide) hg x

/-- A list of pushes, for as long as the frame takes bytes. -/
theorem holds_foldl_pushReqData (xs m : List Byte) {t : TelegramBase} {l : List Byte}
    (ht : t.request.Holds offsetData [esc, esc] l) (hc : Complete offsetData (l ++ (xs ++ m))) :
    (xs.foldl pushReqData t).request.Holds offsetData [esc, esc] (l ++ xs) := by
  induction xs generalizing t l with
  | nil => rwa [List.append_nil]
  | cons x xs ih =>
    have hg : Growing offsetData l := growing_of_complete offsetData_pos hc (by simp)
    have hstep := holds_pushReqData ht hg x
    rw [List.cons_append, List.append_cons] at hc
    rw [List.append_cons]
    exact ih hstep hc

theorem pushReqData_state (t : TelegramBase) (x : Byte) : (t.pushReqData x).state = t.state := rfl

theorem foldl_pushReqData_state (xs : List Byte) (t : TelegramBase) :
    (xs.foldl pushReqData t).state = t.state := by
  induction xs generalizing t with
  | nil => rfl
  | cons x xs ih => exact ih (t.pushReqData x)

section Stored

variable {t : TelegramBase} {qq zz : Byte} {command : BitVec 16} {data : List Byte} {crc : Byte}
  (ht : t.request.Holds offsetData [esc, esc] (requestBytes qq zz command data ++ [crc]))

include ht

theorem get_of_stored {i : ℕ} (hi : i < offsetData + data.length) :
    t.request.get i = (requestBytes qq zz command data).getD i 0 := by
  have hlt : i < (requestBytes qq zz command data).length := by rwa [length_requestBytes]
  rw [ht.get_of_lt i (by rw [List.length_append]; omega), List.getD_append _ _ _ _ hlt]

theorem getQq_of_stored : t.getQq = qq :=
  get_of_stored ht (Nat.lt_add_right _ (by decide))

theorem getZz_of_stored : t.getZz = zz :=
  get_of_stored ht (Nat.lt_add_right _ (by decide))

theorem getPb_of_stored : t.getPb = (command >>> 8).setWidth 8 :=
  get_of_stored ht (Nat.lt_add_right _ (by decide))

theorem getSb_of_stored : t.getSb = command.setWidth 8 :=
  get_of_stored ht (Nat.lt_add_right _ (by decide))

theorem getCommand_of_stored : t.getCommand = command := by
  rw [getCommand, getPb_of_stored ht, getSb_of_stored ht]
  ext i hi
  simp
  grind

variable (h : data.length < maxDataLength)

include h

theorem getNn_of_stored : t.getNn.toNat = data.length := by
  have hnn : t.request.get offsetNn = BitVec.ofNat 8 data.length :=
    get_of_stored ht (Nat.lt_add_right _ (by decide))
  rw [getNn, hnn, clipNn_ofNat h]

theorem getRequestByte_of_stored {i : ℕ} (hi : i < data.length) :
    t.getRequestByte (BitVec.ofNat 8 i) = (data[i]).toNat := by
  have hpos : (BitVec.ofNat 8 i).toNat = i :=
    toNat_byte (Nat.lt_trans (Nat.lt_trans hi h) (by decide))
  have hle : ¬ t.getNn < BitVec.ofNat 8 i := by
    rw [BitVec.lt_def, getNn_of_stored ht h, hpos]
    omega
  rw [getRequestByte, hpos, if_neg (by simp only [hle, false_or]; omega),
    get_of_stored ht (by omega)]
  show (((requestBytes qq zz command data).getD (5 + i) 0).toNat : ℤ) = _
  rw [requestBytes, List.getD_append_right _ _ _ _ (by simp), List.getD_eq_getElem _ _ (by simpa)]
  simp

end Stored

end TelegramBase

namespace Telegram

variable {t : Telegram} {data : List Byte} {crc : Byte}
  (ht : t.response.Holds responseOffset [] (responseBytes data ++ [crc]))
  (h : data.length < maxDataLength)

include ht h

theorem getResponseNn_of_stored : t.getResponseNn.toNat = data.length := by
  have hnn : t.response.get 0 = BitVec.ofNat 8 data.length := ht.get_of_lt 0 (by simp)
  rw [getResponseNn, hnn, clipNn_ofNat h]

theorem getResponseByte_of_stored {i : ℕ} (hi : i < data.length) :
    t.getResponseByte (BitVec.ofNat 8 i) = (data[i]).toNat := by
  have hpos : (BitVec.ofNat 8 i).toNat = i :=
    toNat_byte (Nat.lt_trans (Nat.lt_trans hi h) (by decide))
  have hle : ¬ t.getResponseNn < BitVec.ofNat 8 i := by
    rw [BitVec.lt_def, getResponseNn_of_stored ht h, hpos]
    omega
  have hlt : responseOffset + i < (responseBytes data).length := by
    rw [length_responseBytes]
    omega
  rw [getResponseByte, hpos, if_neg (by simp only [hle, false_or]; omega),
    ht.get_of_lt _ (by rw [List.length_append]; omega), List.getD_append _ _ _ _ hlt,
    responseBytes, responseOffset, Nat.add_comm, List.getD_cons_succ, List.getD_eq_getElem _ _ hi]

end Telegram

namespace SendCommand

variable (qq zz : Byte) (command : BitVec 16) {data : List Byte}

/-- The request of a new command, before its CRC is pushed. -/
def unsealed (data : List Byte) : TelegramBase :=
  (requestBytes qq zz command data).foldl TelegramBase.pushReqData { state := .waitForSend }

theorem new_eq (data : List Byte) : (new qq zz command data).toTelegramBase =
    (unsealed qq zz command data).pushReqData (unsealed qq zz command data).request.crc := by
  simp only [new, unsealed, requestBytes, List.cons_append, List.nil_append, List.foldl_cons]

/-- A new command waits to be sent. -/
theorem new_state (data : List Byte) : (new qq zz command data).state = .waitForSend := by
  rw [new_eq, TelegramBase.pushReqData_state, unsealed, TelegramBase.foldl_pushReqData_state]

/-- **The constructor stores the request and its checksum.** -/
theorem holds_new (h : data.length < maxDataLength) :
    (new qq zz command data).request.Holds offsetData [esc, esc]
      (withCrc (requestBytes qq zz command data)) := by
  have hc := complete_request qq zz command h (crc8From 0 (requestBytes qq zz command data))
  have hg : Growing offsetData (requestBytes qq zz command data) :=
    growing_of_complete offsetData_pos hc (by simp)
  have h0 : ({ state := .waitForSend } : TelegramBase).request.Holds offsetData [esc, esc] [] :=
    RollingBuffer.holds_fresh _ (by decide)
  have hall : (unsealed qq zz command data).request.Holds offsetData [esc, esc]
      (requestBytes qq zz command data) :=
    TelegramBase.holds_foldl_pushReqData (requestBytes qq zz command data) _ h0 hc
  rw [new_eq, withCrc, ← hall.crc_of_growing hg]
  exact TelegramBase.holds_pushReqData hall hg _

variable (h : data.length < maxDataLength)

include h

theorem getCrc_new :
    (new qq zz command data).getCrc = crc8From 0 (requestBytes qq zz command data) := by
  have hb := holds_new qq zz command h
  have hlen : offsetData + announced offsetData (withCrc (requestBytes qq zz command data)) =
      (requestBytes qq zz command data).length := by
    have hc : (withCrc (requestBytes qq zz command data)).length = _ :=
      complete_request qq zz command h _
    rw [withCrc, List.length_append, List.length_singleton] at hc
    rw [withCrc]
    omega
  rw [getCrc, hb.crc_eq, hlen, withCrc, List.take_left]

theorem getQq_new : (new qq zz command data).getQq = qq :=
  TelegramBase.getQq_of_stored (holds_new qq zz command h)

theorem getZz_new : (new qq zz command data).getZz = zz :=
  TelegramBase.getZz_of_stored (holds_new qq zz command h)

theorem getNn_new : (new qq zz command data).getNn = BitVec.ofNat 8 data.length := by
  apply BitVec.eq_of_toNat_eq
  rw [TelegramBase.getNn_of_stored (holds_new qq zz command h) h,
    toNat_byte (Nat.lt_trans h (by decide))]

end SendCommand

/-! ### The wire form -/

theorem flatMap_uartSendChar (l : List Byte) : l.flatMap uartSendChar = wire.encodeAll l := by
  simp only [uartSendChar_eq_encode, encodeAll]

/-- The request of a command without QQ, in wire form, is what the winner of the arbitration sends.
-/
theorem uartSendRemainingRequestPart_new (qq zz : Byte) (command : BitVec 16) {data : List Byte}
    (h : data.length < maxDataLength) :
    uartSendRemainingRequestPart (.new qq zz command data) =
      wire.encodeAll (withCrc (requestBytes qq zz command data)).tail := by
  have hb := SendCommand.holds_new qq zz command h
  have hmap : (List.range (SendCommand.new qq zz command data).getNn.toNat).map
      (fun i => BitVec.ofInt 8 ((SendCommand.new qq zz command data).getRequestByte
        (BitVec.ofNat 8 i))) = data := by
    apply map_range_eq (TelegramBase.getNn_of_stored hb h).symm
    intro i hi
    rw [TelegramBase.getNn_of_stored hb h] at hi
    rw [TelegramBase.getRequestByte_of_stored hb h hi, List.getD_eq_getElem _ _ hi,
      BitVec.ofInt_natCast, BitVec.ofNat_toNat, BitVec.setWidth_eq]
  have hdata := List.flatMap_map
    (fun i => BitVec.ofInt 8 ((SendCommand.new qq zz command data).getRequestByte
      (BitVec.ofNat 8 i)))
    uartSendChar (List.range (SendCommand.new qq zz command data).getNn.toNat)
  rw [hmap, flatMap_uartSendChar] at hdata
  rw [uartSendRemainingRequestPart, ← hdata, TelegramBase.getPb_of_stored hb,
    TelegramBase.getSb_of_stored hb, SendCommand.getZz_new _ _ _ h, SendCommand.getNn_new _ _ _ h,
    SendCommand.getCrc_new _ _ _ h]
  simp [withCrc, requestBytes, uartSendChar_eq_encode, encodeAll_append]

@[simp] theorem encode_ack : wire.encode ack = [ack] := rfl

namespace Message

variable (m : Message)

/-- The request of the message with its CRC. -/
def request : List Byte := withCrc (requestBytes m.qq m.zz m.command m.data)

/-- The values the wire form is made of after the request. -/
def reaction : List Byte :=
  match m.sendCommand.getType with
  | .broadcast => []
  | .primarySecondary => ack :: withCrc (responseBytes m.response) ++ [ack]
  | _ => [ack]

/-- **The wire form is an encoded list of values.** -/
theorem wireForm_eq : m.wireForm = wire.encodeAll (m.request ++ m.reaction) := by
  have hcrc : m.sendCommand.getCrc = crc8From 0 (requestBytes m.qq m.zz m.command m.data) :=
    SendCommand.getCrc_new m.qq m.zz m.command m.data_length
  rw [wireForm, hcrc, encodeAll_append, flatMap_uartSendChar, reactionForm, reaction, request,
    withCrc]
  congr 1
  split
  · rfl
  · rw [flatMap_uartSendChar]
    simp
  · rfl

theorem getType_sendCommand : m.sendCommand.getType =
    if m.zz = broadcastAddress then .broadcast
    else if isPrimary m.zz then .primaryPrimary else .primarySecondary := by
  have hzz : m.sendCommand.getZz = m.zz := SendCommand.getZz_new _ _ _ m.data_length
  rw [TelegramBase.getType, hzz, if_neg m.zz_ne_esc]

end Message

/-! ### Telegrams that carry a message -/

theorem checked_withCrc {h : ℕ} {l : List Byte} (hc : Complete h (withCrc l)) :
    Checked h (withCrc l) := (checked_concat_iff hc).mpr rfl

/-- A completed telegram that holds the frames of a message carries it. -/
theorem carries_of_holds {t : Telegram} {m : Message} {rs : List Byte}
    (hs : t.state = .endCompleted)
    (ht : t.Holds m.request rs)
    (hr : t.getType = .primarySecondary → rs = withCrc (responseBytes m.response)) :
    Carries t m where
  completed := hs
  qq := TelegramBase.getQq_of_stored ht.request
  zz := TelegramBase.getZz_of_stored ht.request
  command := TelegramBase.getCommand_of_stored ht.request
  nn := TelegramBase.getNn_of_stored ht.request m.data_length
  data _ h := TelegramBase.getRequestByte_of_stored ht.request m.data_length h
  requestValid := by
    have hc : Complete offsetData m.request := complete_request _ _ _ m.data_length _
    exact (ht.isRequestValid_iff (.inr hs)).mpr ⟨hc, checked_withCrc hc⟩
  responseNn hps := by
    have hb := ht.response
    rw [hr hps] at hb
    exact Telegram.getResponseNn_of_stored hb m.response_length
  response hps _ h := by
    have hb := ht.response
    rw [hr hps] at hb
    exact Telegram.getResponseByte_of_stored hb m.response_length h
  responseValid hps := by
    have hc : Complete responseOffset (withCrc (responseBytes m.response)) :=
      complete_response m.response_length _
    refine (ht.isResponseValid_iff (.inr hs)).mpr ?_
    rw [hr hps]
    exact ⟨hc, checked_withCrc hc⟩

end EsphomeEbus
