import EsphomeEbus.Telegram
import Mathlib.Data.List.GetD

/-!
# Telegrams and commands as bytes in memory

A queue knows nothing of what it holds: it copies bytes, as many as it was told when it was created.
The members of `TelegramBase`, `Telegram` and `SendCommand` are of one byte each, or arrays of such,
so an object is its members in the order of the source, with nothing in between.

* `sizeofTelegram`, `sizeofSendCommand`: a command is shorter than a telegram by 19 bytes;
* `image`, `ofImage`: the bytes of an object, and the object that some bytes are;
* `ofImage_take`: whatever lies behind an object, it is read back from a copy that is long enough.
-/

namespace EsphomeEbus

def sizeofTelegramBase : ℕ := 1 + requestBufferSize + 1 + 1 + 1
def sizeofTelegram : ℕ := sizeofTelegramBase + responseBufferSize + 1 + 1
def sizeofSendCommand : ℕ := sizeofTelegramBase + 1

/-- The bytes by which a telegram is longer than a command. -/
def excess : ℕ := sizeofTelegram - sizeofSendCommand

theorem sizeofTelegram_eq : sizeofTelegram = sizeofSendCommand + excess := rfl

example : sizeofTelegram = 46 ∧ sizeofSendCommand = 27 ∧ excess = 19 := by decide

/-! ### Members -/

/-- The state as an `int8_t`. -/
def TelegramState.toByte (state : TelegramState) : Byte := BitVec.ofInt 8 state.toInt

/-- The state that an `int8_t` is, if it is one. -/
def TelegramState.ofByte (b : Byte) : TelegramState :=
  match b.toInt with
  | 1 => .waitForSyn
  | 2 => .waitForSend
  | 3 => .waitForRequestData
  | 4 => .waitForRequestAck
  | 5 => .waitForResponseData
  | 6 => .waitForResponseAck
  | 7 => .waitForArbitration
  | 8 => .waitForArbitration2nd
  | 9 => .waitForCommandAck
  | -1 => .endErrorUnexpectedSyn
  | -2 => .endErrorRequestNackReceived
  | -3 => .endErrorResponseNackReceived
  | -4 => .endErrorResponseNoAck
  | -5 => .endErrorRequestNoAck
  | -6 => .endArbitration
  | -16 => .endCompleted
  | -17 => .endSendFailed
  | _ => .unknown

@[simp] theorem TelegramState.ofByte_toByte (state : TelegramState) :
    ofByte state.toByte = state := by
  cases state <;> rfl

/-- A flag as a byte. -/
def flagByte (flag : Bool) : Byte := if flag then 1 else 0

namespace RollingBuffer

variable {size : ℕ}

/-- A buffer, with the position and the checksum behind it. -/
def image (b : RollingBuffer size) : List Byte :=
  b.buffer.toList ++ [BitVec.ofNat 8 b.pos, b.crc]

def ofImage (size : ℕ) (bytes : List Byte) : RollingBuffer size where
  buffer := Vector.ofFn fun i => bytes.getD i 0
  pos := (bytes.getD size 0).toNat
  crc := bytes.getD (size + 1) 0

@[simp] theorem length_image (b : RollingBuffer size) : b.image.length = size + 2 := by
  rw [image, List.length_append, Vector.length_toList]
  rfl

/-- A buffer is read back if its position fits a `uint8_t`. -/
theorem ofImage_image {b : RollingBuffer size} (h : b.pos < 256) (rest : List Byte) :
    ofImage size (b.image ++ rest) = b := by
  obtain ⟨buffer, pos, crc⟩ := b
  have hpos : (BitVec.ofNat 8 pos).toNat = pos := BitVec.toNat_ofNat pos 8 ▸ Nat.mod_eq_of_lt h
  have hcell : ∀ i, i < size → (buffer.toList ++ ([BitVec.ofNat 8 pos, crc] ++ rest)).getD i 0 =
      buffer.toList.getD i 0 := by
    intro i hi
    exact List.getD_append _ _ _ _ (by rw [Vector.length_toList]; exact hi)
  have hbehind : ∀ i, (buffer.toList ++ ([BitVec.ofNat 8 pos, crc] ++ rest)).getD (size + i) 0 =
      ([BitVec.ofNat 8 pos, crc] ++ rest).getD i 0 := by
    intro i
    rw [List.getD_append_right _ _ _ _ (by rw [Vector.length_toList]; omega), Vector.length_toList,
      Nat.add_sub_cancel_left]
  simp only [image, ofImage, List.append_assoc, mk.injEq]
  refine ⟨?_, ?_, ?_⟩
  · ext i hi
    rw [Vector.getElem_ofFn, hcell i hi, List.getD_eq_getElem _ _
      (by rw [Vector.length_toList]; exact hi), Vector.getElem_toList]
  · exact (congrArg BitVec.toNat (hbehind 0)).trans hpos
  · exact hbehind 1

end RollingBuffer

/-! ### Objects -/

/-- The members of `TelegramBase`, in both implementations. -/
def baseImage (state : TelegramState) (request : RollingBuffer requestBufferSize)
    (waitForEscapedChar : Bool) : List Byte :=
  state.toByte :: (request.image ++ [flagByte waitForEscapedChar])

section Base

variable (state : TelegramState) {request : RollingBuffer requestBufferSize}
  (waitForEscapedChar : Bool)

@[simp] theorem length_baseImage :
    (baseImage state request waitForEscapedChar).length = sizeofTelegramBase := by
  rw [baseImage, List.length_cons, List.length_append, RollingBuffer.length_image]
  rfl

/-- Each member is read back from its place. -/
theorem members_baseImage (h : request.pos < 256) (rest : List Byte) :
    let bytes := baseImage state request waitForEscapedChar ++ rest
    TelegramState.ofByte (bytes.getD 0 0) = state ∧
      RollingBuffer.ofImage requestBufferSize (bytes.drop 1) = request ∧
      (bytes.getD (1 + requestBufferSize + 1 + 1) 0 != 0) = waitForEscapedChar := by
  have hbytes : baseImage state request waitForEscapedChar ++ rest = state.toByte ::
      (request.image ++ ([flagByte waitForEscapedChar] ++ rest)) := by
    rw [baseImage, List.cons_append, List.append_assoc]
  have hflag : (request.image ++ ([flagByte waitForEscapedChar] ++ rest)).getD
      (requestBufferSize + 2) 0 = flagByte waitForEscapedChar := by
    rw [List.getD_append_right _ _ _ _ (by rw [RollingBuffer.length_image]),
      RollingBuffer.length_image, Nat.sub_self]
    rfl
  intro bytes
  refine ⟨?_, ?_, ?_⟩
  · rw [show bytes = _ from hbytes, List.getD_cons_zero, TelegramState.ofByte_toByte]
  · rw [show bytes = _ from hbytes, List.drop_succ_cons, List.drop_zero]
    exact RollingBuffer.ofImage_image h _
  · rw [show bytes = _ from hbytes, show 1 + requestBufferSize + 1 + 1 = requestBufferSize + 2 + 1
      from rfl, List.getD_cons_succ, hflag]
    cases waitForEscapedChar <;> rfl

end Base

namespace TelegramBase

def image (t : TelegramBase) : List Byte := baseImage t.state t.request t.waitForEscapedChar

def ofImage (bytes : List Byte) : TelegramBase where
  state := .ofByte (bytes.getD 0 0)
  request := .ofImage requestBufferSize (bytes.drop 1)
  waitForEscapedChar := bytes.getD (1 + requestBufferSize + 1 + 1) 0 != 0

theorem ofImage_image {t : TelegramBase} (h : t.request.pos < 256) (rest : List Byte) :
    ofImage (t.image ++ rest) = t := by
  obtain ⟨hstate, hrequest, hflag⟩ := members_baseImage t.state t.waitForEscapedChar h rest
  rw [ofImage, image, hstate, hrequest, hflag]

end TelegramBase

namespace Telegram

def image (t : Telegram) : List Byte := t.toTelegramBase.image ++ t.response.image

def ofImage (bytes : List Byte) : Telegram where
  toTelegramBase := .ofImage bytes
  response := .ofImage responseBufferSize (bytes.drop sizeofTelegramBase)

@[simp] theorem length_image (t : Telegram) : t.image.length = sizeofTelegram := by
  rw [image, TelegramBase.image, List.length_append, length_baseImage, RollingBuffer.length_image]
  rfl

/-- **A telegram is read back** from an item of its size. -/
theorem ofImage_take {t : Telegram} (h : t.request.pos < 256) (h' : t.response.pos < 256) :
    ofImage (t.image.take sizeofTelegram) = t := by
  have hbase := TelegramBase.ofImage_image h t.response.image
  have hresponse := RollingBuffer.ofImage_image h' []
  rw [List.append_nil] at hresponse
  rw [List.take_of_length_le (Nat.le_of_eq t.length_image), image, ofImage, hbase,
    TelegramBase.image, List.drop_left' (length_baseImage _ _), hresponse]

end Telegram

namespace SendCommand

def image (c : SendCommand) : List Byte := c.toTelegramBase.image ++ [c.triesCount]

def ofImage (bytes : List Byte) : SendCommand where
  toTelegramBase := .ofImage bytes
  triesCount := bytes.getD sizeofTelegramBase 0

@[simp] theorem length_image (c : SendCommand) : c.image.length = sizeofSendCommand := by
  rw [image, TelegramBase.image, List.length_append, length_baseImage]
  rfl

theorem ofImage_image {c : SendCommand} (h : c.request.pos < 256) (rest : List Byte) :
    ofImage (c.image ++ rest) = c := by
  have hbase := TelegramBase.ofImage_image h ([c.triesCount] ++ rest)
  have htries : (c.toTelegramBase.image ++ ([c.triesCount] ++ rest)).getD sizeofTelegramBase 0 =
      c.triesCount := by
    rw [TelegramBase.image, List.getD_append_right _ _ _ _ (by rw [length_baseImage]),
      length_baseImage, Nat.sub_self]
    rfl
  rw [image, List.append_assoc, ofImage, hbase, htries]

/-- **A command is read back** from an item of the size of a telegram. -/
theorem ofImage_take {c : SendCommand} (h : c.request.pos < 256) (behind : Vector Byte excess) :
    ofImage ((c.image ++ behind.toList).take sizeofTelegram) = c := by
  have hlen : (c.image ++ behind.toList).length = sizeofTelegram := by
    rw [List.length_append, length_image, Vector.length_toList]
    rfl
  rw [List.take_of_length_le (Nat.le_of_eq hlen)]
  exact ofImage_image h _

end SendCommand

end EsphomeEbus
