import EsphomeEbus.Component
import EsphomeEbus.Item
import Mathlib.Algebra.BigOperators.Ring.Finset

/-!
# Sensors: `EbusSensor`

A sensor publishes a number that it reads off the response of a telegram.  Nothing on the way asks
whether the response has the bytes, or whether there is a response: `get_response_byte` answers the
checksum for the byte behind the data and 0xFF for every other one that is not there.

* `processReceived`: the source; `expected`: what a sensor is for;
* `publishes_expected_iff`: the two agree on every telegram that is not the sensor's, or has the
  bytes.
-/

namespace EsphomeEbus

open Elf

/-! ### The data of a response -/

namespace Telegram

variable (t : Telegram)

/-- The telegram was answered: it is completed, and went from a primary to a secondary. -/
def HasResponse : Prop := t.state = .endCompleted ∧ t.getType = .primarySecondary

instance : Decidable t.HasResponse := inferInstanceAs (Decidable (_ ∧ _))

/-- The data of the response: as many cells behind its length as `get_response_nn` says. -/
def responseData : List Byte :=
  (List.range t.getResponseNn.toNat).map fun i => t.response.get (responseOffset + i)

@[simp] theorem length_responseData : t.responseData.length = t.getResponseNn.toNat := by
  simp [responseData]

/-- `get_response_byte` of a byte of the data. -/
theorem getResponseByte_eq {start : Byte} {k : ℕ}
    (hk : start.toNat + k < t.getResponseNn.toNat) :
    t.getResponseByte (start + BitVec.ofNat 8 k) =
      (t.responseData.getD (start.toNat + k) 0).toNat := by
  have hnn : t.getResponseNn.toNat < maxDataLength := clipNn_lt _
  have hlt : start.toNat + k < 16 := Nat.lt_trans hk hnn
  have hpos : (start + BitVec.ofNat 8 k).toNat = start.toNat + k := by
    rw [BitVec.toNat_add, toNat_byte (by omega)]
    exact Nat.mod_eq_of_lt (by omega)
  have hcell : t.responseData.getD (start.toNat + k) 0 =
      t.response.get (responseOffset + (start.toNat + k)) := by
    rw [List.getD_eq_getElem _ _ (by simpa using hk)]
    simp [responseData]
  simp only [getResponseByte, BitVec.lt_def, hpos, hcell, maxDataLength]
  rw [if_neg (by omega)]

end Telegram

/-- A number by its bytes, as a sum. -/
theorem littleEndian_eq_sum (bs : List Byte) :
    littleEndian bs = ∑ i ∈ Finset.range bs.length, (bs.getD i 0).toNat * 256 ^ i := by
  induction bs with
  | nil => rfl
  | cons b bs ih =>
    rw [littleEndian, ih, List.length_cons, Finset.sum_range_succ', Finset.mul_sum, Nat.add_comm]
    congr 1
    · apply Finset.sum_congr rfl
      intro i _
      rw [List.getD_cons_succ, Nat.pow_succ, Nat.mul_comm (256 ^ i), Nat.mul_left_comm]
    · simp

/-! ### The source -/

/-- A sensor; `F` is the type of floating point numbers. -/
structure EbusSensor (F : Type*) extends EbusItem where
  responseBytes : Byte
  responseDivider : F

namespace EbusSensor

variable {F : Type*} (divide : BitVec 32 → F → F) (s : EbusSensor F) (t : Telegram)

/-- `EbusSensor::to_float`; the division of the language is `divide`. -/
def toFloat (telegram : Telegram) (start length : Byte) (divider : F) : F :=
  divide (getResponseBytes telegram start length) divider

/-- `EbusSensor::process_received`: the value it publishes, if it publishes one. -/
def processReceived : Option F :=
  if !s.isMine t then none
  else some (toFloat divide t s.responsePosition s.responseBytes s.responseDivider)

/-! ### What a sensor is for -/

/-- The telegram has a response with all bytes that the sensor reads. -/
def Readable : Prop :=
  t.HasResponse ∧ s.responsePosition.toNat + s.responseBytes.toNat ≤ t.getResponseNn.toNat

instance : Decidable (s.Readable t) := inferInstanceAs (Decidable (_ ∧ _))

/-- The number that these bytes spell. -/
def rawValue : ℕ := ∑ i ∈ Finset.range s.responseBytes.toNat,
  (t.responseData.getD (s.responsePosition.toNat + i) 0).toNat * 256 ^ i

/-- The sensor publishes this number, divided, for a telegram of its own that has the bytes, and
nothing for any other. -/
def expected : Option F :=
  if s.isMine t ∧ s.Readable t then some (divide (BitVec.ofNat 32 (s.rawValue t)) s.responseDivider)
  else none

/-! ### Agreement -/

/-- `get_response_bytes` of bytes that are there. -/
theorem getResponseBytes_eq (hbytes : s.responseBytes.toNat ≤ 4) (h : s.Readable t) :
    (getResponseBytes t s.responsePosition s.responseBytes).toNat = s.rawValue t := by
  have hroom := h.2
  have hlen : ((t.responseData.drop s.responsePosition.toNat).take
      s.responseBytes.toNat).length = s.responseBytes.toNat := by
    rw [List.length_take, List.length_drop, Telegram.length_responseData]
    omega
  have hget : ∀ k, k < s.responseBytes.toNat →
      ((t.responseData.drop s.responsePosition.toNat).take s.responseBytes.toNat).getD k 0 =
        t.responseData.getD (s.responsePosition.toNat + k) 0 := by
    intro k hk
    rw [List.getD_eq_getElem?_getD, List.getElem?_take_of_lt hk, List.getElem?_drop,
      ← List.getD_eq_getElem?_getD]
  rw [getResponseBytes_toNat (hlen.trans (Nat.min_eq_right hbytes).symm), littleEndian_eq_sum,
    hlen, rawValue]
  · apply Finset.sum_congr rfl
    intro i hi
    rw [hget i (Finset.mem_range.mp hi)]
  · intro k hk
    have hlt : k < s.responseBytes.toNat := by rwa [hlen] at hk
    rw [t.getResponseByte_eq (by omega), ← hget k hlt, List.getD_eq_getElem _ _ hk]

/-- **A sensor publishes what the response contains**, for every telegram, if and only if the
telegram is not the sensor's or has a response with the bytes the sensor reads. -/
theorem publishes_expected_iff (hbytes : s.responseBytes.toNat ≤ 4) :
    s.processReceived divide t = s.expected divide t ↔ (s.isMine t = true → s.Readable t) := by
  unfold processReceived expected
  cases hmine : s.isMine t with
  | false => simp
  | true =>
    simp only [Bool.not_true, Bool.false_eq_true, if_false, true_and, forall_const]
    constructor
    · intro h
      by_contra hnot
      rw [if_neg hnot] at h
      cases h
    · intro h
      rw [if_pos h, toFloat, ← s.getResponseBytes_eq t hbytes h, BitVec.ofNat_toNat,
        BitVec.setWidth_eq]

/-- A node has heard the secondary 0x08 answer a request of 0x10 with the one byte 0x55. -/
def answerTaken : Telegram :=
  ((Ebus.init (defaultConfig 0x30#8)).after (quiet [0xAA#8, 0x10#8, 0x08#8, 0x07#8, 0x04#8, 0x00#8,
    0x17#8, 0x00#8, 0x01#8, 0x55#8, 0xCE#8, 0x00#8])).receivingTelegram

/-- A sensor for that request, with a divider in whole numbers. -/
def sensorOf (bytes : Byte) : EbusSensor ℕ :=
  { sendPoll := false, command := 0x0704#16, responsePosition := 0, responseBytes := bytes,
    responseDivider := 1 }

/-- A sensor of one byte publishes it. -/
theorem publishes_byte :
    (sensorOf 1).processReceived (fun raw d => raw.toNat / d) answerTaken =
        (sensorOf 1).expected (fun raw d => raw.toNat / d) answerTaken ↔
      ((sensorOf 1).isMine answerTaken = true → (sensorOf 1).Readable answerTaken) :=
  publishes_expected_iff (fun raw d => raw.toNat / d) (sensorOf 1) answerTaken (by decide)

/-- A sensor of two bytes publishes the byte and the checksum behind it. -/
theorem publishes_checksum :
    handleMessage [sensorOf 2] answerTaken = [(sensorOf 2, answerTaken)] ∧
      answerTaken.responseData = [0x55#8] ∧ answerTaken.getResponseCrc = 0xCE#8 ∧
      (sensorOf 2).processReceived (fun raw d => raw.toNat / d) answerTaken = some 0xCE55 ∧
      (sensorOf 2).expected (fun raw d => raw.toNat / d) answerTaken = none := by
  have hstate : answerTaken.state = .endCompleted := by decide +kernel
  refine ⟨?_, by decide +kernel, by decide +kernel, by decide +kernel, by decide +kernel⟩
  rw [handleMessage, if_neg (not_not.mpr hstate)]
  rfl

end EbusSensor

end EsphomeEbus
