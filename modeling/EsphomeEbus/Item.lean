import EsphomeEbus.Message

/-!
# Items: `EbusItem`

An item asks for a message and picks its own out of the telegrams of the bus.  `is_mine` compares
the configured payload with the request byte by byte, through `get_request_byte`, which takes the
checksum byte behind the data for one more byte of data.

* `isMine`: the source's test;
* `isMine_iff`: what it really looks for, a prefix of the data and the checksum;
* `matching_exact_iff`: when that is a prefix of the data.
-/

namespace EsphomeEbus

open Elf

/-- The configuration of an item; an `address` of SYN stands for none. -/
structure EbusItem where
  address : Byte := syn
  sendPoll : Bool
  command : BitVec 16
  payload : List Byte := []
  responsePosition : Byte
  deriving DecidableEq, Repr

/-! ### What a telegram has for its items -/

namespace Telegram

variable (t : Telegram)

/-- The data of the request: as many cells behind its header as `get_nn` says. -/
def requestData : List Byte :=
  (List.range t.getNn.toNat).map fun i => t.request.get (offsetData + i)

@[simp] theorem length_requestData : t.requestData.length = t.getNn.toNat := by
  simp [requestData]

/-- In a telegram that holds a whole request, these are the bytes received between its header and
its checksum. -/
theorem Holds.requestData_eq {t : Telegram} {rq rs : List Byte} (ht : t.Holds rq rs)
    (hc : Complete offsetData rq) :
    t.requestData = (rq.drop offsetData).take (announced offsetData rq) := by
  have hlen : rq.length = offsetData + announced offsetData rq + 1 := hc
  rw [requestData, ht.getNn_eq]
  apply map_range_eq
  · rw [List.length_take, List.length_drop]
    omega
  · intro i hi
    have hcell : ((rq.drop offsetData).take (announced offsetData rq)).getD i 0 =
        rq.getD (offsetData + i) 0 := by
      rw [List.getD_eq_getElem?_getD, List.getElem?_take_of_lt hi, List.getElem?_drop,
        ← List.getD_eq_getElem?_getD]
    rw [hcell, ht.request.get_of_lt _ (by omega)]

/-- `get_request_byte` knows the data and the checksum behind it. -/
theorem getRequestByte_eq {i : ℕ} (hi : i ≤ t.getNn.toNat + 1) :
    t.getRequestByte (BitVec.ofNat 8 i) =
      if i ≤ t.getNn.toNat then ((t.request.get (offsetData + i)).toNat : ℤ) else -1 := by
  have hnn : t.getNn.toNat < maxDataLength := clipNn_lt _
  unfold maxDataLength at hnn
  have hpos : (BitVec.ofNat 8 i).toNat = i := toNat_byte (by omega)
  simp only [TelegramBase.getRequestByte, BitVec.lt_def, hpos, maxDataLength]
  split
  · rw [if_neg (by omega)]
  · rw [if_pos (by omega)]

/-- Data and checksum, cell by cell. -/
theorem requestData_concat_crc : t.requestData ++ [t.getRequestCrc] =
    (List.range (t.getNn.toNat + 1)).map fun i => t.request.get (offsetData + i) := by
  rw [List.range_succ, List.map_append]
  rfl

end Telegram

/-! ### `is_mine` -/

namespace EbusItem

/-- The loop over the payload, from `i` on. -/
def payloadMatches (telegram : Telegram) : List Byte → ℕ → Bool
  | [], _ => true
  | b :: payload, i =>
    if (b.toNat : ℤ) ≠ telegram.getRequestByte (BitVec.ofNat 8 i) then false
    else payloadMatches telegram payload (i + 1)

variable (item : EbusItem) (t : Telegram)

/-- `EbusItem::is_mine`. -/
def isMine : Bool :=
  if item.address ≠ syn ∧ item.address ≠ t.getZz then false
  else if t.getCommand ≠ item.command then false
  else payloadMatches t item.payload 0

/-- The item is for every address, or for this one. -/
def ForAddress (zz : Byte) : Prop := item.address = syn ∨ item.address = zz

instance (zz : Byte) : Decidable (item.ForAddress zz) := inferInstanceAs (Decidable (_ ∨ _))

/-- The loop stops at the first byte that differs, and at the end of the checksum in any case. -/
theorem payloadMatches_iff (payload : List Byte) {i : ℕ} (hi : i ≤ t.getNn.toNat + 1) :
    payloadMatches t payload i = true ↔
      payload <+: (t.requestData ++ [t.getRequestCrc]).drop i := by
  induction payload generalizing i with
  | nil => exact iff_of_true rfl List.nil_prefix
  | cons b payload ih =>
    rw [payloadMatches, t.getRequestByte_eq hi]
    rcases Nat.lt_or_ge t.getNn.toNat i with hlt | hle
    · -- behind the checksum there is nothing
      have hend : (t.requestData ++ [t.getRequestCrc]).drop i = [] := by
        rw [List.drop_eq_nil_iff, List.length_append, Telegram.length_requestData]
        exact hlt
      rw [hend, if_neg (Nat.not_le.mpr hlt), if_pos (by omega)]
      simp
    · have hlen : i < (t.requestData ++ [t.getRequestCrc]).length := by
        rw [List.length_append, Telegram.length_requestData]
        exact Nat.lt_succ_of_le hle
      have hcell : (t.requestData ++ [t.getRequestCrc])[i] = t.request.get (offsetData + i) := by
        simp only [Telegram.requestData_concat_crc, List.getElem_map, List.getElem_range]
      rw [List.drop_eq_getElem_cons hlen, List.cons_prefix_cons, hcell, if_pos hle,
        ← ih (Nat.succ_le_succ hle)]
      by_cases hb : b = t.request.get (offsetData + i)
      · simp [hb]
      · have hne : (b.toNat : ℤ) ≠ (t.request.get (offsetData + i)).toNat := by
          intro heq
          exact hb (BitVec.eq_of_toNat_eq (Int.ofNat.inj heq))
        simp [hb, hne]

/-- **What `is_mine` looks for**: the address, the command word, and the payload at the start of the
data with its checksum. -/
theorem isMine_iff : item.isMine t = true ↔
    item.ForAddress t.getZz ∧ t.getCommand = item.command ∧
      item.payload <+: t.requestData ++ [t.getRequestCrc] := by
  have hpayload := payloadMatches_iff t item.payload (Nat.zero_le _)
  rw [List.drop_zero] at hpayload
  unfold isMine ForAddress
  by_cases haddr : item.address ≠ syn ∧ item.address ≠ t.getZz
  · rw [if_pos haddr]
    refine iff_of_false Bool.false_ne_true fun h => ?_
    exact h.1.elim haddr.1 haddr.2
  · rw [if_neg haddr]
    have hfor : item.address = syn ∨ item.address = t.getZz := by
      rwa [not_and_or, not_not, not_not] at haddr
    by_cases hcommand : t.getCommand = item.command
    · rw [if_neg (not_not.mpr hcommand), hpayload]
      exact ⟨fun h => ⟨hfor, hcommand, h⟩, fun h => h.2.2⟩
    · rw [if_pos hcommand]
      exact iff_of_false Bool.false_ne_true fun h => hcommand h.2.1

/-- The item takes the telegram exactly if address and command word match, and the payload is a
prefix of the data. -/
def MatchesExactly : Prop :=
  item.isMine t = true ↔ item.ForAddress t.getZz ∧ t.getCommand = item.command ∧
    item.payload <+: t.requestData

/-- **Matching is exact** for every telegram and every item, if and only if it is not that address
and command word match and the payload is the whole data and the checksum. -/
theorem matching_exact_iff : item.MatchesExactly t ↔
    ¬ (item.ForAddress t.getZz ∧ t.getCommand = item.command ∧
      item.payload = t.requestData ++ [t.getRequestCrc]) := by
  have hnot : ¬ t.requestData ++ [t.getRequestCrc] <+: t.requestData := by
    intro h
    have hlen := h.length_le
    rw [List.length_append, List.length_singleton] at hlen
    omega
  rw [MatchesExactly, isMine_iff, List.prefix_concat_iff]
  constructor
  · rintro h ⟨hfor, hcommand, heq⟩
    have hstart := (h.mp ⟨hfor, hcommand, .inl heq⟩).2.2
    rw [heq] at hstart
    exact hnot hstart
  · intro h
    constructor
    · rintro ⟨hfor, hcommand, heq | hstart⟩
      · exact absurd ⟨hfor, hcommand, heq⟩ h
      · exact ⟨hfor, hcommand, hstart⟩
    · rintro ⟨hfor, hcommand, hstart⟩
      exact ⟨hfor, hcommand, .inr hstart⟩

/-- A node has heard a request of 0x10 to 0x08 with the one data byte 0x12, and its acknowledge. -/
def requestTaken : Telegram :=
  ((Ebus.init (defaultConfig 0x30#8)).after
    (quiet [0xAA#8, 0x10#8, 0x08#8, 0x07#8, 0x04#8, 0x01#8, 0x12#8, 0x4C#8])).receivingTelegram

/-- An item with a payload of two bytes takes it: the second is the checksum of the request. -/
theorem takes_checksum :
    let item : EbusItem :=
      { sendPoll := false, command := 0x0704#16, payload := [0x12#8, 0x4C#8],
        responsePosition := 0 }
    requestTaken.isRequestComplete = true ∧ requestTaken.requestData = [0x12#8] ∧
      item.isMine requestTaken = true ∧ ¬ item.payload <+: requestTaken.requestData ∧
      ¬ item.MatchesExactly requestTaken := by
  refine ⟨by decide +kernel, by decide +kernel, by decide +kernel, by decide +kernel, ?_⟩
  intro h
  have hstart := (h.mp (by decide +kernel)).2.2
  revert hstart
  decide +kernel

end EbusItem

end EsphomeEbus
