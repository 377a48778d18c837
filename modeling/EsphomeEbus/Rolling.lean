import EsphomeEbus.Bounds

/-!
# The checksum that rolls along

`push_buffer_` folds a byte into the checksum if its position is before a limit, and the limit is
computed before every push from the length cell of the buffer, which is zero until it is written.
This file compares the result with `crc8_array`, the checksum of a finished buffer.

* `pos_pushed`, `get_pushed`: position and cells after any number of pushes, also past the end;
* `InPlace`: the position test of the completeness predicates, which a complete frame passes and
  nothing else does (`inPlace_iff`);
* `crc_of_complete`: what the checksum is then; `incremental_eq_batch`: for request and response.
-/

namespace EsphomeEbus

open Elf

/-- No part of a complete frame is one. -/
theorem not_complete_of_prefix {h : ℕ} (hh : 0 < h) {l m : List Byte} (hc : Complete h l)
    (hm : m <+: l) (hne : m ≠ l) : ¬ Complete h m := by
  obtain ⟨rest, rfl⟩ := hm
  refine not_complete_of_growing (growing_of_complete hh hc ?_)
  rintro rfl
  exact hne (List.append_nil m).symm

namespace RollingBuffer

variable {size h : ℕ} {initializer l m : List Byte}

/-! ### Any number of pushes -/

/-- A push with the limit that the length cell gives at this moment. -/
def pushRolling (h : ℕ) (b : RollingBuffer size) (x : Byte) : RollingBuffer size :=
  pushBuffer x b (h + b.announces h)

/-- A fresh buffer after a list of pushes. -/
def pushed (h : ℕ) (initializer l : List Byte) : RollingBuffer size :=
  l.foldl (pushRolling h) (fresh initializer)

theorem pushed_concat (l : List Byte) (x : Byte) :
    (pushed h initializer (l ++ [x]) : RollingBuffer size) =
      pushRolling h (pushed h initializer l) x := by
  rw [pushed, List.foldl_append]
  rfl

theorem pos_pushed (l : List Byte) :
    (pushed h initializer l : RollingBuffer size).pos = l.length := by
  induction l using List.reverseRecOn with
  | nil => rfl
  | append_singleton l x ih =>
    rw [pushed_concat, List.length_append, ← ih]
    rfl

/-- A cell that exists, after a push: the one at the position is written. -/
theorem get_pushBuffer_of_lt (x : Byte) (b : RollingBuffer size) (maxPos : ℕ) {i : ℕ}
    (hi : i < size) : (pushBuffer x b maxPos).get i = if i = b.pos then x else b.get i := by
  rcases Nat.lt_or_ge b.pos size with hpos | hpos
  · exact get_pushBuffer x b maxPos i hpos
  · have hne : b.pos ≠ i := by omega
    rw [if_neg hne.symm]
    simp only [get, pushBuffer, Vector.toList_setIfInBounds, List.getD_eq_getElem?_getD,
      List.getElem?_set_ne hne]

/-- The cells of the buffer are the bytes pushed, and behind them what they started as. -/
theorem get_pushed (hlen : initializer.length ≤ size) (l : List Byte) {i : ℕ} (hi : i < size) :
    (pushed h initializer l : RollingBuffer size).get i =
      if i < l.length then l.getD i 0 else initializer.getD i 0 := by
  induction l using List.reverseRecOn with
  | nil =>
    rw [List.length_nil, if_neg (Nat.not_lt_zero i)]
    exact get_fresh hlen i
  | append_singleton l x ih =>
    rw [pushed_concat, pushRolling, get_pushBuffer_of_lt _ _ _ hi, pos_pushed, ih,
      List.length_append, List.length_singleton]
    rcases Nat.lt_trichotomy i l.length with hlt | rfl | hgt
    · rw [if_neg (by omega), if_pos hlt, if_pos (by omega), List.getD_append _ _ _ _ hlt]
    · rw [if_pos rfl, if_pos (by omega), List.getD_append_right _ _ _ _ (Nat.le_refl _),
        Nat.sub_self]
      rfl
    · rw [if_neg (by omega), if_neg (by omega), if_neg (by omega)]

/-! ### The position test -/

/-- The position test of the completeness predicates. -/
def InPlace (h : ℕ) (b : RollingBuffer size) : Prop := h < b.pos ∧ b.pos = h + b.announces h + 1

instance (h : ℕ) (b : RollingBuffer size) : Decidable (b.InPlace h) :=
  inferInstanceAs (Decidable (_ ∧ _))

/-- The buffers of a telegram: a header with a length cell that starts as zero, and room for the
data. -/
structure Shape (size h : ℕ) (initializer : List Byte) : Prop where
  header : 0 < h
  zero : initializer.getD (h - 1) 0 = 0
  initialized : initializer.length ≤ size
  room : h + maxDataLength ≤ size

variable (hs : Shape size h initializer)
include hs

theorem announces_pushed (l : List Byte) :
    (pushed h initializer l : RollingBuffer size).announces h = announced h l := by
  have hheader := hs.header
  have hroom := hs.room
  unfold announces announced
  rw [get_pushed hs.initialized l (by omega)]
  split
  · rfl
  · rename_i hge
    rw [hs.zero, List.getD_eq_default _ _ (Nat.not_lt.mp hge)]

/-- **A complete frame passes the position test**, and nothing else does, however much is pushed. -/
theorem inPlace_iff (l : List Byte) :
    (pushed h initializer l : RollingBuffer size).InPlace h ↔ Complete h l := by
  unfold InPlace Complete
  rw [pos_pushed, announces_pushed hs]
  omega

/-- Up to the end of a complete frame, a push appends a byte. -/
theorem holds_pushed (l m : List Byte) (hc : Complete h (l ++ m)) :
    Holds h initializer (pushed h initializer l : RollingBuffer size) l := by
  induction l using List.reverseRecOn generalizing m with
  | nil => exact holds_fresh h hs.initialized
  | append_singleton l x ih =>
    rw [List.append_assoc] at hc
    rw [pushed_concat]
    exact holds_pushBuffer (ih _ hc) hs.header hs.zero hs.room
      (growing_of_complete hs.header hc (by simp)) x

/-- The first cells of the buffer are the first bytes of the frame. -/
theorem take_pushed {n : ℕ} (hn : n ≤ l.length) (hsize : n ≤ size) :
    (pushed h initializer l : RollingBuffer size).buffer.toList.take n = l.take n := by
  apply List.ext_getElem
  · simp [hn, hsize]
  · intro i hi _
    rw [List.length_take, Vector.length_toList] at hi
    have hcell := get_pushed (h := h) hs.initialized l (i := i) (by omega)
    rw [if_pos (by omega), get, List.getD_eq_getElem _ _ (by rw [Vector.length_toList]; omega),
      List.getD_eq_getElem _ _ (by omega)] at hcell
    rw [List.getElem_take, List.getElem_take, hcell]

/-- **The rolling checksum of a complete frame** is the checksum of its cells up to the checksum
byte, and that byte has no part in it. -/
theorem crc_of_complete (hc : Complete h l) :
    (pushed h initializer l : RollingBuffer size).crc =
        crc8Array (pushed h initializer l : RollingBuffer size).buffer.toList (h + announced h l) ∧
      (pushed h initializer l.dropLast : RollingBuffer size).crc =
        (pushed h initializer l : RollingBuffer size).crc := by
  have hlt := announced_lt h l
  have hroom := hs.room
  have hlen : l.length = h + announced h l + 1 := hc
  have hholds := holds_pushed hs l [] (by rwa [List.append_nil])
  constructor
  · rw [hholds.crc_eq, crc8Array, take_pushed hs (by omega) (by omega)]
  · have hne : l ≠ [] := by
      rintro rfl
      cases hlen
    have hsplit : l.dropLast ++ [l.getLast hne] = l := List.dropLast_append_getLast hne
    have hbefore := holds_pushed hs l.dropLast [l.getLast hne] (by rwa [hsplit])
    have hgrowing : Growing h l.dropLast :=
      growing_of_complete hs.header (m := [l.getLast hne]) (by rwa [hsplit]) (by simp)
    rw [hbefore.crc_of_growing hgrowing, hholds.crc_eq, List.dropLast_eq_take, hlen]
    rfl

/-- The checksum byte of a complete frame is compared with the checksum of the bytes before it. -/
theorem checked_pushed (hc : Complete h l) :
    (pushed h initializer l : RollingBuffer size).get
        (h + (pushed h initializer l : RollingBuffer size).announces h) =
      (pushed h initializer l : RollingBuffer size).crc ↔ Checked h l := by
  have hlen : l.length = h + announced h l + 1 := hc
  have hholds := holds_pushed hs l [] (by rwa [List.append_nil])
  rw [announces_pushed hs, hholds.get_of_lt _ (by omega), hholds.crc_eq, Checked]

end RollingBuffer

/-! ### Request and response -/

namespace Telegram

theorem requestShape : RollingBuffer.Shape requestBufferSize offsetData [esc, esc] :=
  ⟨by decide, rfl, by decide, by decide⟩

theorem responseShape : RollingBuffer.Shape responseBufferSize responseOffset [] :=
  ⟨by decide, rfl, by decide, by decide⟩

/-- The position test of `is_request_complete`. -/
def RequestInPlace (t : Telegram) : Prop :=
  offsetData < t.request.pos ∧ t.request.pos = offsetData + t.getNn.toNat + 1

/-- The position test of `is_response_complete`. -/
def ResponseInPlace (t : Telegram) : Prop :=
  responseOffset < t.response.pos ∧ t.response.pos = responseOffset + t.getResponseNn.toNat + 1

instance (t : Telegram) : Decidable t.RequestInPlace := inferInstanceAs (Decidable (_ ∧ _))

instance (t : Telegram) : Decidable t.ResponseInPlace := inferInstanceAs (Decidable (_ ∧ _))

theorem isRequestComplete_iff_inPlace (t : Telegram) : t.isRequestComplete = true ↔
    t.Underway ∧ t.RequestInPlace ∧ t.waitForEscapedChar = false := by
  simp [isRequestComplete, Underway, RequestInPlace, and_assoc]

theorem isResponseComplete_iff_inPlace (t : Telegram) : t.isResponseComplete = true ↔
    t.Underway ∧ t.ResponseInPlace ∧ t.waitForEscapedChar = false := by
  simp [isResponseComplete, Underway, ResponseInPlace, and_assoc]

/-- A fresh telegram after a list of request bytes. -/
def requested (l : List Byte) : Telegram := l.foldl pushReqData new

/-- A fresh telegram after a list of response bytes. -/
def responded (l : List Byte) : Telegram := l.foldl pushResponseData new

theorem requested_request (l : List Byte) :
    (requested l).request = RollingBuffer.pushed offsetData [esc, esc] l := by
  induction l using List.reverseRecOn with
  | nil => rfl
  | append_singleton l x ih =>
    rw [RollingBuffer.pushed_concat, ← ih, requested, List.foldl_append]
    rfl

theorem responded_response (l : List Byte) :
    (responded l).response = RollingBuffer.pushed responseOffset [] l := by
  induction l using List.reverseRecOn with
  | nil => rfl
  | append_singleton l x ih =>
    rw [RollingBuffer.pushed_concat, ← ih, responded, List.foldl_append]
    rfl

theorem requestInPlace_iff (l : List Byte) :
    (requested l).RequestInPlace ↔ Complete offsetData l := by
  rw [← RollingBuffer.inPlace_iff requestShape, ← requested_request]
  exact Iff.rfl

theorem responseInPlace_iff (l : List Byte) :
    (responded l).ResponseInPlace ↔ Complete responseOffset l := by
  rw [← RollingBuffer.inPlace_iff responseShape, ← responded_response]
  exact Iff.rfl

theorem requested_getNn (l : List Byte) : (requested l).getNn.toNat = announced offsetData l := by
  rw [← RollingBuffer.announces_pushed requestShape l, ← requested_request]
  rfl

theorem responded_getResponseNn (l : List Byte) :
    (responded l).getResponseNn.toNat = announced responseOffset l := by
  rw [← RollingBuffer.announces_pushed responseShape l, ← responded_response]
  rfl

/-- **The incremental checksum is the batch one.**  Whatever bytes were pushed: when the position
test is passed, exactly the announced number of them were, it was not passed before, the rolling
checksum is that of the covered cells, and the last byte was not folded into it. -/
theorem incremental_eq_batch (l : List Byte) :
    ((requested l).RequestInPlace →
      l.length = offsetData + (requested l).getNn.toNat + 1 ∧
        (∀ m, m <+: l → m ≠ l → ¬ (requested m).RequestInPlace) ∧
        (requested l).request.crc = crc8Array (requested l).request.buffer.toList
          (offsetData + (requested l).getNn.toNat) ∧
        (requested l.dropLast).request.crc = (requested l).request.crc) ∧
      ((responded l).ResponseInPlace →
        l.length = responseOffset + (responded l).getResponseNn.toNat + 1 ∧
          (∀ m, m <+: l → m ≠ l → ¬ (responded m).ResponseInPlace) ∧
          (responded l).response.crc = crc8Array (responded l).response.buffer.toList
            (responseOffset + (responded l).getResponseNn.toNat) ∧
          (responded l.dropLast).response.crc = (responded l).response.crc) := by
  constructor
  · intro hplace
    have hc := (requestInPlace_iff l).mp hplace
    have hcrc := RollingBuffer.crc_of_complete requestShape hc
    rw [requested_getNn, requested_request, requested_request]
    refine ⟨hc, ?_, hcrc⟩
    intro m hm hne hplace
    exact not_complete_of_prefix offsetData_pos hc hm hne ((requestInPlace_iff m).mp hplace)
  · intro hplace
    have hc := (responseInPlace_iff l).mp hplace
    have hcrc := RollingBuffer.crc_of_complete responseShape hc
    rw [responded_getResponseNn, responded_response, responded_response]
    refine ⟨hc, ?_, hcrc⟩
    intro m hm hne hplace
    exact not_complete_of_prefix responseOffset_pos hc hm hne ((responseInPlace_iff m).mp hplace)

/-- A request with a length byte that is read as zero, and a response of one byte. -/
theorem long_nn_in_place :
    (requested [0x10#8, 0x08#8, 0x07#8, 0x04#8, 0x80#8, 0x00#8]).request.crc =
        crc8Array (requested [0x10#8, 0x08#8, 0x07#8, 0x04#8, 0x80#8, 0x00#8]).request.buffer.toList
          5 ∧
      (responded [0x01#8, 0x55#8, 0x00#8]).response.crc =
        crc8Array (responded [0x01#8, 0x55#8, 0x00#8]).response.buffer.toList 2 :=
  ⟨((incremental_eq_batch _).1 (by decide +kernel)).2.2.1,
    ((incremental_eq_batch _).2 (by decide +kernel)).2.2.1⟩

end Telegram

end EsphomeEbus
