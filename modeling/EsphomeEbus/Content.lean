import EsphomeEbus.Ebus
import Mathlib.Data.List.GetD
import Mathlib.Tactic.SplitIfs

/-!
# What the buffers of a telegram hold

Both buffers of a telegram are filled the same way: a header whose last byte announces a number of
data bytes, the data, a checksum.  With `h` the length of the header (5 for the request, 1 for the
response), this file says in terms of the list of bytes pushed so far what the buffer, its position
and its rolling checksum are.

* `announced`, `Growing`, `Complete`, `Checked`: a list of bytes read as such a frame;
* `RollingBuffer.Holds`: the buffer holds exactly the bytes pushed; `holds_pushBuffer` keeps it;
* `Telegram.Holds`: the same for both buffers of a telegram, with what the getters and the
  completeness predicates of the source then answer.
-/

namespace EsphomeEbus

open Elf

/-! ### Frames as lists of bytes -/

/-- The number of data bytes announced by the last byte of a header of `h` bytes, as the source
reads it; zero while the header is not there. -/
def announced (h : ℕ) (l : List Byte) : ℕ := (clipNn (l.getD (h - 1) 0)).toNat

/-- The frame still takes a byte. -/
def Growing (h : ℕ) (l : List Byte) : Prop := l.length < h + announced h l + 1

/-- Header, announced data and checksum are there, and nothing more. -/
def Complete (h : ℕ) (l : List Byte) : Prop := l.length = h + announced h l + 1

/-- The checksum byte is the checksum of the bytes before it. -/
def Checked (h : ℕ) (l : List Byte) : Prop :=
  l.getD (h + announced h l) 0 = crc8From 0 (l.take (h + announced h l))

instance (h : ℕ) (l : List Byte) : Decidable (Growing h l) :=
  inferInstanceAs (Decidable (l.length < h + announced h l + 1))

instance (h : ℕ) (l : List Byte) : Decidable (Complete h l) :=
  inferInstanceAs (Decidable (l.length = h + announced h l + 1))

instance (h : ℕ) (l : List Byte) : Decidable (Checked h l) :=
  inferInstanceAs (Decidable
    (l.getD (h + announced h l) 0 = crc8From 0 (l.take (h + announced h l))))

theorem offsetData_pos : 0 < offsetData := by decide

theorem responseOffset_pos : 0 < responseOffset := by decide

theorem clipNn_lt (nn : Byte) : (clipNn nn).toNat < maxDataLength := by
  unfold clipNn maxDataLength
  split
  · decide
  · omega

theorem announced_lt (h : ℕ) (l : List Byte) : announced h l < maxDataLength := clipNn_lt _

theorem announced_append {h : ℕ} (hh : 0 < h) {l : List Byte} (hl : h ≤ l.length) (m : List Byte) :
    announced h (l ++ m) = announced h l := by
  unfold announced
  rw [List.getD_append _ _ _ _ (by omega)]

theorem growing_nil {h : ℕ} : Growing h [] := by
  show 0 < h + announced h [] + 1
  exact Nat.succ_pos _

/-- One more byte, and the frame is complete or still growing. -/
theorem growing_concat {h : ℕ} (hh : 0 < h) {l : List Byte} (hg : Growing h l) (x : Byte) :
    Growing h (l ++ [x]) ∨ Complete h (l ++ [x]) := by
  unfold Growing Complete at *
  rw [List.length_append, List.length_singleton]
  rcases Nat.lt_or_ge l.length h with hl | hl
  · left
    omega
  · rw [announced_append hh hl]
    omega

/-- A frame is still growing before each of its bytes. -/
theorem growing_of_complete {h : ℕ} (hh : 0 < h) {l m : List Byte} (hc : Complete h (l ++ m))
    (hm : m ≠ []) : Growing h l := by
  unfold Growing
  unfold Complete at hc
  have hpos : 0 < m.length := List.length_pos_iff.mpr hm
  rw [List.length_append] at hc
  rcases Nat.lt_or_ge l.length h with hl | hl
  · omega
  · rw [announced_append hh hl] at hc
    omega

theorem not_complete_of_growing {h : ℕ} {l : List Byte} (hg : Growing h l) : ¬ Complete h l :=
  Nat.ne_of_lt hg

/-- The length of a frame that lacks only its checksum byte. -/
theorem length_of_complete_concat {h : ℕ} (hh : 0 < h) {l : List Byte} {v : Byte}
    (hc : Complete h (l ++ [v])) : l.length = h + announced h l := by
  have hc' : (l ++ [v]).length = _ := hc
  rw [List.length_append, List.length_singleton] at hc'
  rw [← announced_append hh (l := l) (by omega) [v]]
  omega

/-- A header with the data it announces and any checksum is complete. -/
theorem complete_concat {h : ℕ} (hh : 0 < h) {l : List Byte} (hl : l.length = h + announced h l)
    (crc : Byte) : Complete h (l ++ [crc]) := by
  have hle : h ≤ l.length := by omega
  show (l ++ [crc]).length = h + announced h (l ++ [crc]) + 1
  rw [announced_append hh hle, List.length_append, ← hl]
  rfl

/-- The byte that completes a frame is checked against the checksum of everything before it. -/
theorem checked_concat_iff {h : ℕ} {l : List Byte} {v : Byte}
    (hc : Complete h (l ++ [v])) : Checked h (l ++ [v]) ↔ v = crc8From 0 l := by
  have hlen : l.length = h + announced h (l ++ [v]) := by
    have hc' : (l ++ [v]).length = _ := hc
    rw [List.length_append, List.length_singleton] at hc'
    omega
  simp only [Checked, ← hlen]
  rw [List.take_left, List.getD_append_right _ _ _ _ (Nat.le_refl _), Nat.sub_self]
  exact Iff.rfl

/-- A list read out cell by cell. -/
theorem map_range_eq {l : List Byte} {f : ℕ → Byte} {n : ℕ} (hl : l.length = n)
    (hf : ∀ i, i < n → f i = l.getD i 0) : (List.range n).map f = l := by
  apply List.ext_getElem
  · simp [hl]
  · intro i h1 h2
    rw [List.getElem_map, List.getElem_range, hf i (by omega), List.getD_eq_getElem _ _ h2]

/-! ### Buffers -/

namespace RollingBuffer

variable {size : ℕ}

/-- The buffer, started from `initializer`, holds exactly the bytes of `l` of a frame with a header
of `h` bytes. -/
structure Holds (h : ℕ) (initializer : List Byte) (b : RollingBuffer size) (l : List Byte) :
    Prop where
  pos_eq : b.pos = l.length
  get_of_lt : ∀ i, i < l.length → b.get i = l.getD i 0
  get_of_ge : ∀ i, l.length ≤ i → b.get i = initializer.getD i 0
  crc_eq : b.crc = crc8From 0 (l.take (h + announced h l))

theorem get_fresh {initializer : List Byte} (hi : initializer.length ≤ size) (i : ℕ) :
    (fresh initializer : RollingBuffer size).get i = initializer.getD i 0 := by
  unfold get fresh
  rw [Vector.toList_ofFn]
  rcases Nat.lt_or_ge i size with h | h
  · simp [List.getD_eq_getElem?_getD, h]
  · rw [List.getD_eq_default _ _ (by simpa using h), List.getD_eq_default _ _ (by omega)]

theorem holds_fresh (h : ℕ) {initializer : List Byte} (hi : initializer.length ≤ size) :
    Holds h initializer (fresh initializer : RollingBuffer size) [] where
  pos_eq := rfl
  get_of_lt i hlt := absurd hlt (Nat.not_lt_zero i)
  get_of_ge i _ := get_fresh hi i
  crc_eq := by rw [List.take_nil]; rfl

/-- Until the checksum byte arrives, the rolling checksum covers everything. -/
theorem Holds.crc_of_growing {h : ℕ} {initializer : List Byte} {b : RollingBuffer size}
    {l : List Byte} (hb : Holds h initializer b l) (hg : Growing h l) : b.crc = crc8From 0 l := by
  have hg' : l.length < _ := hg
  rw [hb.crc_eq, List.take_of_length_le (by omega)]

theorem get_pushBuffer (x : Byte) (b : RollingBuffer size) (m i : ℕ) (hpos : b.pos < size) :
    (pushBuffer x b m).get i = if i = b.pos then x else b.get i := by
  simp only [get, pushBuffer, Vector.toList_setIfInBounds, List.getD_eq_getElem?_getD,
    List.getElem?_set, Vector.length_toList]
  split_ifs with h1 h2 <;> first | rfl | omega

variable {h : ℕ} {initializer : List Byte} {b : RollingBuffer size} {l : List Byte}

/-- The length byte the source reads is the one announced, also before it has arrived. -/
theorem Holds.announced_eq (hb : Holds h initializer b l) (hi : initializer.getD (h - 1) 0 = 0) :
    (clipNn (b.get (h - 1))).toNat = announced h l := by
  unfold announced
  rcases Nat.lt_or_ge (h - 1) l.length with hl | hl
  · rw [hb.get_of_lt _ hl]
  · rw [hb.get_of_ge _ hl, hi, List.getD_eq_default _ _ hl]

/-- **A push appends a byte.**  `push_buffer_`, called with the limit the source computes, keeps the
description of the buffer as long as the frame takes a byte. -/
theorem holds_pushBuffer (hb : Holds h initializer b l) (hh : 0 < h)
    (hi : initializer.getD (h - 1) 0 = 0) (hsize : h + maxDataLength ≤ size) (hg : Growing h l)
    (x : Byte) :
    Holds h initializer (pushBuffer x b (h + (clipNn (b.get (h - 1))).toNat)) (l ++ [x]) := by
  have hroom : b.pos < size := by
    have := announced_lt h l
    rw [hb.pos_eq]
    unfold Growing at hg
    omega
  have hget := fun m i => get_pushBuffer x b m i hroom
  rw [hb.announced_eq hi]
  refine ⟨?_, ?_, ?_, ?_⟩
  · simp [pushBuffer, hb.pos_eq]
  · intro i hlt
    rw [hget, hb.pos_eq]
    rw [List.length_append, List.length_singleton] at hlt
    split
    · rename_i heq
      subst heq
      simp [List.getD_eq_getElem?_getD]
    · rw [hb.get_of_lt i (by omega), List.getD_append _ _ _ _ (by omega)]
  · intro i hge
    rw [List.length_append, List.length_singleton] at hge
    rw [hget, hb.pos_eq, if_neg (by omega), hb.get_of_ge i (by omega)]
  · simp only [pushBuffer, hb.pos_eq, hb.crc_eq]
    unfold Growing at hg
    rcases Nat.lt_or_ge l.length h with hl | hl
    · -- inside the header: everything so far is in the checksum
      rw [if_pos (by omega), List.take_of_length_le (by omega), List.take_of_length_le
        (by rw [List.length_append, List.length_singleton]; omega), crc8From_append]
      rfl
    · rw [announced_append hh hl]
      rcases Nat.lt_or_ge l.length (h + announced h l) with hd | hd
      · rw [if_pos hd, List.take_of_length_le (by omega), List.take_of_length_le
          (by rw [List.length_append, List.length_singleton]; omega), crc8From_append]
        rfl
      · -- the checksum byte itself is left out
        rw [if_neg (by omega), List.take_append_of_le_length hd]

end RollingBuffer

/-! ### What the state and the address say about a telegram -/

namespace TelegramBase

theorem isFinished_of_state {t : TelegramBase} {state : TelegramState} (hs : t.state = state)
    (h : 0 ≤ state.toInt) : t.isFinished = false := by
  rw [isFinished, hs]
  exact decide_eq_false (Int.not_lt.mpr h)

theorem isFinished_of_end {t : TelegramBase} {state : TelegramState} (hs : t.state = state)
    (h : state.toInt < 0) : t.isFinished = true := by
  rw [isFinished, hs]
  exact decide_eq_true h

theorem getType_eq_broadcast_iff (t : TelegramBase) :
    t.getType = .broadcast ↔ t.getZz = broadcastAddress := by
  have hne : esc ≠ broadcastAddress := by decide
  rw [TelegramBase.getType]
  by_cases h1 : t.getZz = esc
  · simp [h1, hne]
  · by_cases h2 : t.getZz = broadcastAddress
    · simp [h2, hne.symm]
    · rw [if_neg h1, if_neg h2]
      split <;> simp [h2]

theorem isAckExpected_eq_false_iff (t : TelegramBase) :
    t.isAckExpected = false ↔ t.getZz = broadcastAddress := by
  rw [TelegramBase.isAckExpected, bne_eq_false_iff_eq, getType_eq_broadcast_iff]

theorem isAckExpected_iff (t : TelegramBase) :
    t.isAckExpected = true ↔ t.getZz ≠ broadcastAddress := by
  rw [ne_eq, ← isAckExpected_eq_false_iff, Bool.not_eq_false]

theorem isResponseExpected_iff (t : TelegramBase) :
    t.isResponseExpected = true ↔ t.getType = .primarySecondary := beq_iff_eq

theorem ackExpected_of_responseExpected {t : TelegramBase} (h : t.isResponseExpected = true) :
    t.getZz ≠ broadcastAddress := by
  rw [isResponseExpected_iff] at h
  rw [ne_eq, ← getType_eq_broadcast_iff, h]
  decide

end TelegramBase

/-! ### Telegrams -/

namespace Telegram

/-- The telegram has received exactly `rq` of its request and `rs` of its response. -/
structure Holds (t : Telegram) (rq rs : List Byte) : Prop where
  request : t.request.Holds offsetData [esc, esc] rq
  response : t.response.Holds responseOffset [] rs
  notEscaped : t.waitForEscapedChar = false

theorem holds_new : new.Holds [] [] where
  request := RollingBuffer.holds_fresh _ (by decide)
  response := RollingBuffer.holds_fresh _ (by decide)
  notEscaped := rfl

variable {t : Telegram} {rq rs : List Byte}

theorem Holds.setState (ht : t.Holds rq rs) (newState : TelegramState) :
    (t.setState newState).Holds rq rs := ⟨ht.request, ht.response, ht.notEscaped⟩

theorem Holds.pushReqData (ht : t.Holds rq rs) (hg : Growing offsetData rq) (x : Byte) :
    (t.pushReqData x).Holds (rq ++ [x]) rs where
  request := RollingBuffer.holds_pushBuffer ht.request offsetData_pos rfl (by decide) hg x
  response := ht.response
  notEscaped := ht.notEscaped

theorem Holds.pushResponseData (ht : t.Holds rq rs) (hg : Growing responseOffset rs) (x : Byte) :
    (t.pushResponseData x).Holds rq (rs ++ [x]) where
  request := ht.request
  response := RollingBuffer.holds_pushBuffer ht.response responseOffset_pos rfl (by decide) hg x
  notEscaped := ht.notEscaped

theorem Holds.getNn_eq (ht : t.Holds rq rs) : t.getNn.toNat = announced offsetData rq :=
  ht.request.announced_eq rfl

theorem Holds.getResponseNn_eq (ht : t.Holds rq rs) :
    t.getResponseNn.toNat = announced responseOffset rs := ht.response.announced_eq rfl

theorem Holds.getZz_eq (ht : t.Holds rq rs) (h : 2 ≤ rq.length) : t.getZz = rq.getD 1 0 :=
  ht.request.get_of_lt 1 h

/-- A telegram under reception or completed: the states in which the completeness predicates can
hold. -/
def Underway (t : Telegram) : Prop :=
  t.state.toInt > TelegramState.waitForSyn.toInt ∨ t.state = .endCompleted

theorem Holds.isRequestComplete_iff (ht : t.Holds rq rs) (hu : t.Underway) :
    t.isRequestComplete = true ↔ Complete offsetData rq := by
  unfold isRequestComplete Complete
  simp only [Bool.and_eq_true, Bool.or_eq_true, decide_eq_true_eq, ht.getNn_eq, ht.request.pos_eq,
    ht.notEscaped, Bool.not_false, and_true]
  unfold Underway at hu
  constructor
  · exact fun h => h.2
  · exact fun h => ⟨⟨hu, by omega⟩, h⟩

theorem Holds.isResponseComplete_iff (ht : t.Holds rq rs) (hu : t.Underway) :
    t.isResponseComplete = true ↔ Complete responseOffset rs := by
  unfold isResponseComplete Complete
  simp only [Bool.and_eq_true, Bool.or_eq_true, decide_eq_true_eq, ht.getResponseNn_eq,
    ht.response.pos_eq, ht.notEscaped, Bool.not_false, and_true]
  unfold Underway at hu
  constructor
  · exact fun h => h.2
  · exact fun h => ⟨⟨hu, by omega⟩, h⟩

theorem Holds.isRequestValid_iff (ht : t.Holds rq rs) (hu : t.Underway) :
    t.isRequestValid = true ↔ Complete offsetData rq ∧ Checked offsetData rq := by
  unfold isRequestValid
  rw [Bool.and_eq_true, ht.isRequestComplete_iff hu, decide_eq_true_eq]
  refine and_congr_right fun hc => ?_
  unfold Complete at hc
  unfold TelegramBase.getRequestCrc Checked
  rw [ht.getNn_eq, ht.request.get_of_lt _ (by omega), ht.request.crc_eq]

theorem Holds.isResponseValid_iff (ht : t.Holds rq rs) (hu : t.Underway) :
    t.isResponseValid = true ↔ Complete responseOffset rs ∧ Checked responseOffset rs := by
  unfold isResponseValid
  rw [Bool.and_eq_true, ht.isResponseComplete_iff hu, decide_eq_true_eq]
  refine and_congr_right fun hc => ?_
  unfold Complete at hc
  unfold getResponseCrc Checked
  rw [ht.getResponseNn_eq, ht.response.get_of_lt _ (by omega), ht.response.crc_eq]

end Telegram

end EsphomeEbus
