import EsphomeEbus.Acknowledge
import EsphomeEbus.Zebus.Cells

/-!
# What a legacy receiver makes of the values on the wire

A request is a list of values, sent in their wire form, the last of them the checksum.  This file
says what a legacy receiver reports that is fed the wire form: the telegram is complete on the last
byte, each value is in its own cell, and the checksum that it computed covers all bytes up to the
one that completes the position.

* `taking`: a telegram fed with request data; `foldl_step_frame`: the receiver is in that state;
* `folded`, `crc_taking`: the bytes that the checksum covers;
* `Reports`, `reports_iff`: a request is reported exactly if its bytes are what is read back of the
  values, and the last value is read back as the checksum.
-/

namespace EsphomeEbus.Zebus

open Transducer Stuffing EsphomeEbus.Elf

/-! ### The receiver -/

theorem clipNn_readBack (v : Byte) : clipNn (readBack v) = clipNn v := by
  unfold readBack
  split
  · rename_i h
    rw [h]
    decide
  · rfl

/-- A length byte is kept, or read as zero. -/
theorem clipNn_eq_or (v : Byte) : clipNn v = v ∨ clipNn v = 0 := by
  unfold clipNn
  split
  · exact .inr rfl
  · exact .inl rfl

theorem clipNn_clipNn (v : Byte) : clipNn (clipNn v) = clipNn v :=
  if_neg (Nat.not_le.mpr (clipNn_lt v))

theorem getD_map_readBack (vs : List Byte) (i : ℕ) :
    (vs.map readBack).getD i 0 = readBack (vs.getD i 0) := List.getD_map vs 0 readBack

/-- What is read back announces as much as what was sent. -/
theorem announced_map_readBack (vs : List Byte) :
    announced offsetData (vs.map readBack) = announced offsetData vs := by
  rw [announced, getD_map_readBack, clipNn_readBack, announced]

namespace Telegram

/-- A telegram that has taken the bytes as request data. -/
def taking (l : List Byte) : Telegram :=
  { new with
    state := .waitForRequestData
    request := (pushedLegacy offsetData [esc, esc] l : RollingBuffer requestBufferSize × Bool).1
    waitForEscaped :=
      (pushedLegacy offsetData [esc, esc] l : RollingBuffer requestBufferSize × Bool).2 }

theorem taking_pushReqData (l : List Byte) (x : Byte) :
    (taking l).pushReqData x = taking (l ++ [x]) := by
  unfold taking
  rw [pushedLegacy_concat]
  rfl

theorem stores_taking (l : List Byte) : Stores [esc, esc] (cells l) (taking l).request ∧
    (taking l).waitForEscaped = (cells l).pending := stores_pushedLegacy (by decide) l

theorem getNN_taking {l : List Byte} (h : offsetData - 1 < (cells l).kept.length) :
    (taking l).getNN.toNat = announced offsetData (cells l).kept :=
  (stores_taking l).1.announces_eq offsetData_pos (by decide) h

/-- The position test, in terms of the cells. -/
theorem isRequestComplete_taking (l : List Byte) : (taking l).isRequestComplete = true ↔
    offsetData < (cells l).kept.length ∧
      (cells l).kept.length = offsetData + announced offsetData (cells l).kept + 1 ∧
      (cells l).pending = false := by
  have hcells := stores_taking l
  have hstate : (taking l).state = .waitForRequestData := rfl
  simp only [isRequestComplete, hstate, hcells.1.pos_eq, hcells.2, Bool.and_eq_true,
    decide_eq_true_eq, Bool.not_eq_true', and_assoc]
  constructor
  · intro h
    obtain ⟨-, hpos, hlen, hpending⟩ := h
    rw [getNN_taking (Nat.lt_of_le_of_lt (Nat.sub_le _ _) hpos)] at hlen
    exact ⟨hpos, hlen, hpending⟩
  · intro h
    obtain ⟨hpos, hlen, hpending⟩ := h
    rw [getNN_taking (Nat.lt_of_le_of_lt (Nat.sub_le _ _) hpos)]
    exact ⟨rfl, hpos, hlen, hpending⟩

/-- One symbol of a run. -/
def step (t : Telegram) (b : Byte) : Telegram := t.refresh.receive b

/-- No byte of a wire form is SYN. -/
theorem ne_syn_of_split {l u r : List Byte} {x : Byte} (h : wire.encodeAll l = u ++ x :: r) :
    x ≠ syn := by
  intro heq
  subst heq
  apply syn_not_mem_encodeAll l
  rw [h]
  simp

/-- One more byte of request data. -/
theorem step_taking (u : List Byte) {x : Byte} (hx : x ≠ syn) : step (taking u) x =
    if (taking (u ++ [x])).isRequestComplete then
      (taking (u ++ [x])).setState
        (if (taking (u ++ [x])).isAckExpected then .waitForRequestAck else .endCompleted)
    else taking (u ++ [x]) := by
  rw [← taking_pushReqData]
  exact if_neg hx

section Values

variable {vs : List Byte} (hvs : vs.length = offsetData + announced offsetData vs) (f : Byte)
include hvs

theorem announced_values : announced offsetData ((vs ++ [f]).map readBack) =
    announced offsetData vs := by
  rw [announced_map_readBack, announced_append offsetData_pos (by omega)]

/-- The telegram is complete when all values have been read, and not before. -/
theorem isRequestComplete_values {u r : List Byte} (h : wire.encodeAll (vs ++ [f]) = u ++ r) :
    (taking u).isRequestComplete = true ↔ r = [] := by
  have hall := cells_encodeAll (vs ++ [f])
  have hlen : (cells (wire.encodeAll (vs ++ [f]))).kept.length =
      offsetData + announced offsetData vs + 1 := by
    rw [hall.1, List.length_map, List.length_append, hvs]
    rfl
  rw [isRequestComplete_taking]
  constructor
  · intro hcomplete
    obtain ⟨hpos, hfull, hpending⟩ := hcomplete
    by_contra hr
    obtain ⟨x, r, rfl⟩ := List.exists_cons_of_ne_nil hr
    -- the next byte would get a cell, and there is none left
    have hkept := (cells (u ++ [x])).kept_prefix_pushAll r
    rw [← cells_append, List.append_assoc, List.singleton_append, ← h, cells_concat,
      Cells.push_plain hpending] at hkept
    have hsame : announced offsetData (cells u).kept = announced offsetData vs := by
      obtain ⟨rest, hrest⟩ := (List.prefix_append (cells u).kept [x]).trans hkept
      rw [← announced_values hvs f, ← hall.1, ← hrest, announced_append offsetData_pos (by omega)]
    have hle := hkept.length_le
    rw [List.length_append, List.length_singleton] at hle
    omega
  · intro heq
    subst heq
    rw [List.append_nil] at h
    rw [← h, hlen, hall.1, announced_values hvs f]
    exact ⟨by omega, rfl, hall.2⟩

/-- Until then it takes request data. -/
theorem foldl_step_values {u r : List Byte} (h : wire.encodeAll (vs ++ [f]) = u ++ r)
    (hu : u ≠ []) (hr : r ≠ []) :
    u.foldl step (new.setState .waitForArbitration) = taking u := by
  induction u using List.reverseRecOn generalizing r with
  | nil => exact absurd rfl hu
  | append_singleton u x ih =>
    have hsplit := h
    rw [List.append_assoc, List.singleton_append] at hsplit
    have hx := ne_syn_of_split hsplit
    rw [List.foldl_append, List.foldl_cons, List.foldl_nil]
    by_cases hne : u = []
    · subst hne
      exact if_pos hx
    · have hnot : ¬ (taking (u ++ [x])).isRequestComplete = true := by
        rw [isRequestComplete_values hvs f h]
        exact hr
      rw [ih hsplit hne (List.cons_ne_nil x r), step_taking u hx, if_neg hnot]

/-- **The values of a frame are taken for a request** that is complete on the last byte. -/
theorem foldl_step_frame : ∃ newState,
    (wire.encodeAll (vs ++ [f])).foldl step (new.setState .waitForArbitration) =
        (taking (wire.encodeAll (vs ++ [f]))).setState newState ∧
      (newState = .waitForRequestAck ∨ newState = .endCompleted) := by
  have hlong : (cells (wire.encodeAll (vs ++ [f]))).kept.length = vs.length + 1 := by
    rw [(cells_encodeAll _).1, List.length_map, List.length_append]
    rfl
  rcases List.eq_nil_or_concat' (wire.encodeAll (vs ++ [f])) with hnil | ⟨u, x, hconcat⟩
  · rw [hnil] at hlong
    cases hlong
  · have hne : u ≠ [] := by
      intro heq
      subst heq
      have hlen := length_cells (wire.encodeAll (vs ++ [f]))
      rw [hlong, hvs, hconcat] at hlen
      simp [offsetData] at hlen
      omega
    have hcomplete : (taking (u ++ [x])).isRequestComplete = true := by
      rw [← hconcat, isRequestComplete_values hvs f (List.append_nil _).symm]
    rw [hconcat, List.foldl_append, List.foldl_cons, List.foldl_nil,
      foldl_step_values hvs f hconcat hne (List.cons_ne_nil x []),
      step_taking u (ne_syn_of_split hconcat), if_pos hcomplete]
    refine ⟨_, rfl, ?_⟩
    split
    · exact .inl rfl
    · exact .inr rfl

end Values

end Telegram

/-! ### The checksum of the receiver -/

/-- The bytes that the receiver folds into its checksum: all up to the one that gets the last
cell. -/
def folded (vs : List Byte) : List Byte := wire.encodeAll vs.dropLast ++ [readBack (vs.getLastD 0)]

theorem folded_concat (us : List Byte) (v : Byte) :
    folded (us ++ [v]) = wire.encodeAll us ++ [readBack v] := by
  rw [folded, List.dropLast_concat, List.getLastD_concat]

theorem folded_append (us : List Byte) {vs : List Byte} (hvs : vs ≠ []) :
    folded (us ++ vs) = wire.encodeAll us ++ folded vs := by
  obtain ⟨vs, v, rfl⟩ := (List.eq_nil_or_concat' vs).resolve_left hvs
  rw [← List.append_assoc, folded_concat, folded_concat, encodeAll_append, List.append_assoc]

/-- Values that are sent as they are. -/
theorem folded_of_plain {vs : List Byte} (hne : vs ≠ []) (hesc : esc ∉ vs.dropLast)
    (hsyn : syn ∉ vs) : folded vs = vs := by
  obtain ⟨us, v, rfl⟩ := (List.eq_nil_or_concat' vs).resolve_left hne
  rw [List.dropLast_concat] at hesc
  rw [List.mem_append, not_or] at hsyn
  rw [folded_concat, encodeAll_of_plain hesc hsyn.1, readBack_of_ne]
  intro heq
  subst heq
  exact hsyn.2 (List.mem_singleton_self _)

/-- The byte of the last value that gets the cell, and the mark behind it. -/
theorem exists_encode_eq (v : Byte) : ∃ rest, wire.encode v = readBack v :: rest := by
  rcases encode_eq v with ⟨heq, -⟩ | ⟨mark, heq, hesc⟩
  · exact ⟨[], heq⟩
  · exact ⟨[mark], by rw [heq, hesc]⟩

theorem cells_folded (us : List Byte) (v : Byte) :
    (cells (folded (us ++ [v]))).kept = (us ++ [v]).map readBack := by
  have hcells := cells_encodeAll us
  rw [folded_concat, cells_concat, Cells.push_plain hcells.2, List.map_append, ← hcells.1]
  rfl

/-- **The checksum of the receiver.** -/
theorem Telegram.crc_taking {vs : List Byte}
    (hvs : vs.length = offsetData + announced offsetData vs) (f : Byte) :
    (taking (wire.encodeAll (vs ++ [f]))).request.crc = crc8From 0 (folded vs) := by
  rcases List.eq_nil_or_concat' vs with rfl | ⟨us, v, rfl⟩
  · cases hvs
  have hlen : us.length + 1 = offsetData + announced offsetData (us ++ [v]) := by
    rw [← hvs, List.length_append]
    rfl
  have hkept := cells_folded us v
  have hcell : (clipNn ((cells (folded (us ++ [v]))).kept.getD (offsetData - 1) 0)).toNat =
      announced offsetData (us ++ [v]) := by
    rw [hkept, ← announced_map_readBack]
    rfl
  obtain ⟨mark, hmark⟩ := exists_encode_eq v
  have hsplit : wire.encodeAll (us ++ [v] ++ [f]) =
      folded (us ++ [v]) ++ (mark ++ wire.encode f) := by
    rw [folded_concat]
    simp [hmark]
  rw [hsplit]
  show (pushedLegacy offsetData [esc, esc] _ : RollingBuffer requestBufferSize × Bool).1.crc = _
  rw [crc_of_full offsetData_pos (by decide) (by decide) _ hcell
    (by rw [hkept, List.length_map, hvs])]
  refine crc_of_room offsetData_pos (by decide) (by decide) (fun _ => hcell) ?_
  intro u x hstart
  have hus := (cells_encodeAll us).1
  rw [folded_concat] at hstart
  rcases List.prefix_concat_iff.mp hstart with heq | hstart
  · -- the last byte is folded when all other values have their cells
    rw [(List.append_inj_left' heq rfl), hus, List.length_map]
    omega
  · obtain ⟨rest, hrest⟩ := hstart
    have hle := ((cells u).kept_prefix_pushAll (x :: rest)).length_le
    rw [← cells_append, ← List.singleton_append, ← List.append_assoc, hrest, hus,
      List.length_map] at hle
    omega

/-! ### The values of a request -/

namespace TelegramBase

variable (t : TelegramBase)

/-- The bytes that the getters report: addresses, command, length and data. -/
def values : List Byte :=
  [t.getQQ, t.getZZ, t.getPB, t.getSB, t.getNN] ++
    (List.range t.getNN.toNat).map
      (fun i => BitVec.ofInt 8 (t.getRequestByte (BitVec.ofNat 8 i)))

theorem getNN_lt : t.getNN.toNat < maxDataLength := clipNn_lt _

theorem length_values : t.values.length = offsetData + t.getNN.toNat := by
  rw [values, List.length_append, List.length_map, List.length_range]
  rfl

/-- A data byte that the length byte announces. -/
theorem getRequestByte_eq {i : ℕ} (hi : i < t.getNN.toNat) :
    t.getRequestByte (BitVec.ofNat 8 i) = (t.request.get (offsetData + i)).toNat := by
  have hlt := t.getNN_lt
  have hnat : (BitVec.ofNat 8 i).toNat = i :=
    toNat_byte (Nat.lt_trans (Nat.lt_trans hi hlt) (by decide))
  rw [getRequestByte, hnat, if_neg]
  rw [BitVec.lt_def, hnat]
  omega

/-- Every value is read from its cell, the length byte clipped. -/
theorem getD_values {i : ℕ} (hi : i < offsetData + t.getNN.toNat) : t.values.getD i 0 =
    if i = offsetNn then clipNn (t.request.get i) else t.request.get i := by
  rcases Nat.lt_or_ge i offsetData with hlt | hge
  · rw [values, List.getD_append _ _ _ _ hlt]
    match i, hlt with
    | 0, _ => rfl
    | 1, _ => rfl
    | 2, _ => rfl
    | 3, _ => rfl
    | 4, _ => rfl
  · obtain ⟨j, rfl⟩ := Nat.exists_eq_add_of_le hge
    have hj : j < t.getNN.toNat := by omega
    have hne : offsetData + j ≠ offsetNn := by
      simp only [offsetData, offsetNn]
      omega
    rw [values, if_neg hne]
    show ([t.getQQ, t.getZZ, t.getPB, t.getSB, t.getNN] ++ _).getD (5 + j) 0 = _
    rw [List.getD_append_right _ _ _ _ (Nat.le_add_right 5 j)]
    show List.getD _ (5 + j - 5) 0 = _
    rw [Nat.add_sub_cancel_left, List.getD_eq_getElem _ _ (by simpa using hj), List.getElem_map,
      List.getElem_range, t.getRequestByte_eq hj, BitVec.ofInt_natCast, BitVec.ofNat_toNat,
      BitVec.setWidth_eq]

theorem clipNn_getNN : clipNn t.getNN = t.getNN := clipNn_clipNn _

/-- The length byte among the values announces the data bytes among them. -/
theorem announced_values : announced offsetData t.values = t.getNN.toNat := by
  show (clipNn t.getNN).toNat = _
  rw [clipNn_getNN]

end TelegramBase

/-! ### What is reported -/

/-- The bytes of a request in front of its checksum. -/
def requestBytes (qq zz pb sb : Byte) (data : List Byte) : List Byte :=
  [qq, zz, pb, sb, BitVec.ofNat 8 data.length] ++ data

namespace Telegram

/-- The telegram has a complete and valid request with these bytes. -/
structure Reports (t : Telegram) (qq zz pb sb : Byte) (data : List Byte) : Prop where
  complete : t.isRequestComplete = true
  valid : t.isRequestValid = true
  qq : t.getQQ = qq
  zz : t.getZZ = zz
  pb : t.getPB = pb
  sb : t.getSB = sb
  nn : t.getNN.toNat = data.length
  bytes : ∀ i (h : i < data.length), t.getRequestByte (BitVec.ofNat 8 i) = (data[i]).toNat

variable {t : Telegram} {qq zz pb sb : Byte} {data : List Byte}

/-- The getters report the bytes if and only if these are the values. -/
theorem reports_iff_values (hlen : data.length < maxDataLength) : t.Reports qq zz pb sb data ↔
    t.isRequestComplete = true ∧ t.isRequestValid = true ∧
      t.values = requestBytes qq zz pb sb data := by
  have hnn : (BitVec.ofNat 8 data.length).toNat = data.length :=
    toNat_byte (Nat.lt_trans hlen (by decide))
  constructor
  · intro h
    refine ⟨h.complete, h.valid, ?_⟩
    have hdata : (List.range t.getNN.toNat).map
        (fun i => BitVec.ofInt 8 (t.getRequestByte (BitVec.ofNat 8 i))) = data := by
      apply List.ext_getElem
      · rw [List.length_map, List.length_range, h.nn]
      · intro i _ hi
        rw [List.getElem_map, List.getElem_range, h.bytes i hi, BitVec.ofInt_natCast,
          BitVec.ofNat_toNat, BitVec.setWidth_eq]
    have hbyte : t.getNN = BitVec.ofNat 8 data.length := by
      rw [← BitVec.toNat_inj, hnn, h.nn]
    rw [TelegramBase.values, hdata, h.qq, h.zz, h.pb, h.sb, hbyte, requestBytes]
  · intro h
    obtain ⟨hcomplete, hvalid, hvalues⟩ := h
    rw [TelegramBase.values, requestBytes] at hvalues
    simp only [List.cons_append, List.nil_append, List.cons.injEq] at hvalues
    obtain ⟨hqq, hzz, hpb, hsb, hbyte, hdata⟩ := hvalues
    have hcount : t.getNN.toNat = data.length := by rw [hbyte, hnn]
    refine ⟨hcomplete, hvalid, hqq, hzz, hpb, hsb, hcount, ?_⟩
    intro i hi
    have hget := t.getRequestByte_eq (hcount ▸ hi)
    have hcell := congrArg (fun l : List Byte => l.getD i 0) hdata
    simp only [List.getD_eq_getElem _ _ hi] at hcell
    rw [List.getD_eq_getElem _ _ (by simpa [hcount] using hi), List.getElem_map,
      List.getElem_range, hget, BitVec.ofInt_natCast, BitVec.ofNat_toNat,
      BitVec.setWidth_eq] at hcell
    rw [hget, hcell]

section Values

variable {vs : List Byte} (hvs : vs.length = offsetData + announced offsetData vs) (f : Byte)
include hvs

theorem getNN_values : (taking (wire.encodeAll (vs ++ [f]))).getNN.toNat =
    announced offsetData vs := by
  have hkept := (cells_encodeAll (vs ++ [f])).1
  rw [getNN_taking, hkept, announced_values hvs]
  rw [hkept, List.length_map, List.length_append, hvs]
  simp only [offsetData]
  omega

/-- Every value is in its cell, the last one included. -/
theorem get_values {i : ℕ} (hi : i ≤ vs.length) :
    (taking (wire.encodeAll (vs ++ [f]))).request.get i =
      ((vs ++ [f]).map readBack).getD i 0 := by
  have hkept := (cells_encodeAll (vs ++ [f])).1
  have hlt : i < (cells (wire.encodeAll (vs ++ [f]))).kept.length := by
    rw [hkept, List.length_map, List.length_append]
    exact Nat.lt_succ_of_le hi
  have hsize : i < requestBufferSize := by
    have hroom := announced_lt offsetData vs
    have hbuffer : offsetData + maxDataLength ≤ requestBufferSize := by decide
    omega
  rw [(stores_taking _).1.get_eq i hsize, Cells.stored, List.getD_append _ _ _ _ hlt, hkept]
  rw [hkept] at hlt
  rw [List.getD_eq_getElem _ _ hlt, List.getD_eq_getElem _ _ hlt]

/-- The values that are reported are what is read back of those sent. -/
theorem values_taking (hclip : clipNn (vs.getD offsetNn 0) = vs.getD offsetNn 0) :
    (taking (wire.encodeAll (vs ++ [f]))).values = vs.map readBack := by
  have hlen : (taking (wire.encodeAll (vs ++ [f]))).values.length = vs.length := by
    rw [TelegramBase.length_values, getNN_values hvs, hvs]
  apply List.ext_getElem
  · rw [hlen, List.length_map]
  · intro i hi hi'
    have hvs' : i < vs.length := by rwa [← hlen]
    have hget := get_values hvs f (Nat.le_of_lt hvs')
    rw [List.map_append, List.getD_append _ _ _ _ hi', List.getD_eq_getElem _ _ hi'] at hget
    have hvalue := (taking (wire.encodeAll (vs ++ [f]))).getD_values (i := i)
      (by rwa [getNN_values hvs, ← hvs])
    rw [List.getD_eq_getElem _ _ hi, hget] at hvalue
    rw [hvalue]
    split
    · -- the length byte is less than 16, and not SYN
      rename_i heq
      subst heq
      rw [List.getD_eq_getElem _ _ hvs'] at hclip
      rw [List.getElem_map, clipNn_readBack, hclip, readBack_of_ne]
      intro hsyn
      rw [hsyn] at hclip
      exact absurd hclip (by decide)
    · rfl

/-- **What a receiver reports.** -/
theorem reports_iff (hclip : clipNn (vs.getD offsetNn 0) = vs.getD offsetNn 0)
    (hlen : data.length < maxDataLength) {newState : TelegramState}
    (hstate : newState = .waitForRequestAck ∨ newState = .endCompleted) :
    ((taking (wire.encodeAll (vs ++ [f]))).setState newState).Reports qq zz pb sb data ↔
      vs.map readBack = requestBytes qq zz pb sb data ∧ readBack f = crc8From 0 (folded vs) := by
  have hcomplete : ((taking (wire.encodeAll (vs ++ [f]))).setState newState).isRequestComplete =
      true := by
    rw [← (isRequestComplete_values hvs f (List.append_nil _).symm).mpr rfl]
    rcases hstate with rfl | rfl
    · rfl
    · rfl
  have hcrc : ((taking (wire.encodeAll (vs ++ [f]))).setState newState).getRequestCRC =
      readBack f := by
    show (taking _).request.get (offsetData + (taking _).getNN.toNat) = _
    rw [getNN_values hvs, ← hvs, get_values hvs f (Nat.le_refl _), List.map_append,
      List.getD_append_right _ _ _ _ (by rw [List.length_map]), List.length_map, Nat.sub_self]
    rfl
  have hvalid : ((taking (wire.encodeAll (vs ++ [f]))).setState newState).isRequestValid = true ↔
      readBack f = crc8From 0 (folded vs) := by
    rw [isRequestValid, hcomplete, hcrc, ← crc_taking hvs f]
    simp
    rfl
  rw [reports_iff_values hlen, hvalid]
  show _ ∧ _ ∧ (taking _).values = _ ↔ _
  rw [values_taking hvs f hclip]
  tauto

end Values

end Telegram

end EsphomeEbus.Zebus
