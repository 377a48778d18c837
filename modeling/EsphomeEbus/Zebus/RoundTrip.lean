import EsphomeEbus.Checksum
import EsphomeEbus.Zebus.Repeat
import EsphomeEbus.Zebus.Values

/-!
# A legacy request from the constructor to the receiver

The constructor of a legacy command pushes the bytes of its request through the escape decoding of
`pushBuffer`, and the command then sends what its buffer shows.  A receiver pushes the wire form
through the same decoding.  This file says which requests come back.

* `reports_iff_of_command`: what a receiver reports of a command, in terms of its values;
* `values_built`, `rolled_eq`, `rolled_concat`: the values and the checksum that the constructor
  leaves;
* `Accepts`, `safeTail_of_accepts`: which bytes behind an ESC are shown as they are, with a checksum
  that the receiver computes too;
* `Survives`, `round_trip_iff`: the requests that come back, and nothing else does.
-/

namespace EsphomeEbus.Zebus

open Transducer Stuffing EsphomeEbus.Elf

/-! ### From command to receiver -/

/-- The bytes a command puts on the wire over all are the wire form of its values. -/
theorem uartSendRemainingRequestPart_eq (c : SendCommand) :
    uartSendChar c.getQQ ++ uartSendRemainingRequestPart c =
      wire.encodeAll (c.values ++ [c.getCRC]) := by
  have hsend : ∀ v : Byte, uartSendChar v = wire.encode v := uartSendChar_eq_encode
  simp only [uartSendRemainingRequestPart, hsend, TelegramBase.values, encodeAll_append,
    encodeAll_cons, encodeAll_nil, List.append_nil, List.append_assoc]
  congr 5
  rw [encodeAll, List.flatMap_map]

/-- The receiving telegram sees the bytes and nothing else. -/
theorem run_receivingTelegram (s : Ebus) (calls : List Call) :
    (run Ebus.processReceivedChar s calls).receivingTelegram =
      (calls.map Call.receivedByte).foldl Telegram.step s.receivingTelegram := by
  induction calls generalizing s with
  | nil => rfl
  | cons call calls ih =>
    rw [run_cons, ih, Ebus.processReceivedChar_receivingTelegram]
    rfl

section Command

variable {c : SendCommand} {s : Ebus} {calls : List Call} {qq zz pb sb : Byte} {data : List Byte}

/-- **What a receiver reports of a command.** -/
theorem reports_iff_of_command (hlen : data.length < maxDataLength)
    (hs : s.receivingTelegram = Telegram.new.setState .waitForArbitration)
    (hcalls : calls.map Call.receivedByte =
      uartSendChar c.getQQ ++ uartSendRemainingRequestPart c) :
    (run Ebus.processReceivedChar s calls).receivingTelegram.Reports qq zz pb sb data ↔
      c.values.map readBack = requestBytes qq zz pb sb data ∧
        readBack c.getCRC = crc8From 0 (folded c.values) := by
  have hvalues : c.values.length = offsetData + announced offsetData c.values := by
    rw [c.length_values, c.announced_values]
  obtain ⟨newState, hrun, hstate⟩ := Telegram.foldl_step_frame hvalues c.getCRC
  rw [run_receivingTelegram, hcalls, uartSendRemainingRequestPart_eq, hs, hrun]
  exact Telegram.reports_iff hvalues c.getCRC c.clipNn_getNN hlen hstate

end Command

/-! ### The buffer of a command -/

/-- The request of a command after a list of pushes. -/
def built (l : List Byte) : TelegramBase :=
  { state := .waitForSend
    request := (pushedLegacy offsetData [esc, esc] l : RollingBuffer requestBufferSize × Bool).1
    waitForEscaped :=
      (pushedLegacy offsetData [esc, esc] l : RollingBuffer requestBufferSize × Bool).2 }

theorem foldl_pushReqData (l : List Byte) :
    l.foldl TelegramBase.pushReqData { state := .waitForSend } = built l := by
  induction l using List.reverseRecOn with
  | nil => rfl
  | append_singleton l x ih =>
    rw [List.foldl_append, ih, List.foldl_cons, List.foldl_nil, built, built, pushedLegacy_concat]
    rfl

/-- The checksum after a list of pushes. -/
def rolled (l : List Byte) : Byte := (built l).request.crc

/-- The constructor pushes the bytes of the request, then the checksum of them. -/
theorem new_eq_built {qq zz pb sb : Byte} {data : List Byte} (hlen : data.length < maxDataLength) :
    (SendCommand.new qq zz pb sb (BitVec.ofNat 8 data.length) data).toTelegramBase =
      built (requestBytes qq zz pb sb data ++ [rolled (requestBytes qq zz pb sb data)]) := by
  have hnn : data.length = (BitVec.ofNat 8 data.length).toNat :=
    (toNat_byte (Nat.lt_trans hlen (by decide))).symm
  have hunsealed : SendCommand.unsealed qq zz pb sb (BitVec.ofNat 8 data.length) data =
      built (requestBytes qq zz pb sb data) := foldl_pushReqData _
  rw [SendCommand.new_eq hnn, hunsealed, ← foldl_pushReqData, ← foldl_pushReqData,
    List.foldl_append, foldl_pushReqData]
  rfl

section Built

variable {l : List Byte} (hl : l.length = offsetData + announced offsetData l) (k : Byte)

/-- What the last push leaves in the cell behind the others. -/
def sealByte (l : List Byte) (k : Byte) : Byte := if (cells l).pending then pairValue k else k

/-- What a command sends of its buffer, before the length byte is clipped. -/
def sentCells (l : List Byte) (k : Byte) : List Byte := (shown l (sealByte l k)).dropLast

theorem length_shown (l : List Byte) (z : Byte) : (shown l z).length = l.length + 1 := by
  rw [shown, List.length_append, List.length_cons, List.length_replicate, length_cells l]
  omega

theorem length_sentCells : (sentCells l k).length = l.length := by
  rw [sentCells, List.length_dropLast, length_shown]
  rfl

theorem getD_sentCells {i : ℕ} (hi : i < l.length) :
    (sentCells l k).getD i 0 = (shown l (sealByte l k)).getD i 0 := by
  rw [sentCells, List.dropLast_eq_take, length_shown, List.getD_eq_getElem?_getD,
    List.getD_eq_getElem?_getD, List.getElem?_take_of_lt (by omega)]

include hl

/-- The cells of the buffer. -/
theorem get_built {i : ℕ} (hi : i < requestBufferSize) :
    (built (l ++ [k])).request.get i = (shown l (sealByte l k)).getD i 0 := by
  have hstores : Stores [esc, esc] (cells (l ++ [k])) (built (l ++ [k])).request :=
    (stores_pushedLegacy (by decide) (l ++ [k])).1
  have hcells := hstores.get_eq i hi
  have hshown : shown l (sealByte l k) =
      ((cells l).kept ++ [sealByte l k]) ++ List.replicate (cells l).dropped.length 0 := by
    rw [shown, List.append_assoc]
    rfl
  rw [stored_concat, ← sealByte] at hcells
  rw [hshown, hcells]
  rcases Nat.lt_or_ge i ((cells l).kept ++ [sealByte l k]).length with hlt | hge
  · rw [List.getD_append _ _ _ _ hlt, List.getD_eq_getElem _ _ hlt, List.getD_eq_getElem _ _ hlt]
  · -- the two cells that start as ESC have been written
    have hwritten : [esc, esc].length ≤ i := by
      have hkept := dropped_le_kept l
      have hlen := length_cells l
      rw [List.length_append, List.length_singleton] at hge
      simp only [offsetData] at hl
      simp only [List.length_cons, List.length_nil]
      omega
    rw [List.getD_append_right _ _ _ _ hge, List.getD_eq_default _ _ hge,
      List.getD_eq_default _ _ hwritten, List.getD_eq_getElem?_getD,
      List.getElem?_getD_replicate_default_eq]

/-- The length byte announces what it does among the cells that are sent. -/
theorem getNN_built : (built (l ++ [k])).getNN.toNat = announced offsetData (sentCells l k) := by
  have hlt : offsetNn < l.length := by
    rw [hl]
    exact Nat.lt_of_lt_of_le (by decide) (Nat.le_add_right _ _)
  show (clipNn ((built (l ++ [k])).request.get offsetNn)).toNat =
    (clipNn ((sentCells l k).getD offsetNn 0)).toNat
  rw [get_built hl k (by decide), getD_sentCells k hlt]

/-- If the bytes with a cell are the first bytes pushed, the checksum covers all of them. -/
theorem rolled_eq (hstart : (cells l).kept <+: l) : rolled l = crc8From 0 l := by
  refine crc_of_room (m := announced offsetData l) offsetData_pos (by decide) (by decide) ?_ ?_
  · intro hlt
    obtain ⟨rest, hrest⟩ := hstart
    rw [announced, ← List.getD_append _ rest _ _ hlt, hrest]
  · intro u x hu
    have hkept := length_cells u
    have hle := hu.length_le
    rw [List.length_append, List.length_singleton] at hle
    omega

/-- If all bytes have their cells, the checksum is not folded into itself. -/
theorem rolled_concat_of_full (hkept : (cells l).kept = l) : rolled (l ++ [k]) = rolled l := by
  refine crc_of_full (m := announced offsetData l) offsetData_pos (by decide) (by decide) [k] ?_ ?_
  · rw [hkept]
    rfl
  · rw [hkept, hl]

variable (hk : announced offsetData (sentCells l k) = announced offsetData l)
include hk

/-- If a byte has no cell, the checksum is folded into itself. -/
theorem rolled_concat (hlt : (cells l).kept.length < l.length) :
    rolled (l ++ [k]) = crc8From 0 (l ++ [k]) := by
  refine crc_of_room (m := announced offsetData l) offsetData_pos (by decide) (by decide) ?_ ?_
  · intro hcell
    have hstart : (cells (l ++ [k])).kept <+: shown l (sealByte l k) := by
      have hstored : (cells (l ++ [k])).kept <+: (cells (l ++ [k])).stored := List.prefix_append _ _
      rw [stored_concat] at hstored
      refine hstored.trans ⟨List.replicate (cells l).dropped.length 0, ?_⟩
      rw [shown, sealByte, List.append_assoc]
      rfl
    obtain ⟨rest, hrest⟩ := hstart
    have hnn : offsetData - 1 < l.length := by
      rw [hl]
      exact Nat.lt_of_lt_of_le (by decide) (Nat.le_add_right _ _)
    rw [← hk, announced, getD_sentCells k hnn, ← hrest, List.getD_append _ _ _ _ hcell]
  · intro u x hu
    rcases List.prefix_concat_iff.mp hu with heq | hu
    · rw [List.append_inj_left' heq rfl, ← hl]
      exact hlt
    · have hkept := length_cells u
      have hle := hu.length_le
      rw [List.length_append, List.length_singleton] at hle
      omega

/-- **The values of a command** are its cells, the length byte clipped. -/
theorem values_built : (built (l ++ [k])).values = (sentCells l k).modify offsetNn clipNn := by
  have hlen : (built (l ++ [k])).values.length = l.length := by
    rw [TelegramBase.length_values, getNN_built hl, hk, hl]
  apply List.ext_getElem
  · rw [hlen, List.length_modify, length_sentCells]
  · intro i hi hi'
    have hil : i < l.length := by rwa [← hlen]
    have hsize : i < requestBufferSize := by
      have hroom := announced_lt offsetData l
      have hbuffer : offsetData + maxDataLength ≤ requestBufferSize := by decide
      omega
    have hvalue := (built (l ++ [k])).getD_values (i := i) (by rwa [getNN_built hl, hk, ← hl])
    rw [List.getD_eq_getElem _ _ hi, get_built hl k hsize, ← getD_sentCells k hil,
      List.getD_eq_getElem _ _ (by rwa [length_sentCells])] at hvalue
    rw [hvalue, List.getElem_modify]
    simp only [eq_comm]

end Built

/-! ### The checksum of what survives -/

/-- The receiver accepts what is shown behind an ESC, with the checksum at `c` after it. -/
def Accepts (c x : Byte) (t : List Byte) (y : Byte) : Prop :=
  readBack (crc8Calc (crc8From c (x :: t)) (crc8From c (x :: t))) =
    crc8From c (0 :: folded (shown t y))

instance (c x : Byte) (t : List Byte) (y : Byte) : Decidable (Accepts c x t y) :=
  inferInstanceAs (Decidable (_ = _))

section Accepts

variable {c x y : Byte} {t : List Byte}

theorem crc8Calc_zero_register : ∀ b : Byte, crc8Calc b 0 = b := by decide +kernel

theorem crc8Calc_injective_data {b b' : Byte} (h : crc8Calc b c = crc8Calc b' c) : b = b' := by
  have hsplit : ∀ d : Byte, crc8Calc d c = d ^^^ crc8Calc 0 c := by
    intro d
    have hxor : crc8Calc d c = crc8Calc d 0 ^^^ crc8Calc 0 c := crc8From_eq_xor c [d]
    rw [hxor, crc8Calc_zero_register]
  rw [hsplit b, hsplit b'] at h
  exact (BitVec.xor_left_inj _).mp h

/-- One byte over and over is shown as it is. -/
theorem folded_shown_of_replicate {n : ℕ} (hx : x ≠ esc) (hy : readBack y = x) :
    folded (shown (List.replicate n x) y) = List.replicate (n + 1) x := by
  have hsyn : x ≠ syn := by
    rw [← hy]
    exact readBack_ne_syn y
  have hplain : esc ∉ List.replicate n x := fun h => hx (List.eq_of_mem_replicate h).symm
  have hshown : shown (List.replicate n x) y = List.replicate n x ++ [y] := by
    rw [shown, cells_of_plain hplain]
    rfl
  rw [hshown, folded_concat, hy, List.replicate_succ', encodeAll_of_plain hplain]
  exact fun h => hsyn (List.eq_of_mem_replicate h).symm

/-- Zeros are accepted only if nothing is in the checksum before them. -/
theorem eq_zero_of_accepts_zeros {n : ℕ} (hy : readBack y = 0)
    (h : Accepts c 0 (List.replicate n 0) y) : c = 0 := by
  have hcheck : ∀ k : Byte, readBack (crc8Calc k k) = crc8Calc 0 k → k = 0 := by decide +kernel
  have hlast : crc8From c (List.replicate (n + 1 + 1) 0) =
      crc8Calc 0 (crc8From c (List.replicate (n + 1) 0)) := by
    rw [List.replicate_succ', crc8From_append]
    rfl
  rw [Accepts, folded_shown_of_replicate (by decide) hy, ← List.replicate_succ,
    ← List.replicate_succ, hlast] at h
  have hzero := hcheck _ h
  exact crc8From_injective (List.replicate (n + 1) 0) (hzero.trans (crc8From_zeros _).symm)

/-- The two bytes for which the checksum of the sender is read back as ESC. -/
theorem replicate_ne_esc : ∀ x : Byte, crc8Calc x x = syn → ∀ n < 19,
    crc8From 0 (0 :: List.replicate (n + 1) x) ^^^
      crc8From (x ^^^ crc8From 0 (List.replicate (n + 1) x)) [0] ≠ esc := by
  decide +kernel

/-- No other byte is accepted. -/
theorem not_accepts_replicate {n : ℕ} (hn : n < 19) (hx : x ≠ 0) (hesc : x ≠ esc)
    (hy : readBack y = x) (hcrc : crc8From c (List.replicate (n + 1) x) = x) :
    ¬ Accepts c x (List.replicate n x) y := by
  intro h
  rw [Accepts, folded_shown_of_replicate hesc hy, ← List.replicate_succ, hcrc] at h
  by_cases hsyn : crc8Calc x x = syn
  · have hlonger := crc8From_longer c (l := List.replicate (n + 1) x)
      (m := 0 :: List.replicate (n + 1) x) (n := 1) rfl
    rw [hcrc, ← h, hsyn] at hlonger
    exact replicate_ne_esc x hsyn n hn hlonger.symm
  · -- both checksums end in the same bytes, and start with different ones
    rw [readBack_of_ne hsyn] at h
    have hlast : crc8Calc x x = crc8From c (List.replicate (n + 1 + 1) x) := by
      rw [List.replicate_succ', crc8From_append, hcrc]
      rfl
    rw [hlast, List.replicate_succ, crc8From_cons, crc8From_cons] at h
    exact hx (crc8Calc_injective_data (crc8From_injective _ h))

/-- A row of escape pairs is not accepted, whichever of the two bytes its checksum is. -/
theorem word_ne : ∀ n ∈ [0, 2, 5, 9, 14], (cells (word n)).pending = false ∧ ∀ k ∈ [esc, syn],
    (0 :: folded (shown (word n) k)).length =
        (esc :: word n).length + ((folded (shown (word n) k)).length - (word n).length) ∧
      readBack (crc8Calc k k) ≠ crc8From 0 (0 :: folded (shown (word n) k)) ^^^
        crc8From (k ^^^ crc8From 0 (esc :: word n))
          (List.replicate ((folded (shown (word n) k)).length - (word n).length) 0) := by
  decide +kernel

/-- Two ESCs behind the first one are accepted only if nothing is in the checksum before them. -/
theorem accepts_pair_iff (c : Byte) :
    Accepts c esc [esc] (pairValue (crc8From c [esc, esc])) ↔ c = 0 := by
  have hfolded : ∀ k, folded (shown [esc] (pairValue k)) = [esc, 0, esc] := by
    intro k
    unfold pairValue
    split
    · rfl
    · rfl
  have hcheck : ∀ k : Byte, readBack (crc8Calc k k) =
      crc8From 0 [0, esc, 0, esc] ^^^ crc8From (k ^^^ crc8From 0 [esc, esc]) [0, 0] ↔
        k = crc8From 0 [esc, esc] := by
    decide +kernel
  have hlonger := crc8From_longer c (l := [esc, esc]) (m := [0, esc, 0, esc]) (n := 2) rfl
  rw [Accepts, hfolded, hlonger]
  exact (hcheck _).trans (crc8From_injective [esc, esc]).eq_iff

/-- What follows the first ESC: zeros, or two more of them. -/
def SafeTail (t : List Byte) : Prop := (∀ b ∈ t, b = 0) ∨ t = [esc, esc]

/-- Of the lists of one byte, only zeros are accepted. -/
theorem eq_zero_of_accepts_plain (hlen : t.length < 19)
    (hy : y = 0 ∨ y = sealByte t (crc8From c (x :: t))) (hx : x ≠ esc) (hplain : esc ∉ t)
    (ht : t = List.replicate t.length x) (hyx : readBack y = x) (haccepts : Accepts c x t y) :
    c = 0 ∧ x = 0 := by
  rw [ht] at haccepts
  by_cases hzero : x = 0
  · subst hzero
    exact ⟨eq_zero_of_accepts_zeros hyx haccepts, rfl⟩
  · exfalso
    -- the byte behind the list is the checksum, and read back as it is
    have hseal : y = crc8From c (x :: t) := by
      rcases hy with rfl | hy
      · exact absurd hyx.symm hzero
      · rw [sealByte, cells_of_plain hplain] at hy
        exact hy
    have hns : y ≠ syn := by
      intro hsyn
      rw [hsyn] at hyx
      exact hx hyx.symm
    rw [readBack_of_ne hns] at hyx
    refine not_accepts_replicate hlen hzero hx (y := y) ?_ ?_ haccepts
    · rw [readBack_of_ne hns, hyx]
    · rw [List.replicate_succ, ← ht, ← hseal, hyx]

/-- Of the rows of escape pairs, only the shortest with an ESC at its end is accepted. -/
theorem eq_pair_of_accepts (hy : y = 0 ∨ y = sealByte t (crc8From c (esc :: t)))
    (hyx : readBack y = esc) (hword : t = word t.length)
    (hn : t.length ∈ [0, 1, 2, 5, 9, 14]) (haccepts : Accepts c esc t y) : c = 0 ∧ t = [esc] := by
  have hseal : y = sealByte t (crc8From c (esc :: t)) := by
    rcases hy with rfl | hy
    · exact absurd hyx (by decide)
    · exact hy
  by_cases hone : t.length = 1
  · rw [hone] at hword
    have ht : t = [esc] := hword
    subst ht
    rw [hseal] at haccepts
    exact ⟨(accepts_pair_iff c).mp haccepts, rfl⟩
  · exfalso
    have hn' : t.length ∈ [0, 2, 5, 9, 14] := by
      simp only [List.mem_cons, List.not_mem_nil, or_false] at hn ⊢
      omega
    obtain ⟨hpending, hne⟩ := word_ne _ hn'
    rw [← hword] at hpending hne
    have hsame : crc8From c (esc :: t) = y := by
      rw [hseal, sealByte, hpending]
      rfl
    have hmem : y ∈ [esc, syn] := by
      by_cases hsyn : y = syn
      · simp [hsyn]
      · rw [readBack_of_ne hsyn] at hyx
        simp [hyx]
    obtain ⟨hlonger, hne⟩ := hne y hmem
    have hcrc := crc8From_longer c hlonger
    rw [Accepts, hsame] at haccepts
    rw [hsame] at hcrc
    exact hne (haccepts.trans hcrc)

/-- **What is shown and accepted.** -/
theorem safeTail_of_accepts (hlen : t.length < 19)
    (hy : y = 0 ∨ y = sealByte t (crc8From c (x :: t))) (h : Repeats x t (readBack y))
    (haccepts : Accepts c x t y) : c = 0 ∧ SafeTail (x :: t) := by
  rcases h.cases hlen with ⟨hx, hplain, ht, hyx⟩ | ⟨rfl, hyx, hword, hn⟩
  · obtain ⟨hc, rfl⟩ := eq_zero_of_accepts_plain hlen hy hx hplain ht hyx haccepts
    refine ⟨hc, .inl ?_⟩
    rw [ht, ← List.replicate_succ]
    exact fun b => List.eq_of_mem_replicate
  · obtain ⟨hc, rfl⟩ := eq_pair_of_accepts hy hyx hword hn haccepts
    exact ⟨hc, .inr rfl⟩

/-- What follows the first ESC in that way is shown and accepted. -/
theorem accepts_of_safeTail (h : SafeTail (x :: t)) :
    Repeats x t (readBack (sealByte t (crc8From 0 (x :: t)))) ∧
      Accepts 0 x t (sealByte t (crc8From 0 (x :: t))) := by
  rcases h with h | h
  · obtain ⟨n, hn⟩ : ∃ n, x :: t = List.replicate (n + 1) 0 :=
      ⟨t.length, List.eq_replicate_of_mem h⟩
    rw [List.replicate_succ, List.cons.injEq] at hn
    obtain ⟨rfl, rfl⟩ := hn
    have hplain : esc ∉ List.replicate n (0 : Byte) :=
      fun h => absurd (List.eq_of_mem_replicate h) (by decide)
    have hseal : sealByte (List.replicate n 0) (crc8From 0 (0 :: List.replicate n 0)) = 0 := by
      rw [sealByte, cells_of_plain hplain, ← List.replicate_succ, crc8From_zeros]
      rfl
    rw [hseal]
    constructor
    · rw [Repeats, shown, cells_of_plain hplain, ← List.replicate_succ, List.replicate_succ']
      rfl
    · rw [Accepts, folded_shown_of_replicate (x := 0) (y := 0) (by decide) rfl,
        ← List.replicate_succ, ← List.replicate_succ, crc8From_zeros, crc8From_zeros]
      decide
  · obtain ⟨rfl, rfl⟩ := List.cons.inj h
    exact ⟨by decide +kernel, by decide +kernel⟩

end Accepts

/-! ### Which requests come back -/

/-- The command sends values that are read back as the request, and a checksum that is read back as
the one of the receiver. -/
def ComesBack (l : List Byte) : Prop :=
  (built (l ++ [rolled l])).values.map readBack = l ∧
    readBack (rolled (l ++ [rolled l])) = crc8From 0 (folded (built (l ++ [rolled l])).values)

theorem modify_of_fixed {m : List Byte} (h : clipNn (m.getD offsetNn 0) = m.getD offsetNn 0) :
    m.modify offsetNn clipNn = m := by
  apply List.ext_getElem (List.length_modify _ _ _)
  intro i _ hi
  rw [List.getElem_modify]
  split
  · rename_i heq
    subst heq
    rwa [List.getD_eq_getElem _ _ hi] at h
  · rfl

/-- A length byte that is read back as one below 16 is below 16. -/
theorem fixed_of_map_readBack {m : List Byte} (h : clipNn ((m.map readBack).getD offsetNn 0) =
    (m.map readBack).getD offsetNn 0) : clipNn (m.getD offsetNn 0) = m.getD offsetNn 0 := by
  rw [getD_map_readBack, clipNn_readBack] at h
  by_cases hsyn : m.getD offsetNn 0 = syn
  · rw [hsyn] at h
    exact absurd h (by decide)
  · rw [h, readBack_of_ne hsyn]

theorem map_readBack_of_plain {l : List Byte} (h : syn ∉ l) : l.map readBack = l := by
  induction l with
  | nil => rfl
  | cons v l ih =>
    rw [List.mem_cons, not_or] at h
    rw [List.map_cons, ih h.2, readBack_of_ne (Ne.symm h.1)]

/-- SYN is never read back. -/
theorem syn_not_mem_map_readBack (l : List Byte) : syn ∉ l.map readBack := by
  intro h
  obtain ⟨v, -, hv⟩ := List.mem_map.mp h
  exact readBack_ne_syn v hv

section ComesBack

variable {l : List Byte} (hl : l.length = offsetData + announced offsetData l)
  (hclip : clipNn (l.getD offsetNn 0) = l.getD offsetNn 0)
include hl hclip

/-- Without an ESC in front of another byte, all bytes have their cells. -/
theorem comesBack_iff_of_plain (hplain : esc ∉ l.dropLast) :
    ComesBack l ↔ syn ∉ l ∧ crc8From 0 l ≠ syn := by
  have hne : l ≠ [] := by
    intro heq
    subst heq
    cases hl
  have hcells : (cells l).kept = l ∧ (cells l).dropped = [] := by
    obtain ⟨d, z, rfl⟩ := (List.eq_nil_or_concat' l).resolve_left hne
    rw [List.dropLast_concat] at hplain
    rw [cells_concat, cells_of_plain hplain, Cells.push_plain rfl]
    exact ⟨rfl, rfl⟩
  have hsent : ∀ k, sentCells l k = l := by
    intro k
    rw [sentCells, shown, hcells.1, hcells.2]
    exact List.dropLast_concat
  have hrolled : rolled l = crc8From 0 l := rolled_eq hl (by rw [hcells.1])
  have hvalues : (built (l ++ [rolled l])).values = l := by
    rw [values_built hl _ (by rw [hsent]), hsent, modify_of_fixed hclip]
  rw [ComesBack, hvalues, rolled_concat_of_full hl _ hcells.1, hrolled]
  constructor
  · intro h
    obtain ⟨hback, hcrc⟩ := h
    have hsyn : syn ∉ l := by
      rw [← hback]
      exact syn_not_mem_map_readBack l
    refine ⟨hsyn, ?_⟩
    rw [← folded_of_plain hne hplain hsyn, ← hcrc]
    exact readBack_ne_syn _
  · intro h
    obtain ⟨hsyn, hcrc⟩ := h
    exact ⟨map_readBack_of_plain hsyn, by rw [folded_of_plain hne hplain hsyn, readBack_of_ne hcrc]⟩

end ComesBack

/-! ### Requests with an ESC in front of another byte -/

theorem map_readBack_shown {t : List Byte} (hsyn : syn ∉ t) (y : Byte) :
    (shown t y).map readBack = shown t (readBack y) := by
  have hkept : syn ∉ (cells t).kept := fun h => hsyn (mem_of_mem_kept h)
  have hzero : readBack 0 = 0 := by decide
  rw [shown, List.map_append, List.map_cons, List.map_replicate, map_readBack_of_plain hkept, hzero,
    shown]

/-- What is read out ends with the byte that the checksum left, or with a zero. -/
theorem shown_eq_concat (t : List Byte) : (∀ y, shown t y = (cells t).kept ++ [y]) ∨
    ∀ y, ∃ u, shown t y = u ++ [0] := by
  cases hdropped : (cells t).dropped with
  | nil =>
    left
    intro y
    rw [shown, hdropped]
    rfl
  | cons d dropped =>
    right
    intro y
    refine ⟨(cells t).kept ++ y :: List.replicate dropped.length 0, ?_⟩
    rw [shown, hdropped, List.length_cons, List.replicate_succ']
    simp

/-- Without data bytes the length byte is the last one. -/
theorem modify_concat {u : List Byte} (hu : u.length = offsetNn) (a : Byte) :
    (u ++ [a]).getD offsetNn 0 = a ∧ (u ++ [a]).modify offsetNn clipNn = u ++ [clipNn a] := by
  constructor
  · rw [← hu, List.getD_append_right _ _ _ _ (Nat.le_refl _), Nat.sub_self]
    rfl
  · rw [← hu, List.modify_eq_take_cons_drop (by simp)]
    simp

/-- Clipping the length byte changes at most the byte that the checksum left, and that to zero. -/
theorem exists_modify_eq {p t : List Byte} {y : Byte} (hm : (p ++ esc :: shown t y).length =
    offsetData + announced offsetData (p ++ esc :: shown t y)) :
    ∃ y', (p ++ esc :: shown t y).modify offsetNn clipNn = p ++ esc :: shown t y' ∧
      (y' = 0 ∨ y' = y) := by
  rcases clipNn_eq_or ((p ++ esc :: shown t y).getD offsetNn 0) with hfixed | hzero
  · exact ⟨y, modify_of_fixed hfixed, .inr rfl⟩
  · have hfive : (p ++ esc :: shown t y).length = offsetNn + 1 := by
      rw [hm, announced, show offsetData - 1 = offsetNn from rfl, hzero]
      rfl
    rcases shown_eq_concat t with hlast | hlast
    · have hconcat : ∀ z, p ++ esc :: shown t z = (p ++ esc :: (cells t).kept) ++ [z] := by
        intro z
        rw [hlast, List.append_assoc]
        rfl
      rw [hconcat, List.length_append] at hfive
      have hmodify := modify_concat (Nat.succ.inj hfive) y
      rw [hconcat, hmodify.1] at hzero
      exact ⟨0, by rw [hconcat, hmodify.2, hzero, hconcat], .inl rfl⟩
    · -- a zero is not changed
      obtain ⟨u, hu⟩ := hlast y
      have hconcat : p ++ esc :: shown t y = (p ++ esc :: u) ++ [0] := by
        rw [hu, List.append_assoc]
        rfl
      refine ⟨y, modify_of_fixed ?_, .inr rfl⟩
      rw [hconcat, List.length_append] at hfive
      rw [hconcat, (modify_concat (Nat.succ.inj hfive) 0).1]
      rfl

section BehindEsc

variable {p t : List Byte} {x : Byte} (hp : esc ∉ p)
include hp

theorem sentCells_behind_esc (k : Byte) :
    sentCells (p ++ esc :: x :: t) k = p ++ esc :: shown t (sealByte t k) := by
  obtain ⟨hkept, hdropped, hpending⟩ := cells_behind_esc hp x t
  have hseal : sealByte (p ++ esc :: x :: t) k = sealByte t k := by
    rw [sealByte, hpending, sealByte]
  have hshown : shown (p ++ esc :: x :: t) (sealByte t k) =
      p ++ esc :: shown t (sealByte t k) ++ [0] := by
    rw [shown, shown, hkept, hdropped, List.length_cons, List.replicate_succ']
    simp
  rw [sentCells, hseal, hshown, List.dropLast_concat]

theorem kept_lt_of_esc :
    (cells (p ++ esc :: x :: t)).kept.length < (p ++ esc :: x :: t).length := by
  obtain ⟨-, hdropped, -⟩ := cells_behind_esc hp x t
  rw [length_cells (p ++ esc :: x :: t), hdropped, List.length_cons]
  omega

/-- The checksum of the receiver, behind the first ESC. -/
theorem crc_folded_behind_esc (hsyn : syn ∉ p) (y : Byte) :
    crc8From 0 (folded (p ++ esc :: shown t y)) =
      crc8From (crc8From 0 (p ++ [esc])) (0 :: folded (shown t y)) := by
  have hne : shown t y ≠ [] := by simp [shown]
  have hesc : wire.encode esc = [esc, 0] := rfl
  have happend : p ++ esc :: shown t y = (p ++ [esc]) ++ shown t y := by simp
  rw [happend, folded_append _ hne, encodeAll_append, encodeAll_of_plain hp hsyn, encodeAll_cons,
    hesc, encodeAll_nil, ← crc8From_append]
  simp

omit hp in
/-- The checksum of the sender, behind the first ESC. -/
theorem crc_behind_esc : crc8From 0 (p ++ esc :: x :: t) =
    crc8From (crc8From 0 (p ++ [esc])) (x :: t) := by
  rw [← crc8From_append]
  simp

variable (hl : (p ++ esc :: x :: t).length =
    offsetData + announced offsetData (p ++ esc :: x :: t))
include hl

/-- If what follows the ESC is shown, the checksum covers all bytes. -/
theorem rolled_of_repeats {z : Byte} (h : Repeats x t z) : rolled (p ++ esc :: x :: t) =
    crc8From (crc8From 0 (p ++ [esc])) (x :: t) := by
  obtain ⟨hkept, -, -⟩ := cells_behind_esc hp x t
  have hstart : (cells (p ++ esc :: x :: t)).kept <+: p ++ esc :: x :: t := by
    rw [hkept, List.prefix_append_right_inj, List.cons_prefix_cons]
    exact ⟨rfl, h.kept_prefix⟩
  rw [rolled_eq hl hstart, crc_behind_esc]

/-- What is read back of the values that are sent. -/
theorem comesBack_iff_of_values {y : Byte} (hsyn : syn ∉ p ++ esc :: x :: t)
    (hk : announced offsetData (sentCells (p ++ esc :: x :: t) (rolled (p ++ esc :: x :: t))) =
      announced offsetData (p ++ esc :: x :: t))
    (hvalues : (built ((p ++ esc :: x :: t) ++ [rolled (p ++ esc :: x :: t)])).values =
      p ++ esc :: shown t y) :
    ComesBack (p ++ esc :: x :: t) ↔
      Repeats x t (readBack y) ∧ Accepts (crc8From 0 (p ++ [esc])) x t y := by
  rw [List.mem_append, List.mem_cons, List.mem_cons, not_or, not_or, not_or] at hsyn
  obtain ⟨hsynp, -, -, hsynt⟩ := hsyn
  have hesc : readBack esc = esc := by decide
  have hback : (p ++ esc :: shown t y).map readBack = p ++ esc :: x :: t ↔
      Repeats x t (readBack y) := by
    rw [List.map_append, List.map_cons, map_readBack_of_plain hsynp, hesc, map_readBack_shown hsynt,
      List.append_cancel_left_eq, List.cons_inj_right, Repeats, eq_comm]
  rw [ComesBack, hvalues, hback, rolled_concat hl _ hk (kept_lt_of_esc hp),
    crc_folded_behind_esc hp hsynp]
  refine and_congr_right fun h => ?_
  rw [rolled_of_repeats hp hl h, crc8From_append, crc_behind_esc]
  exact Iff.rfl

/-- What comes back behind an ESC is shown and accepted. -/
theorem safeTail_of_comesBack (h : ComesBack (p ++ esc :: x :: t)) :
    syn ∉ p ++ esc :: x :: t ∧ crc8From 0 (p ++ [esc]) = 0 ∧ SafeTail (x :: t) := by
  have hsyn : syn ∉ p ++ esc :: x :: t := by
    rw [← h.1]
    exact syn_not_mem_map_readBack _
  have hk : announced offsetData (sentCells (p ++ esc :: x :: t) (rolled (p ++ esc :: x :: t))) =
      announced offsetData (p ++ esc :: x :: t) := by
    have hlen := congrArg List.length h.1
    rw [List.length_map, TelegramBase.length_values, getNN_built hl, hl] at hlen
    exact Nat.add_left_cancel hlen
  have hshort : t.length < 19 := by
    have hroom := announced_lt offsetData (p ++ esc :: x :: t)
    rw [List.length_append, List.length_cons, List.length_cons] at hl
    simp only [offsetData, maxDataLength] at hl hroom
    omega
  -- the values are the cells, but for the last one where it is the length byte
  have hlen := length_sentCells (l := p ++ esc :: x :: t) (rolled (p ++ esc :: x :: t))
  have hvalues := values_built hl _ hk
  rw [hl, ← hk] at hlen
  rw [sentCells_behind_esc hp] at hlen hvalues
  obtain ⟨y, hmodify, hy⟩ := exists_modify_eq hlen
  rw [hmodify] at hvalues
  obtain ⟨hrepeats, haccepts⟩ := (comesBack_iff_of_values hp hl hsyn hk hvalues).mp h
  rw [rolled_of_repeats hp hl hrepeats] at hy
  exact ⟨hsyn, safeTail_of_accepts hshort hy hrepeats haccepts⟩

/-- Zeros or two more ESCs come back, if nothing is in the checksum before them. -/
theorem comesBack_of_safeTail (hclip : clipNn ((p ++ esc :: x :: t).getD offsetNn 0) =
      (p ++ esc :: x :: t).getD offsetNn 0) (hsyn : syn ∉ p ++ esc :: x :: t)
    (hzero : crc8From 0 (p ++ [esc]) = 0) (htail : SafeTail (x :: t)) :
    ComesBack (p ++ esc :: x :: t) := by
  obtain ⟨hrepeats, haccepts⟩ := accepts_of_safeTail htail
  have hrolled := rolled_of_repeats hp hl hrepeats
  rw [hzero] at hrolled
  have hsent := sentCells_behind_esc hp (t := t) (x := x) (rolled (p ++ esc :: x :: t))
  rw [hrolled] at hsent
  have hback : (p ++ esc :: shown t (sealByte t (crc8From 0 (x :: t)))).map readBack =
      p ++ esc :: x :: t := by
    have hplain : syn ∉ p ∧ syn ∉ t := by
      simp only [List.mem_append, List.mem_cons, not_or] at hsyn
      exact ⟨hsyn.1, hsyn.2.2.2⟩
    rw [List.map_append, List.map_cons, map_readBack_of_plain hplain.1,
      map_readBack_shown hplain.2, ← hrepeats]
    rfl
  have hk : announced offsetData (sentCells (p ++ esc :: x :: t) (rolled (p ++ esc :: x :: t))) =
      announced offsetData (p ++ esc :: x :: t) := by
    rw [hrolled, hsent, ← announced_map_readBack, hback]
  have hfixed := fixed_of_map_readBack (hback.symm ▸ hclip)
  have hvalues := values_built hl _ hk
  rw [hrolled, hsent, modify_of_fixed hfixed, ← hrolled] at hvalues
  rw [comesBack_iff_of_values hp hl hsyn hk hvalues, hrolled, hzero]
  exact ⟨hrepeats, haccepts⟩

end BehindEsc

/-! ### The round trip -/

/-- The bytes of a request that a receiver reports again.  None of them is SYN.  Either ESC is at
most the last of them, and their checksum is not SYN; or the checksum is zero up to the first ESC,
and behind it there are only zeros or exactly two more. -/
def Survives (sent : List Byte) : Prop :=
  syn ∉ sent ∧
    (esc ∉ sent.dropLast ∧ crc8From 0 sent ≠ syn ∨
      ∃ p t, sent = p ++ esc :: t ∧ esc ∉ p ∧ t ≠ [] ∧ crc8From 0 (p ++ [esc]) = 0 ∧ SafeTail t)

/-- There is one first ESC. -/
theorem first_esc_unique {p p' t t' : List Byte} (hp : esc ∉ p) (hp' : esc ∉ p')
    (h : p ++ esc :: t = p' ++ esc :: t') : p = p' ∧ t = t' := by
  rcases List.append_eq_append_iff.mp h with ⟨r, rfl, hr⟩ | ⟨r, rfl, hr⟩
  · cases r with
    | nil => exact ⟨(List.append_nil p).symm, (List.cons.inj hr).2⟩
    | cons b r => exact absurd (by simp [(List.cons.inj hr).1]) hp'
  · cases r with
    | nil => exact ⟨List.append_nil p', (List.cons.inj hr).2.symm⟩
    | cons b r => exact absurd (by simp [(List.cons.inj hr).1]) hp

theorem comesBack_iff {l : List Byte} (hl : l.length = offsetData + announced offsetData l)
    (hclip : clipNn (l.getD offsetNn 0) = l.getD offsetNn 0) : ComesBack l ↔ Survives l := by
  by_cases hesc : esc ∈ l.dropLast
  · have hne : l ≠ [] := by
      intro heq
      subst heq
      cases hl
    obtain ⟨p, r, hdrop, hp⟩ := List.eq_append_cons_of_mem hesc
    obtain ⟨x, t, htail⟩ := List.exists_cons_of_ne_nil
      (List.append_ne_nil_of_right_ne_nil r (List.cons_ne_nil (l.getLast hne) []))
    have hsplit : l = p ++ esc :: x :: t := by
      rw [← List.dropLast_append_getLast hne, hdrop, List.append_assoc, List.cons_append, htail]
    subst hsplit
    constructor
    · intro h
      obtain ⟨hsyn, hcrc, ht⟩ := safeTail_of_comesBack hp hl h
      exact ⟨hsyn, .inr ⟨p, x :: t, rfl, hp, List.cons_ne_nil x t, hcrc, ht⟩⟩
    · intro h
      obtain ⟨hsyn, ⟨hplain, -⟩ | ⟨p', t', heq, hp', -, hcrc, ht⟩⟩ := h
      · exact absurd hesc hplain
      · obtain ⟨rfl, rfl⟩ := first_esc_unique hp hp' heq
        exact comesBack_of_safeTail hp hl hclip hsyn hcrc ht
  · rw [comesBack_iff_of_plain hl hclip hesc]
    refine and_congr_right fun hsyn => ⟨fun h => .inl ⟨hesc, h⟩, ?_⟩
    rintro (⟨-, hcrc⟩ | ⟨p, t, rfl, -, ht, -⟩)
    · exact hcrc
    · exfalso
      apply hesc
      rw [List.dropLast_append_cons, List.dropLast_cons_of_ne_nil ht]
      simp

section RoundTrip

variable {s : Ebus} {calls : List Call} (qq zz pb sb : Byte) {data : List Byte}

/-- **The round trip of a legacy request.**  A receiver that waits for arbitration hears what a
command puts on the wire, and reports the bytes the command was built from if and only if these
survive. -/
theorem round_trip_iff (hlen : data.length < maxDataLength)
    (hs : s.receivingTelegram = Telegram.new.setState .waitForArbitration)
    (hcalls : calls.map Call.receivedByte =
      uartSendChar
          (SendCommand.new qq zz pb sb (BitVec.ofNat 8 data.length) data).getQQ ++
        uartSendRemainingRequestPart
          (SendCommand.new qq zz pb sb (BitVec.ofNat 8 data.length) data)) :
    (run Ebus.processReceivedChar s calls).receivingTelegram.Reports qq zz pb sb data ↔
      Survives (requestBytes qq zz pb sb data) := by
  have hnn : (BitVec.ofNat 8 data.length).toNat = data.length :=
    toNat_byte (Nat.lt_trans hlen (by decide))
  have hfixed : clipNn (BitVec.ofNat 8 data.length) = BitVec.ofNat 8 data.length := by
    rw [← BitVec.toNat_inj, clipNn_ofNat hlen, hnn]
  have hl : (requestBytes qq zz pb sb data).length =
      offsetData + announced offsetData (requestBytes qq zz pb sb data) := by
    have hannounced : announced offsetData (requestBytes qq zz pb sb data) = data.length :=
      clipNn_ofNat hlen
    rw [hannounced, requestBytes, List.length_append]
    rfl
  rw [reports_iff_of_command hlen hs hcalls, SendCommand.getCRC, new_eq_built hlen]
  exact comesBack_iff hl hfixed

end RoundTrip

/-- Calls with these bytes. -/
def quiet (bytes : List Byte) : List Call := bytes.map fun b => ⟨b, none, []⟩

/-- A node that has heard a SYN. -/
def listening : Ebus :=
  run Ebus.processReceivedChar (Ebus.init ⟨0x30#8, 2, 4, true, true⟩) (quiet [syn])

/-- A request without ESC and SYN comes back. -/
theorem plain_round_trip :
    let c := SendCommand.new 0x10#8 0x08#8 0x07#8 0x04#8 (BitVec.ofNat 8 [0x12#8].length) [0x12#8]
    (run Ebus.processReceivedChar listening (quiet
        (uartSendChar c.getQQ ++ uartSendRemainingRequestPart c))).receivingTelegram.Reports
      0x10#8 0x08#8 0x07#8 0x04#8 [0x12#8] :=
  (round_trip_iff 0x10#8 0x08#8 0x07#8 0x04#8 (by decide) (by decide +kernel)
    (by decide +kernel)).mpr ⟨by decide, .inl ⟨by decide, by decide +kernel⟩⟩

/-- The data byte 0xAA comes back as 0xA9, and the one behind a data byte 0xA9 does not come
back. -/
theorem escaped_bytes_lost :
    let c := SendCommand.new 0x10#8 0x08#8 0x07#8 0x04#8 0x01#8 [0xAA#8]
    let c' := SendCommand.new 0x10#8 0x08#8 0x07#8 0x04#8 0x02#8 [0xA9#8, 0x12#8]
    let t := (run Ebus.processReceivedChar listening
      (quiet (uartSendChar c.getQQ ++ uartSendRemainingRequestPart c))).receivingTelegram
    let t' := (run Ebus.processReceivedChar listening
      (quiet (uartSendChar c'.getQQ ++ uartSendRemainingRequestPart c'))).receivingTelegram
    (t.isRequestComplete = true ∧ t.getRequestByte 0 = 0xA9 ∧ t.isRequestValid = false) ∧
      (t'.isRequestComplete = true ∧ t'.getRequestByte 1 = 0x4A ∧ t'.isRequestValid = false) ∧
      ¬ t.Reports 0x10#8 0x08#8 0x07#8 0x04#8 [0xAA#8] ∧
      ¬ t'.Reports 0x10#8 0x08#8 0x07#8 0x04#8 [0xA9#8, 0x12#8] := by
  refine ⟨⟨by decide +kernel, by decide +kernel, by decide +kernel⟩,
    ⟨by decide +kernel, by decide +kernel, by decide +kernel⟩, ?_, ?_⟩
  · intro h
    exact absurd h.valid (by decide +kernel)
  · intro h
    exact absurd h.valid (by decide +kernel)

end EsphomeEbus.Zebus
