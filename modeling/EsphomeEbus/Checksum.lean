import EsphomeEbus.Library.CyclicCheck
import EsphomeEbus.Rolling
import Mathlib.Algebra.Field.ZMod
import Mathlib.Tactic.LinearCombination

/-!
# What the checksum finds

`crc8_calc` is one step of a cyclic check over the bits: its register holds the remainder of the
message modulo `x^8 + x^7 + x^4 + x^3 + x + 1`.  The loop does not append eight zero bits, so the
library's plain form is the one it computes.

* `wireBits`: bytes as bits, most significant first; `crcTurn`: the loop of `crc8_calc`, bit by bit;
* `register_crc8From`: the checksum is the remainder of the message polynomial; `crc8From_altered`:
  it is linear;
* `Detectable`: a burst of at most eight bits, or an odd number of bits;
* `altered_never_valid`: no such error leaves a valid request or response valid.
-/

namespace EsphomeEbus

open Elf CyclicCheck Polynomial

/-! ### Bits -/

/-- A bit as a number modulo 2. -/
def bit (b : Bool) : ZMod 2 := if b then 1 else 0

/-- The bits of a byte, most significant first. -/
def byteBits (b : Byte) : List Bool := (List.range 8).map b.getMsbD

/-- The bits of a list of bytes, in wire order. -/
def wireBits (l : List Byte) : List Bool := l.flatMap byteBits

theorem byteBits_length (b : Byte) : (byteBits b).length = 8 := rfl

theorem wireBits_append (l m : List Byte) : wireBits (l ++ m) = wireBits l ++ wireBits m :=
  List.flatMap_append

theorem wireBits_length (l : List Byte) : (wireBits l).length = 8 * l.length := by
  induction l with
  | nil => rfl
  | cons b l ih =>
    rw [wireBits, List.flatMap_cons, List.length_append, byteBits_length, ← wireBits, ih,
      List.length_cons]
    omega

theorem bit_xor : ∀ a b : Bool, bit (a ^^ b) = bit a + bit b := by decide

/-- The coefficients of a list of bytes. -/
def coeffs (l : List Byte) : List (ZMod 2) := (wireBits l).map bit

theorem coeffs_append (l m : List Byte) : coeffs (l ++ m) = coeffs l ++ coeffs m := by
  rw [coeffs, wireBits_append, List.map_append]
  rfl

theorem coeffs_length (l : List Byte) : (coeffs l).length = 8 * l.length := by
  rw [coeffs, List.length_map, wireBits_length]

/-- The bytes with the bits flipped that are set in the error. -/
def altered (l e : List Byte) : List Byte := List.zipWith (· ^^^ ·) l e

/-- Byte by byte, `^` is the sum of the coefficients. -/
theorem coeffs_altered {l e : List Byte} (h : l.length = e.length) :
    coeffs (altered l e) = List.zipWith (· + ·) (coeffs l) (coeffs e) := by
  induction l generalizing e with
  | nil => rfl
  | cons b l ih =>
    cases e with
    | nil => cases h
    | cons c e =>
      have hbyte : coeffs [b ^^^ c] = List.zipWith (· + ·) (coeffs [b]) (coeffs [c]) := by
        simp [coeffs, wireBits, byteBits, List.range_succ, bit_xor]
      have hsplit : ∀ (x : Byte) (xs : List Byte), coeffs (x :: xs) = coeffs [x] ++ coeffs xs :=
        fun x xs => coeffs_append [x] xs
      rw [altered, List.zipWith_cons_cons, hsplit, hsplit b, hsplit c, hbyte, ← altered,
        ih (Nat.succ.inj h),
        List.zipWith_append (by rw [coeffs_length, coeffs_length, List.length_singleton,
          List.length_singleton])]

/-! ### The loop of `crc8_calc` -/

/-- One turn of the loop: the register is shifted, the next bit of the data comes in below. -/
def crcTurn (crc : Byte) (b : Bool) : Byte := (crc8Bit (crc, if b then 0x80#8 else 0)).1

theorem crc8Bit_eq (crc data : Byte) :
    crc8Bit (crc, data) = (crcTurn crc (data.getMsbD 0), data <<< 1) := by
  have hmsb : data &&& 0x80#8 = 0#8 ↔ data.getMsbD 0 = false := by
    revert data
    decide +kernel
  cases h : data.getMsbD 0 with
  | true =>
    have hne : data &&& 0x80#8 ≠ 0#8 := by simp [hmsb, h]
    simp [crcTurn, crc8Bit, hne]
  | false => simp [crcTurn, crc8Bit, hmsb.mpr h]

theorem crc8Bit_iterate (crc data : Byte) (n : ℕ) : crc8Bit^[n] (crc, data) =
    (((List.range n).map data.getMsbD).foldl crcTurn crc, data <<< n) := by
  induction n with
  | zero => simp
  | succ n ih =>
    rw [Function.iterate_succ_apply', ih, crc8Bit_eq, List.range_succ, List.map_append,
      List.foldl_append]
    simp [BitVec.shiftLeft_add]

/-- **The checksum turns once for every bit.** -/
theorem crc8From_eq_foldl (crc : Byte) (l : List Byte) :
    crc8From crc l = (wireBits l).foldl crcTurn crc := by
  induction l generalizing crc with
  | nil => rfl
  | cons b l ih =>
    show _ = (byteBits b ++ wireBits l).foldl crcTurn crc
    rw [crc8From_cons, ih, crc8Calc, crc8Bit_iterate, List.foldl_append]
    rfl

/-! ### The register as a remainder -/

/-- `x^8` and the bits of 0x9B: the polynomial of the check. -/
noncomputable def crcPoly : (ZMod 2)[X] := ofCoeffs (1 :: coeffs [0x9B#8])

/-- A byte as a polynomial of degree less than 8. -/
noncomputable def register (b : Byte) : (ZMod 2)[X] := ofCoeffs (coeffs [b])

theorem crcPoly_eq : crcPoly = X ^ 8 + ofCoeffs (coeffs [0x9B#8]) := by
  rw [crcPoly, ofCoeffs_cons, C_1, one_mul, coeffs_length]
  rfl

theorem register_degree_lt (b : Byte) : (register b).degree < 8 := degree_ofCoeffs_lt _

theorem register_xor (a b : Byte) : register (a ^^^ b) = register a + register b := by
  have hxor : coeffs [a ^^^ b] = _ := coeffs_altered (l := [a]) (e := [b]) rfl
  rw [register, hxor, ofCoeffs_zipWith_add (by rw [coeffs_length, coeffs_length]; rfl)]
  rfl

theorem register_injective : Function.Injective register := by
  intro a b h
  have hsum : ofCoeffs (coeffs [a ^^^ b]) = 0 := by
    show register (a ^^^ b) = 0
    rw [register_xor, h, CharTwo.add_self_eq_zero]
  have hzero : ∀ x : Byte, (∀ c ∈ coeffs [x], c = 0) → x = 0 := by decide +kernel
  exact BitVec.xor_eq_zero_iff.mp (hzero _ ((ofCoeffs_eq_zero_iff _).mp hsum))

theorem crcPoly_monic : crcPoly.Monic := by
  rw [crcPoly_eq]
  exact monic_X_pow_add (register_degree_lt _)

theorem crcPoly_degree : crcPoly.degree = 8 := by
  rw [crcPoly_eq, degree_add_eq_left_of_degree_lt, degree_X_pow]
  · rfl
  · rw [degree_X_pow]
    exact register_degree_lt _

theorem crcPoly_natDegree : crcPoly.natDegree = 8 := natDegree_eq_of_degree_eq_some crcPoly_degree

theorem crcPoly_coeff_zero : IsUnit (crcPoly.coeff 0) := by
  rw [crcPoly, coeff_ofCoeffs]
  exact isUnit_one

theorem crcPoly_root : crcPoly.eval 1 = 0 := by
  rw [crcPoly, eval_one_ofCoeffs]
  decide

/-- The coefficients of the register after a turn, in terms of those before. -/
theorem coeffs_crcTurn : ∀ (crc : Byte) (b : Bool),
    (coeffs [crc]).tail ++ [bit b] = List.zipWith (· + ·) (coeffs [crcTurn crc b])
      ((coeffs [0x9B#8]).map ((coeffs [crc]).headD 0 * ·)) := by
  decide +kernel

/-- **A turn of the loop divides once.** -/
theorem register_crcTurn (crc : Byte) (b : Bool) :
    register (crcTurn crc b) = feed crcPoly (register crc) (bit b) := by
  have hlen : (coeffs [crc]).length = 8 := coeffs_length [crc]
  obtain ⟨c, rest, hcoeffs⟩ := List.exists_cons_of_length_eq_add_one hlen
  have hturn := coeffs_crcTurn crc b
  rw [hcoeffs, List.tail_cons, List.headD_cons] at hturn
  have hrest : rest.length = 7 := by
    rw [hcoeffs, List.length_cons] at hlen
    omega
  have hdivide : register (crcTurn crc b) + crcPoly * C c = X * register crc + C (bit b) := by
    have hsum := congrArg ofCoeffs hturn
    have hsame : (coeffs [crcTurn crc b]).length = ((coeffs [0x9B#8]).map (c * ·)).length := by
      rw [List.length_map, coeffs_length, coeffs_length]
      rfl
    rw [ofCoeffs_concat, ofCoeffs_zipWith_add hsame, ofCoeffs_map_mul] at hsum
    rw [crcPoly_eq, register, register, hcoeffs, ofCoeffs_cons, hrest]
    linear_combination -hsum
  exact ((div_modByMonic_unique (C c) _ crcPoly_monic
    ⟨hdivide, by rw [crcPoly_degree]; exact register_degree_lt _⟩).2).symm

theorem register_zero : register 0 = 0 := ofCoeffs_replicate_zero 8

theorem register_foldl (bs : List Bool) (crc : Byte) :
    register (bs.foldl crcTurn crc) = (bs.map bit).foldl (feed crcPoly) (register crc) := by
  induction bs generalizing crc with
  | nil => rw [List.foldl_nil, List.map_nil, List.foldl_nil]
  | cons b bs ih => rw [List.foldl_cons, ih, register_crcTurn, List.map_cons, List.foldl_cons]

/-- **The checksum is the remainder** of the message behind the register it started with. -/
theorem register_crc8From (crc : Byte) (l : List Byte) : register (crc8From crc l) =
    (X ^ (8 * l.length) * register crc + ofCoeffs (coeffs l)) %ₘ crcPoly := by
  have hself : register crc %ₘ crcPoly = register crc := by
    rw [modByMonic_eq_self_iff crcPoly_monic, crcPoly_degree]
    exact register_degree_lt crc
  have hfold := foldl_feed crcPoly_monic (register crc) (coeffs l)
  rw [hself, coeffs_length] at hfold
  rw [crc8From_eq_foldl, register_foldl, ← coeffs, hfold]

/-- A checked message is an accepted one. -/
theorem accepted_iff (l : List Byte) (crc : Byte) :
    Accepted crcPoly (coeffs l) (coeffs [crc]) ↔ crc = crc8From 0 l := by
  have hcrc := register_crc8From 0 l
  rw [register_zero, mul_zero, zero_add] at hcrc
  rw [Accepted, ← hcrc, ← register]
  exact register_injective.eq_iff.trans eq_comm

/-- **The checksum is linear**, in the message and the register it starts with. -/
theorem crc8From_altered (crc crc' : Byte) {l e : List Byte} (h : l.length = e.length) :
    crc8From (crc ^^^ crc') (altered l e) = crc8From crc l ^^^ crc8From crc' e := by
  apply register_injective
  have hlen : (altered l e).length = l.length := by
    rw [altered, List.length_zipWith, ← h, min_self]
  rw [register_xor, register_crc8From, register_crc8From, register_crc8From, register_xor, hlen,
    ← h, coeffs_altered h, ofCoeffs_zipWith_add (by rw [coeffs_length, coeffs_length, h]),
    ← add_modByMonic]
  congr 1
  ring

theorem crc8From_zeros (n : ℕ) : crc8From 0 (List.replicate n 0) = 0 := by
  have hzero : crc8Calc 0 0 = 0 := by decide
  induction n with
  | zero => rfl
  | succ n ih => rw [List.replicate_succ, crc8From_cons, hzero, ih]

theorem altered_zero (l : List Byte) : altered l (List.replicate l.length 0) = l := by
  induction l with
  | nil => rfl
  | cons b l ih =>
    rw [List.length_cons, List.replicate_succ, altered, List.zipWith_cons_cons, ← altered, ih]
    exact congrArg (· :: l) BitVec.xor_zero

/-- The register has its part in the checksum, the message has its own. -/
theorem crc8From_eq_xor (crc : Byte) (l : List Byte) :
    crc8From crc l = crc8From 0 l ^^^ crc8From crc (List.replicate l.length 0) := by
  have hlinear := crc8From_altered 0 crc (l := l) (e := List.replicate l.length 0)
    List.length_replicate.symm
  rw [altered_zero] at hlinear
  rw [← hlinear]
  exact congrArg (crc8From · l) BitVec.zero_xor.symm

/-- **The checksum of one list behind a register** determines that of any longer list behind it. -/
theorem crc8From_longer (crc : Byte) {l m : List Byte} {n : ℕ} (h : m.length = l.length + n) :
    crc8From crc m =
      crc8From 0 m ^^^ crc8From (crc8From crc l ^^^ crc8From 0 l) (List.replicate n 0) := by
  have hzeros : crc8From crc l ^^^ crc8From 0 l = crc8From crc (List.replicate l.length 0) := by
    rw [crc8From_eq_xor crc l, BitVec.xor_comm, ← BitVec.xor_assoc, BitVec.xor_self,
      BitVec.zero_xor]
  rw [crc8From_eq_xor crc m, h, List.replicate_add, crc8From_append, hzeros]

/-- Different registers have different checksums behind them. -/
theorem crc8From_injective (l : List Byte) : Function.Injective (crc8From · l) := by
  have hzero : ∀ c : Byte, crc8Calc 0 c = 0 → c = 0 := by decide +kernel
  have hbyte : ∀ b c c' : Byte, crc8Calc b c = crc8Calc b c' → c = c' := by
    intro b c c' h
    have hlinear : crc8Calc (b ^^^ b) (c ^^^ c') = crc8Calc b c ^^^ crc8Calc b c' :=
      crc8From_altered c c' (l := [b]) (e := [b]) rfl
    rw [h, BitVec.xor_self, BitVec.xor_self] at hlinear
    exact BitVec.xor_eq_zero_iff.mp (hzero _ hlinear)
  induction l with
  | nil => exact Function.injective_id
  | cons b l ih => exact fun c c' h => hbyte b c c' (ih h)

/-! ### Errors -/

/-- Bits are set in the error, all of them within eight consecutive places. -/
def IsBurst (e : List Byte) : Prop :=
  ∃ i bs j, wireBits e = List.replicate i false ++ bs ++ List.replicate j false ∧
    bs.length ≤ 8 ∧ true ∈ bs

/-- The error is a burst of at most eight bits, or has an odd number of bits. -/
def Detectable (e : List Byte) : Prop := IsBurst e ∨ (wireBits e).count true % 2 = 1

theorem sum_map_bit (bs : List Bool) : (bs.map bit).sum = (bs.count true : ZMod 2) := by
  induction bs with
  | nil => rfl
  | cons b bs ih =>
    rw [List.map_cons, List.sum_cons, ih, List.count_cons, Nat.cast_add, add_comm]
    cases b with
    | true => rfl
    | false => rfl

/-- **No detectable error is accepted.** -/
theorem Detectable.not_accepted {e : List Byte} {f : Byte} (h : Detectable (e ++ [f])) :
    ¬ Accepted crcPoly (coeffs e) (coeffs [f]) := by
  intro haccepted
  rcases h with ⟨i, bs, j, heq, hlen, hmem⟩ | hodd
  · refine not_accepted_of_burst crcPoly_monic crcPoly_coeff_zero ?_ ?_ haccepted
    · rw [crcPoly_natDegree, coeffs_length]
      rfl
    · refine ⟨i, bs.map bit, j, ?_, ?_, bit true, List.mem_map_of_mem hmem, by decide⟩
      · rw [← coeffs_append, coeffs, heq, List.map_append, List.map_append, List.map_replicate,
          List.map_replicate]
        rfl
      · rwa [crcPoly_natDegree, List.length_map]
  · have hsum := sum_eq_of_accepted crcPoly_root haccepted
    have htotal : ((wireBits (e ++ [f])).count true : ZMod 2) = 0 := by
      rw [← sum_map_bit, ← coeffs, coeffs_append, List.sum_append, hsum, CharTwo.add_self_eq_zero]
    rw [ZMod.natCast_eq_zero_iff] at htotal
    omega

/-- An error that leaves the length byte alone leaves a frame complete, and one that is detectable
does not leave it checked. -/
theorem altered_complete_not_checked {h : ℕ} (hh : 0 < h) {l e : List Byte}
    (hlen : e.length = l.length) (hc : Complete h l) (hchecked : Checked h l)
    (hnn : e.getD (h - 1) 0 = 0) (he : Detectable e) :
    Complete h (altered l e) ∧ ¬ Checked h (altered l e) := by
  have hlength : l.length = h + announced h l + 1 := hc
  have haltered : (altered l e).length = l.length := by
    rw [altered, List.length_zipWith, hlen, min_self]
  have hsame : announced h (altered l e) = announced h l := by
    have hcell : (altered l e).getD (h - 1) 0 = l.getD (h - 1) 0 := by
      rw [List.getD_eq_getElem _ _ (by omega)] at hnn
      rw [List.getD_eq_getElem _ _ (by omega), List.getD_eq_getElem _ _ (by omega)]
      simp only [altered, List.getElem_zipWith, hnn]
      exact BitVec.xor_zero
    rw [announced, hcell, announced]
  have hcomplete : Complete h (altered l e) := by
    unfold Complete
    rw [haltered, hsame, hlength]
  refine ⟨hcomplete, ?_⟩
  rcases List.eq_nil_or_concat' l with rfl | ⟨d, c, rfl⟩
  · cases hlength
  rcases List.eq_nil_or_concat' e with rfl | ⟨ed, f, rfl⟩
  · simp at hlen
  have hd : d.length = ed.length := by simpa using hlen.symm
  have hconcat : altered (d ++ [c]) (ed ++ [f]) = altered d ed ++ [c ^^^ f] := by
    rw [altered, List.zipWith_append hd]
    rfl
  rw [checked_concat_iff hc, ← accepted_iff] at hchecked
  rw [hconcat] at hcomplete ⊢
  rw [checked_concat_iff hcomplete, ← accepted_iff]
  intro haltered
  have hcheck : coeffs [c ^^^ f] = _ := coeffs_altered (l := [c]) (e := [f]) rfl
  rw [coeffs_altered hd, hcheck] at haltered
  refine he.not_accepted (hchecked.error ?_ ?_ haltered)
  · rw [coeffs_length, coeffs_length, hd]
  · rw [coeffs_length, coeffs_length]
    rfl

/-! ### Telegrams -/

namespace Telegram

variable {t : Telegram}

theorem foldl_pushReqData (t : Telegram) (l : List Byte) : l.foldl pushReqData t =
    { t with request := l.foldl (RollingBuffer.pushRolling offsetData) t.request } := by
  induction l generalizing t with
  | nil => rfl
  | cons x l ih =>
    rw [List.foldl_cons, ih]
    rfl

theorem foldl_pushResponseData (t : Telegram) (l : List Byte) : l.foldl pushResponseData t =
    { t with response := l.foldl (RollingBuffer.pushRolling responseOffset) t.response } := by
  induction l generalizing t with
  | nil => rfl
  | cons x l ih =>
    rw [List.foldl_cons, ih]
    rfl

/-- The completeness of a request, in terms of the bytes pushed to a fresh buffer. -/
theorem isRequestComplete_foldl (ht : t.request = new.request) (l : List Byte) :
    (l.foldl pushReqData t).isRequestComplete = true ↔
      t.Underway ∧ Complete offsetData l ∧ t.waitForEscapedChar = false := by
  rw [isRequestComplete_iff_inPlace, ← RollingBuffer.inPlace_iff requestShape, foldl_pushReqData,
    ht]
  exact Iff.rfl

theorem isResponseComplete_foldl (ht : t.response = new.response) (l : List Byte) :
    (l.foldl pushResponseData t).isResponseComplete = true ↔
      t.Underway ∧ Complete responseOffset l ∧ t.waitForEscapedChar = false := by
  rw [isResponseComplete_iff_inPlace, ← RollingBuffer.inPlace_iff responseShape,
    foldl_pushResponseData, ht]
  exact Iff.rfl

/-- A complete request is valid if and only if it is checked. -/
theorem isRequestValid_foldl (ht : t.request = new.request) (l : List Byte) :
    (l.foldl pushReqData t).isRequestValid = true ↔
      (l.foldl pushReqData t).isRequestComplete = true ∧ Checked offsetData l := by
  rw [isRequestValid, Bool.and_eq_true, decide_eq_true_eq]
  refine and_congr_right fun hcomplete => ?_
  have hc := ((isRequestComplete_foldl ht l).mp hcomplete).2.1
  rw [← RollingBuffer.checked_pushed requestShape hc, foldl_pushReqData, ht]
  exact Iff.rfl

theorem isResponseValid_foldl (ht : t.response = new.response) (l : List Byte) :
    (l.foldl pushResponseData t).isResponseValid = true ↔
      (l.foldl pushResponseData t).isResponseComplete = true ∧ Checked responseOffset l := by
  rw [isResponseValid, Bool.and_eq_true, decide_eq_true_eq]
  refine and_congr_right fun hcomplete => ?_
  have hc := ((isResponseComplete_foldl ht l).mp hcomplete).2.1
  rw [← RollingBuffer.checked_pushed responseShape hc, foldl_pushResponseData, ht]
  exact Iff.rfl

/-- **What the checksum finds.**  Take any bytes that make a request, or a response, complete and
valid in a telegram that has not received one before.  With any detectable error in them that spares
the length byte, it is complete and not valid. -/
theorem altered_never_valid {l e : List Byte} (hlen : e.length = l.length) (he : Detectable e) :
    (∀ t : Telegram, t.request = new.request → e.getD offsetNn 0 = 0 →
        (l.foldl pushReqData t).isRequestValid = true →
        ((altered l e).foldl pushReqData t).isRequestComplete = true ∧
          ((altered l e).foldl pushReqData t).isRequestValid = false) ∧
      ∀ t : Telegram, t.response = new.response → e.getD 0 0 = 0 →
        (l.foldl pushResponseData t).isResponseValid = true →
        ((altered l e).foldl pushResponseData t).isResponseComplete = true ∧
          ((altered l e).foldl pushResponseData t).isResponseValid = false := by
  constructor
  · intro t ht hnn hvalid
    rw [isRequestValid_foldl ht, isRequestComplete_foldl ht] at hvalid
    obtain ⟨⟨hu, hc, hescaped⟩, hchecked⟩ := hvalid
    have herror := altered_complete_not_checked offsetData_pos hlen hc hchecked hnn he
    rw [← Bool.not_eq_true, isRequestValid_foldl ht, isRequestComplete_foldl ht]
    exact ⟨⟨hu, herror.1, hescaped⟩, fun h => herror.2 h.2⟩
  · intro t ht hnn hvalid
    rw [isResponseValid_foldl ht, isResponseComplete_foldl ht] at hvalid
    obtain ⟨⟨hu, hc, hescaped⟩, hchecked⟩ := hvalid
    have herror := altered_complete_not_checked responseOffset_pos hlen hc hchecked hnn he
    rw [← Bool.not_eq_true, isResponseValid_foldl ht, isResponseComplete_foldl ht]
    exact ⟨⟨hu, herror.1, hescaped⟩, fun h => herror.2 h.2⟩

/-- A broadcast with the last bit of ZZ and the first of PB flipped. -/
theorem burst_in_broadcast :
    let l := [0x10#8, 0xFE#8, 0x07#8, 0x00#8, 0x00#8, 0x13#8]
    let e := [0x00#8, 0x01#8, 0x80#8, 0x00#8, 0x00#8, 0x00#8]
    let t := new.setState .waitForRequestData
    ((altered l e).foldl pushReqData t).isRequestComplete = true ∧
      ((altered l e).foldl pushReqData t).isRequestValid = false := by
  intro l e t
  have hburst : IsBurst e := ⟨15, [true, true], 31, by decide, by decide, by decide⟩
  exact (altered_never_valid (l := l) (e := e) rfl (.inl hburst)).1 t rfl rfl (by decide +kernel)

end Telegram

end EsphomeEbus
