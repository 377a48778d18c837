import EsphomeEbus.Rolling

/-!
# What the legacy buffer holds

The legacy `pushBuffer` decodes escape pairs in the buffer itself.  An ESC gets a cell like any
byte; the byte after it gets none: what the pair stands for is written behind the ESC, where the
next push overwrites it.  This file says what a list of pushes leaves in the buffer.

* `Cells`: the bytes with a cell of their own, the value written behind them, and the second bytes
  of pairs; `cells`: those of a list of pushes;
* `Stores`, `stores_pushedLegacy`: the buffer holds these cells;
* `cells_encodeAll`: the wire form of a list of values, with `readBack` of each value in its cell;
* `crc_of_room`, `crc_of_full`: which pushes the checksum folds.
-/

namespace EsphomeEbus.Zebus

open Stuffing EsphomeEbus.Elf

/-! ### The cells of a list of pushes -/

/-- The bytes with a cell, the value in the cell behind them if the last push was the second byte of
a pair, the second bytes so far, and whether a pair is open. -/
structure Cells where
  kept : List Byte := []
  overlay : List Byte := []
  dropped : List Byte := []
  pending : Bool := false
  deriving DecidableEq, Repr

/-- The value written for the second byte of a pair. -/
def pairValue (b : Byte) : Byte := if b = 0x00#8 then esc else syn

namespace Cells

def push (c : Cells) (b : Byte) : Cells :=
  if c.pending then ⟨c.kept, [pairValue b], c.dropped ++ [b], false⟩
  else ⟨c.kept ++ [b], [], c.dropped, b = esc⟩

def pushAll (c : Cells) (l : List Byte) : Cells := l.foldl push c

/-- All that is in the buffer. -/
def stored (c : Cells) : List Byte := c.kept ++ c.overlay

variable {c : Cells}

theorem push_pending (h : c.pending = true) (b : Byte) :
    c.push b = ⟨c.kept, [pairValue b], c.dropped ++ [b], false⟩ := if_pos h

theorem push_plain (h : c.pending = false) (b : Byte) :
    c.push b = ⟨c.kept ++ [b], [], c.dropped, b = esc⟩ := if_neg (by rw [h]; decide)

theorem pushAll_append (c : Cells) (l m : List Byte) :
    c.pushAll (l ++ m) = (c.pushAll l).pushAll m := List.foldl_append

theorem pushAll_concat (c : Cells) (l : List Byte) (b : Byte) :
    c.pushAll (l ++ [b]) = (c.pushAll l).push b := c.pushAll_append l [b]

theorem kept_prefix_push (c : Cells) (b : Byte) : c.kept <+: (c.push b).kept := by
  cases h : c.pending with
  | true => rw [push_pending h]
  | false =>
    rw [push_plain h]
    exact List.prefix_append _ _

/-- What has a cell keeps it. -/
theorem kept_prefix_pushAll (c : Cells) (l : List Byte) : c.kept <+: (c.pushAll l).kept := by
  induction l generalizing c with
  | nil => exact List.prefix_rfl
  | cons b l ih => exact (c.kept_prefix_push b).trans (ih (c.push b))

theorem dropped_prefix_pushAll (c : Cells) (l : List Byte) :
    c.dropped <+: (c.pushAll l).dropped := by
  induction l generalizing c with
  | nil => exact List.prefix_rfl
  | cons b l ih =>
    refine List.IsPrefix.trans ?_ (ih (c.push b))
    cases h : c.pending with
    | true =>
      rw [push_pending h]
      exact List.prefix_append _ _
    | false => rw [push_plain h]

/-- Cells that are there already have no say in what follows. -/
theorem pushAll_shift (kept overlay dropped : List Byte) (pending : Bool) (l : List Byte) :
    ((⟨kept, overlay, dropped, pending⟩ : Cells).pushAll l).kept =
        kept ++ (({ pending := pending } : Cells).pushAll l).kept ∧
      ((⟨kept, overlay, dropped, pending⟩ : Cells).pushAll l).dropped =
        dropped ++ (({ pending := pending } : Cells).pushAll l).dropped ∧
      ((⟨kept, overlay, dropped, pending⟩ : Cells).pushAll l).pending =
        (({ pending := pending } : Cells).pushAll l).pending := by
  induction l using List.reverseRecOn with
  | nil => simp [pushAll]
  | append_singleton l b ih =>
    obtain ⟨hkept, hdropped, hpending⟩ := ih
    rw [pushAll_concat, pushAll_concat]
    cases h : (({ pending := pending } : Cells).pushAll l).pending with
    | true =>
      rw [h] at hpending
      rw [push_pending hpending, push_pending h, hkept, hdropped, List.append_assoc]
      exact ⟨rfl, rfl, rfl⟩
    | false =>
      rw [h] at hpending
      rw [push_plain hpending, push_plain h, hkept, hdropped, List.append_assoc]
      exact ⟨rfl, rfl, rfl⟩

end Cells

/-- The cells of a list of pushes to a fresh buffer. -/
def cells (l : List Byte) : Cells := ({} : Cells).pushAll l

variable {l : List Byte}

theorem cells_concat (l : List Byte) (b : Byte) : cells (l ++ [b]) = (cells l).push b :=
  Cells.pushAll_concat _ l b

theorem cells_append (l m : List Byte) : cells (l ++ m) = (cells l).pushAll m :=
  Cells.pushAll_append _ l m

/-- Every byte pushed is kept or dropped. -/
theorem count_cells (v : Byte) (l : List Byte) :
    l.count v = (cells l).kept.count v + (cells l).dropped.count v := by
  induction l using List.reverseRecOn with
  | nil => rfl
  | append_singleton l b ih =>
    rw [cells_concat, List.count_append, ih]
    cases h : (cells l).pending with
    | true =>
      rw [Cells.push_pending h, List.count_append, Nat.add_assoc]
    | false =>
      rw [Cells.push_plain h, List.count_append, Nat.add_right_comm]

theorem length_cells (l : List Byte) :
    l.length = (cells l).kept.length + (cells l).dropped.length := by
  induction l using List.reverseRecOn with
  | nil => rfl
  | append_singleton l b ih =>
    rw [cells_concat, List.length_append, ih]
    cases h : (cells l).pending with
    | true =>
      rw [Cells.push_pending h, List.length_append, Nat.add_assoc]
    | false =>
      rw [Cells.push_plain h, List.length_append, Nat.add_right_comm]

/-- A byte is dropped only behind an ESC that is kept. -/
theorem dropped_le_kept (l : List Byte) :
    (cells l).dropped.length + (cells l).pending.toNat ≤ (cells l).kept.length := by
  induction l using List.reverseRecOn with
  | nil => exact Nat.le_refl 0
  | append_singleton l b ih =>
    rw [cells_concat]
    cases h : (cells l).pending with
    | true =>
      rw [h] at ih
      rw [Cells.push_pending h, List.length_append]
      exact ih
    | false =>
      rw [h] at ih
      have hle := (decide (b = esc)).toNat_le
      rw [Cells.push_plain h, List.length_append, List.length_singleton]
      simp only [Bool.toNat_false] at ih ⊢
      omega

/-- Without ESC every byte has its cell. -/
theorem cells_of_plain (h : esc ∉ l) : cells l = ⟨l, [], [], false⟩ := by
  induction l using List.reverseRecOn with
  | nil => rfl
  | append_singleton l b ih =>
    rw [List.mem_append, List.mem_singleton, not_or] at h
    rw [cells_concat, ih h.1, Cells.push_plain rfl, decide_eq_false (Ne.symm h.2)]

theorem cells_esc (h : esc ∉ l) : cells (l ++ [esc]) = ⟨l ++ [esc], [], [], true⟩ := by
  rw [cells_concat, cells_of_plain h]
  rfl

/-- The byte behind the first ESC has no cell, and what follows is as in a fresh buffer. -/
theorem cells_behind_esc (h : esc ∉ l) (x : Byte) (m : List Byte) :
    (cells (l ++ esc :: x :: m)).kept = l ++ esc :: (cells m).kept ∧
      (cells (l ++ esc :: x :: m)).dropped = x :: (cells m).dropped ∧
      (cells (l ++ esc :: x :: m)).pending = (cells m).pending := by
  have hsplit : l ++ esc :: x :: m = (l ++ [esc] ++ [x]) ++ m := by simp
  have hshift := Cells.pushAll_shift (l ++ [esc]) [pairValue x] [x] false m
  rw [hsplit, cells_append, cells_concat, cells_esc h, Cells.push_pending rfl]
  rw [List.append_assoc] at hshift
  exact hshift

/-- What is in the buffer once another byte is pushed. -/
theorem stored_concat (l : List Byte) (k : Byte) : (cells (l ++ [k])).stored =
    (cells l).kept ++ [if (cells l).pending then pairValue k else k] := by
  rw [cells_concat]
  cases h : (cells l).pending with
  | true => rw [Cells.push_pending h]; rfl
  | false => rw [Cells.push_plain h]; exact List.append_nil _

/-- The kept bytes are bytes that were pushed. -/
theorem mem_of_mem_kept {b : Byte} (h : b ∈ (cells l).kept) : b ∈ l := by
  have hcount := count_cells b l
  have hpos := List.count_pos_iff.mpr h
  exact List.count_pos_iff.mp (by omega)

/-! ### The wire form of a list of values -/

/-- What the cell of a value holds after its wire form: SYN is taken for the ESC its pair starts
with. -/
def readBack (v : Byte) : Byte := if v = syn then esc else v

theorem readBack_of_ne {v : Byte} (h : v ≠ syn) : readBack v = v := if_neg h

theorem readBack_ne_syn (v : Byte) : readBack v ≠ syn := by
  unfold readBack
  split
  · decide
  · assumption

/-- The wire form of a value starts with the byte that gets the cell. -/
theorem encode_eq (v : Byte) : wire.encode v = [readBack v] ∧ readBack v ≠ esc ∨
    ∃ mark, wire.encode v = [esc, mark] ∧ readBack v = esc := by
  by_cases hsyn : v = syn
  · subst hsyn
    exact .inr ⟨_, rfl, rfl⟩
  · rw [readBack_of_ne hsyn]
    by_cases hesc : v = esc
    · subst hesc
      exact .inr ⟨_, rfl, rfl⟩
    · refine .inl ⟨wire.encode_of_mark_none ?_, hesc⟩
      simp [wire, hesc, hsyn]

theorem pushAll_encode {c : Cells} (h : c.pending = false) (v : Byte) :
    (c.pushAll (wire.encode v)).kept = c.kept ++ [readBack v] ∧
      (c.pushAll (wire.encode v)).pending = false := by
  rcases encode_eq v with ⟨heq, hne⟩ | ⟨mark, heq, hesc⟩
  · rw [heq]
    show (c.push (readBack v)).kept = _ ∧ (c.push (readBack v)).pending = false
    rw [Cells.push_plain h]
    exact ⟨rfl, decide_eq_false hne⟩
  · rw [heq, hesc]
    show ((c.push esc).push mark).kept = _ ∧ ((c.push esc).push mark).pending = false
    rw [Cells.push_plain h, Cells.push_pending rfl]
    exact ⟨rfl, rfl⟩

/-- **A list of values is read back** one cell a value. -/
theorem cells_encodeAll (vs : List Byte) : (cells (wire.encodeAll vs)).kept = vs.map readBack ∧
    (cells (wire.encodeAll vs)).pending = false := by
  induction vs using List.reverseRecOn with
  | nil => exact ⟨rfl, rfl⟩
  | append_singleton vs v ih =>
    have hstep := pushAll_encode ih.2 v
    rw [wire.encodeAll_append, cells_append, wire.encodeAll_cons, wire.encodeAll_nil,
      List.append_nil, List.map_append, ← ih.1]
    exact hstep

theorem encodeAll_of_plain {vs : List Byte} (hesc : esc ∉ vs) (hsyn : syn ∉ vs) :
    wire.encodeAll vs = vs := by
  induction vs with
  | nil => rfl
  | cons v vs ih =>
    rw [List.mem_cons, not_or] at hesc hsyn
    have hmark : wire.mark v = none := by simp [wire, Ne.symm hesc.1, Ne.symm hsyn.1]
    rw [wire.encodeAll_cons, wire.encode_of_mark_none hmark, ih hesc.2 hsyn.2]
    rfl

/-! ### The buffer -/

variable {size h : ℕ} {initializer : List Byte} {b : RollingBuffer size} {c : Cells}

/-- The buffer, started from `initializer`, holds the cells. -/
structure Stores (initializer : List Byte) (c : Cells) (b : RollingBuffer size) : Prop where
  pos_eq : b.pos = c.kept.length
  get_eq : ∀ i, i < size → b.get i = c.stored.getD i (initializer.getD i 0)
  overlay_le : c.overlay.length ≤ 1

/-- A push of the legacy implementation, with the limit that the length cell gives. -/
def pushLegacy (h : ℕ) (s : RollingBuffer size × Bool) (x : Byte) : RollingBuffer size × Bool :=
  pushBuffer s.2 x s.1 (h + s.1.announces h)

/-- A write at the position. -/
theorem get_setIfInBounds (b : RollingBuffer size) (x : Byte) {i : ℕ} (hi : i < size) :
    (b.buffer.setIfInBounds b.pos x).toList.getD i 0 = if i = b.pos then x else b.get i :=
  RollingBuffer.get_pushBuffer_of_lt x b 0 hi

/-- **A push to the buffer is a push to the cells.** -/
theorem Stores.push (hb : Stores initializer c b) (x : Byte) (maxPos : ℕ) :
    Stores initializer (c.push x) (pushBuffer c.pending x b maxPos).1 ∧
      (pushBuffer c.pending x b maxPos).2 = (c.push x).pending := by
  have hoverlay := hb.overlay_le
  have hget : ∀ (overlay : List Byte) (i : ℕ), overlay.length ≤ 1 → i ≠ b.pos →
      (c.kept ++ overlay).getD i (initializer.getD i 0) = c.kept.getD i (initializer.getD i 0) := by
    intro overlay i hle hne
    rw [hb.pos_eq] at hne
    rcases Nat.lt_or_gt_of_ne hne with hlt | hgt
    · rw [List.getD_append _ _ _ _ hlt]
    · have hlen : (c.kept ++ overlay).length ≤ i := by
        rw [List.length_append]
        omega
      rw [List.getD_eq_default _ _ hlen, List.getD_eq_default c.kept _ (by omega)]
  have hat : ∀ y : Byte, (c.kept ++ [y]).getD b.pos (initializer.getD b.pos 0) = y := by
    intro y
    rw [hb.pos_eq, List.getD_append_right _ _ _ _ (Nat.le_refl _), Nat.sub_self]
    rfl
  have hcells : ∀ (y : Byte) (i : ℕ), i < size →
      (b.buffer.setIfInBounds b.pos y).toList.getD i 0 =
        (c.kept ++ [y]).getD i (initializer.getD i 0) := by
    intro y i hi
    rw [get_setIfInBounds b y hi]
    by_cases hne : i = b.pos
    · rw [if_pos hne, hne, hat]
    · rw [if_neg hne, hb.get_eq i hi, Cells.stored, hget _ i hoverlay hne,
        hget [y] i (Nat.le_refl 1) hne]
  cases hp : c.pending with
  | true =>
    rw [Cells.push_pending hp]
    exact ⟨⟨hb.pos_eq, fun i hi => hcells _ i hi, Nat.le_refl 1⟩, rfl⟩
  | false =>
    rw [Cells.push_plain hp]
    refine ⟨⟨?_, fun i hi => ?_, Nat.zero_le 1⟩, rfl⟩
    · rw [List.length_append, ← hb.pos_eq]
      rfl
    · rw [Cells.stored, List.append_nil]
      exact hcells x i hi

/-- A fresh buffer after a list of pushes. -/
def pushedLegacy (h : ℕ) (initializer l : List Byte) : RollingBuffer size × Bool :=
  l.foldl (pushLegacy h) (.fresh initializer, false)

theorem pushedLegacy_concat (l : List Byte) (x : Byte) :
    (pushedLegacy h initializer (l ++ [x]) : RollingBuffer size × Bool) =
      pushLegacy h (pushedLegacy h initializer l) x := by
  rw [pushedLegacy, List.foldl_append]
  rfl

/-- **The buffer holds the cells of what was pushed.** -/
theorem stores_pushedLegacy (hlen : initializer.length ≤ size) (l : List Byte) :
    Stores initializer (cells l) (pushedLegacy h initializer l : RollingBuffer size × Bool).1 ∧
      (pushedLegacy h initializer l : RollingBuffer size × Bool).2 = (cells l).pending := by
  induction l using List.reverseRecOn with
  | nil => exact ⟨⟨rfl, fun i _ => RollingBuffer.get_fresh hlen i, Nat.zero_le 1⟩, rfl⟩
  | append_singleton l x ih =>
    rw [pushedLegacy_concat, cells_concat, pushLegacy, ih.2]
    exact ih.1.push x _

/-! ### The checksum -/

/-- What the length cell announces, once it is written for good. -/
theorem Stores.announces_eq (hb : Stores initializer c b) (hh : 0 < h) (hsize : h ≤ size)
    (hcell : h - 1 < c.kept.length) :
    b.announces h = (clipNn (c.kept.getD (h - 1) 0)).toNat := by
  rw [RollingBuffer.announces, hb.get_eq _ (by omega), Cells.stored, List.getD_append _ _ _ _ hcell,
    List.getD_eq_getElem _ _ hcell, List.getD_eq_getElem _ _ hcell]

/-- A push before the limit is folded into the checksum, and one behind it is not. -/
theorem crc_pushBuffer (pending : Bool) (x : Byte) (b : RollingBuffer size) (maxPos : ℕ) :
    (pushBuffer pending x b maxPos).1.crc =
      if b.pos < maxPos then EsphomeEbus.Elf.crc8Calc x b.crc else b.crc := by
  unfold pushBuffer
  split
  · rfl
  · rfl

section Checksum

variable (hh : 0 < h) (hsize : h ≤ size) (hlen : initializer.length ≤ size) {m : ℕ}
include hh hsize hlen

/-- **What the checksum folds.**  Every byte pushed while there is room for `m` data bytes, if that
is what the length cell announces once it is written. -/
theorem crc_of_room (hcell : h - 1 < (cells l).kept.length →
      (clipNn ((cells l).kept.getD (h - 1) 0)).toNat = m)
    (hroom : ∀ u x, u ++ [x] <+: l → (cells u).kept.length < h + m) :
    (pushedLegacy h initializer l : RollingBuffer size × Bool).1.crc = crc8From 0 l := by
  induction l using List.reverseRecOn with
  | nil => rfl
  | append_singleton l x ih =>
    have hstart : (cells l).kept <+: (cells (l ++ [x])).kept := by
      rw [cells_concat]
      exact (cells l).kept_prefix_push x
    have hcell' : h - 1 < (cells l).kept.length →
        (clipNn ((cells l).kept.getD (h - 1) 0)).toNat = m := by
      intro hlt
      obtain ⟨rest, hrest⟩ := hstart
      have hwritten := hcell (by rw [← hrest, List.length_append]; omega)
      rwa [← hrest, List.getD_append _ _ _ _ hlt] at hwritten
    have hbefore := ih hcell' fun u y hu => hroom u y (hu.trans (List.prefix_append l [x]))
    have hstores := (stores_pushedLegacy (h := h) hlen l).1
    have hfolds : (pushedLegacy h initializer l : RollingBuffer size × Bool).1.pos <
        h + (pushedLegacy h initializer l : RollingBuffer size × Bool).1.announces h := by
      rw [hstores.pos_eq]
      rcases Nat.lt_or_ge (h - 1) (cells l).kept.length with hlt | hge
      · rw [hstores.announces_eq hh hsize hlt, hcell' hlt]
        exact hroom l x List.prefix_rfl
      · omega
    rw [pushedLegacy_concat, pushLegacy, crc_pushBuffer, if_pos hfolds, hbefore, crc8From_append]
    rfl

/-- Once the data bytes are there nothing is folded any more. -/
theorem crc_of_full (k : List Byte) (hcell : (clipNn ((cells l).kept.getD (h - 1) 0)).toNat = m)
    (hfull : h + m ≤ (cells l).kept.length) :
    (pushedLegacy h initializer (l ++ k) : RollingBuffer size × Bool).1.crc =
      (pushedLegacy h initializer l : RollingBuffer size × Bool).1.crc := by
  induction k using List.reverseRecOn with
  | nil => rw [List.append_nil]
  | append_singleton k x ih =>
    have hstores := (stores_pushedLegacy (h := h) hlen (l ++ k)).1
    obtain ⟨rest, hrest⟩ := (cells l).kept_prefix_pushAll k
    rw [← cells_append] at hrest
    have hlt : h - 1 < (cells (l ++ k)).kept.length := by
      rw [← hrest, List.length_append]
      omega
    have hannounces := hstores.announces_eq hh hsize hlt
    rw [← hrest, List.getD_append _ _ _ _ (by omega), hcell] at hannounces
    rw [← List.append_assoc, pushedLegacy_concat, pushLegacy, crc_pushBuffer, if_neg, ih]
    rw [hannounces, hstores.pos_eq, ← hrest, List.length_append]
    omega

end Checksum

end EsphomeEbus.Zebus
