import EsphomeEbus.Zebus.Cells

/-!
# Bytes that survive the legacy buffer

A byte behind an ESC loses its cell, so everything after it moves one cell to the front.  What is
read out is still what was written only if the bytes repeat in a certain way: the bytes behind the
first ESC are the cells that they leave, followed by one more byte and by the zeros behind the end.
This file finds all such lists.

* `shown`: what is read out of the cells of a list; `Repeats`: it is the list itself;
* `Repeats.plain`: if it does not start with ESC, all its bytes are the same;
* `word`, `Repeats.eq_word`: if it does, it is `ESC`, `ESC 0`, `ESC 0 0`, ... in a row;
* `Repeats.cases`: the lists that fit into a request.
-/

namespace EsphomeEbus.Zebus

open EsphomeEbus.Elf

/-- What is read out of the cells of `l`: the bytes with a cell, `z` in the cell behind them, and a
zero for every byte without a cell. -/
def shown (l : List Byte) (z : Byte) : List Byte :=
  (cells l).kept ++ z :: List.replicate (cells l).dropped.length 0

/-- Behind an ESC the list `x :: l` is pushed, `x` as the second byte of the pair, and it is what is
read out of the cells of `l`. -/
def Repeats (x : Byte) (l : List Byte) (z : Byte) : Prop := x :: l = shown l z

instance (x : Byte) (l : List Byte) (z : Byte) : Decidable (Repeats x l z) :=
  inferInstanceAs (Decidable (_ = _))

variable {x z : Byte} {l : List Byte}

/-! ### Lists that start with another byte -/

/-- A list that is moved by one and stays the same holds one byte only. -/
theorem eq_replicate_of_cons_eq_concat (h : x :: l = l ++ [z]) :
    l = List.replicate l.length x ∧ z = x := by
  induction l generalizing x with
  | nil => exact ⟨rfl, (List.cons.inj h).1.symm⟩
  | cons y l ih =>
    obtain ⟨rfl, hrest⟩ := List.cons.inj h
    obtain ⟨hl, hz⟩ := ih hrest
    refine ⟨?_, hz⟩
    rw [List.length_cons, List.replicate_succ, ← hl]

theorem Repeats.kept_prefix (h : Repeats x l z) : (cells l).kept <+: x :: l := by
  rw [h]
  exact List.prefix_append _ _

/-- No ESC comes up behind another byte. -/
theorem Repeats.esc_not_mem (h : Repeats x l z) (hx : x ≠ esc) : esc ∉ l := by
  intro hmem
  obtain ⟨u, r, rfl, hu⟩ := List.eq_append_cons_of_mem hmem
  -- up to the first ESC nothing is dropped, so the ESC is the last byte of `x :: u`
  have hkept : u ++ [esc] <+: x :: (u ++ esc :: r) := by
    have hcells := (cells (u ++ [esc])).kept_prefix_pushAll r
    rw [← cells_append, cells_esc hu, List.append_assoc] at hcells
    exact hcells.trans h.kept_prefix
  have hfront : x :: u <+: x :: (u ++ esc :: r) := List.prefix_append (x :: u) _
  have hsame : u ++ [esc] = x :: u :=
    (List.prefix_of_prefix_length_le hkept hfront (by simp)).eq_of_length (by simp)
  have hesc : esc ∈ x :: u := by
    rw [← hsame]
    simp
  rcases List.mem_cons.mp hesc with heq | hmem
  · exact hx heq.symm
  · exact hu hmem

/-- **A list that does not start with ESC** is one byte over and over. -/
theorem Repeats.plain (h : Repeats x l z) (hx : x ≠ esc) :
    esc ∉ l ∧ l = List.replicate l.length x ∧ z = x := by
  have hmem := h.esc_not_mem hx
  have hshift : x :: l = l ++ [z] := by
    rw [Repeats, shown, cells_of_plain hmem] at h
    exact h
  exact ⟨hmem, eq_replicate_of_cons_eq_concat hshift⟩

/-! ### Lists that start with ESC -/

/-- Only the ESC at the front has been dropped: every other byte without a cell is zero. -/
theorem Repeats.dropped_eq_zero (h : Repeats esc l z) :
    z = esc ∧ ∀ b ∈ (cells l).dropped, b = 0 := by
  -- each byte other than zero is as often in the list as among its cells and in front of the zeros
  have hcount : ∀ v : Byte, v ≠ 0 →
      (if esc = v then 1 else 0) + (cells l).dropped.count v = if z = v then 1 else 0 := by
    intro v hv
    have hlist := congrArg (List.count v) h
    have hzero : (List.replicate (cells l).dropped.length (0 : Byte)).count v = 0 := by
      rw [List.count_eq_zero]
      exact fun hmem => hv (List.eq_of_mem_replicate hmem)
    rw [shown, List.count_append, List.count_cons, List.count_cons, hzero, count_cells v l] at hlist
    simp only [beq_iff_eq] at hlist
    omega
  have hfirst := hcount esc (by decide)
  rw [if_pos rfl] at hfirst
  have hz : z = esc := by
    by_contra hne
    rw [if_neg hne] at hfirst
    omega
  refine ⟨hz, ?_⟩
  intro b hb
  by_contra hne
  have hpos := List.count_pos_iff.mpr hb
  have hother := hcount b hne
  rw [hz] at hother
  omega

/-- The byte that has to follow `u` behind an ESC. -/
def nextByte (u : List Byte) : Byte :=
  if (cells u).pending then 0 else (esc :: u).getD (cells u).kept.length 0

/-- What has to follow an ESC. -/
def word : ℕ → List Byte
  | 0 => []
  | n + 1 => word n ++ [nextByte (word n)]

theorem Repeats.eq_nextByte {u r : List Byte} {y : Byte} (h : Repeats esc (u ++ y :: r) z) :
    y = nextByte u := by
  have hsplit : u ++ y :: r = (u ++ [y]) ++ r := by simp
  unfold nextByte
  cases hp : (cells u).pending with
  | true =>
    -- the byte is dropped
    rw [if_pos rfl]
    refine h.dropped_eq_zero.2 y ?_
    have hstart := (cells (u ++ [y])).dropped_prefix_pushAll r
    rw [← cells_append, ← hsplit] at hstart
    refine hstart.subset ?_
    rw [cells_concat, Cells.push_pending hp]
    exact List.mem_append_right _ (List.mem_singleton_self y)
  | false =>
    -- the byte gets the next cell, and that is one of the bytes before it
    rw [if_neg (by decide)]
    have hstart := (cells (u ++ [y])).kept_prefix_pushAll r
    rw [← cells_append, ← hsplit, cells_concat, Cells.push_plain hp] at hstart
    obtain ⟨rest, hrest⟩ := hstart.trans h.kept_prefix
    have hle : (cells u).kept.length ≤ u.length := by
      have hlen := length_cells u
      omega
    have hcell := congrArg (fun k : List Byte => k.getD (cells u).kept.length 0) hrest
    have hat : (esc :: (u ++ y :: r)).getD (cells u).kept.length 0 =
        (esc :: u).getD (cells u).kept.length 0 :=
      List.getD_append (esc :: u) (y :: r) 0 _ (Nat.lt_succ_of_le hle)
    simp only [hat, List.append_assoc] at hcell
    rw [← hcell, List.getD_append_right _ _ _ _ (Nat.le_refl _), Nat.sub_self]
    rfl

/-- **A list that starts with ESC** is determined by its length. -/
theorem Repeats.eq_word (h : Repeats esc l z) : l = word l.length := by
  have hstart : ∀ u r, l = u ++ r → u = word u.length := by
    intro u
    induction u using List.reverseRecOn with
    | nil => exact fun _ _ => rfl
    | append_singleton u y ih =>
      intro r hl
      rw [List.append_assoc] at hl
      have hy : y = nextByte u := by
        rw [hl] at h
        exact h.eq_nextByte
      rw [List.length_append, List.length_singleton, word, ← ih _ hl, ← hy]
  exact hstart l [] (List.append_nil l).symm

/-- The lengths at which the row of zeros just closes, up to the longest request. -/
theorem word_repeats : ∀ n < 19, Repeats esc (word n) esc → n ∈ [0, 1, 2, 5, 9, 14] := by
  decide +kernel

/-- **The lists that survive**, up to the longest request. -/
theorem Repeats.cases (h : Repeats x l z) (hlen : l.length < 19) :
    x ≠ esc ∧ esc ∉ l ∧ l = List.replicate l.length x ∧ z = x ∨
      x = esc ∧ z = esc ∧ l = word l.length ∧ l.length ∈ [0, 1, 2, 5, 9, 14] := by
  by_cases hx : x = esc
  · subst hx
    obtain rfl := h.dropped_eq_zero.1
    have hword := h.eq_word
    refine .inr ⟨rfl, rfl, hword, word_repeats _ hlen ?_⟩
    rwa [← hword]
  · exact .inl ⟨hx, h.plain hx⟩

end EsphomeEbus.Zebus
