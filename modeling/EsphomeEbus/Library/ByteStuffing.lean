import EsphomeEbus.Library.Transducer

/-!
# Escape encoding: values sent as one byte or as an escape pair

Some values of an alphabet are reserved for control and may not travel as themselves.  A `Stuffing`
sends each of them as a pair: the escape byte, then a mark that tells which value is meant.

* `encode` / `encodeAll`: the bytes that stand for a value, for a list of values;
* `read`: the reader, one byte at a time, whose state is whether an escape byte is pending;
* `symbols`: a byte stream as the reader sees it, as plain bytes, escape pairs and invalid pairs;
* `symbols_encodeAll`: what was encoded is read back, one symbol a value; `encodeAll_injective`;
* `behind`: a machine that is fed symbols, put behind the reader; `run_behind` and
  `emitted_behind` reduce its byte runs to its symbol runs.
-/

/-- Which values are sent as a pair, and the mark each pair ends in.  Escape itself is one of them,
and a mark tells its value. -/
structure Stuffing (α : Type*) where
  esc : α
  mark : α → Option α
  unmark : α → Option α
  mark_esc : (mark esc).isSome
  unmark_eq_some : ∀ v c, unmark c = some v ↔ mark v = some c

namespace Stuffing

open Transducer

/-- What a reader makes of the bytes it is fed. -/
inductive Symbol (α : Type*) where
  | plain (b : α)
  | pair (c v : α)
  | invalid (c : α)
  deriving DecidableEq, Repr

namespace Symbol

variable {α : Type*}

/-- The byte that completed the symbol. -/
def raw : Symbol α → α
  | plain b => b
  | pair c _ => c
  | invalid c => c

/-- The value the symbol stands for. -/
def value : Symbol α → α
  | plain b => b
  | pair _ v => v
  | invalid c => c

end Symbol

variable {α σ ω : Type*} (S : Stuffing α)

/-- The bytes that stand for a value. -/
def encode (v : α) : List α :=
  match S.mark v with
  | some c => [S.esc, c]
  | none => [v]

/-- The bytes that stand for a list of values. -/
def encodeAll (vs : List α) : List α := vs.flatMap S.encode

/-- The symbol the bytes of a value are read as. -/
def symbolOf (v : α) : Symbol α :=
  match S.mark v with
  | some c => .pair c v
  | none => .plain v

@[simp] theorem encodeAll_nil : S.encodeAll [] = [] := rfl

@[simp] theorem encodeAll_cons (v : α) (vs : List α) :
    S.encodeAll (v :: vs) = S.encode v ++ S.encodeAll vs := rfl

@[simp] theorem encodeAll_append (vs ws : List α) :
    S.encodeAll (vs ++ ws) = S.encodeAll vs ++ S.encodeAll ws := by
  simp only [encodeAll, List.flatMap_append]

theorem encode_of_mark_none {v : α} (h : S.mark v = none) : S.encode v = [v] := by
  simp [encode, h]

@[simp] theorem value_symbolOf (v : α) : (S.symbolOf v).value = v := by
  unfold symbolOf
  split <;> rfl

variable [DecidableEq α]

/-- The reader: one more byte, while an escape byte is pending or not. -/
def read (pending : Bool) (b : α) : Bool × List (Symbol α) :=
  if pending then
    match S.unmark b with
    | some v => (false, [.pair b v])
    | none => (false, [.invalid b])
  else if b = S.esc then (true, [])
  else (false, [.plain b])

/-- The symbols of a byte stream. -/
def symbols (pending : Bool) (bs : List α) : List (Symbol α) := emitted S.read pending bs

/-- Is an escape byte pending after a byte stream? -/
def pendingAfter (pending : Bool) (bs : List α) : Bool := run S.read pending bs

theorem symbols_append (p : Bool) (bs cs : List α) :
    S.symbols p (bs ++ cs) = S.symbols p bs ++ S.symbols (S.pendingAfter p bs) cs :=
  emitted_append S.read p bs cs

theorem pendingAfter_append (p : Bool) (bs cs : List α) :
    S.pendingAfter p (bs ++ cs) = S.pendingAfter (S.pendingAfter p bs) cs :=
  run_append S.read p bs cs

/-- The symbols a reader can report. -/
def Proper : Symbol α → Prop
  | .plain b => b ≠ S.esc
  | .pair c v => S.mark v = some c
  | .invalid c => S.unmark c = none

theorem proper_of_mem_read {p : Bool} {b : α} {y : Symbol α} (hy : y ∈ (S.read p b).2) :
    S.Proper y := by
  cases p with
  | true =>
    cases h : S.unmark b with
    | some v =>
      obtain rfl : y = .pair b v := by simpa [read, h] using hy
      exact (S.unmark_eq_some v b).mp h
    | none =>
      obtain rfl : y = .invalid b := by simpa [read, h] using hy
      exact h
  | false =>
    by_cases hb : b = S.esc
    · simp [read, hb] at hy
    · obtain rfl : y = .plain b := by simpa [read, hb] using hy
      exact hb

theorem proper_of_mem_symbols {p : Bool} {bs : List α} {y : Symbol α} (hy : y ∈ S.symbols p bs) :
    S.Proper y := by
  induction bs generalizing p with
  | nil => cases hy
  | cons b bs ih =>
    rw [symbols, emitted_cons, List.mem_append] at hy
    rcases hy with hy | hy
    · exact S.proper_of_mem_read hy
    · exact ih hy

/-- A pending escape byte is the last byte read, and it completed no symbol. -/
theorem pendingAfter_concat {bs : List α} {b : α} (h : S.pendingAfter false (bs ++ [b]) = true) :
    b = S.esc ∧ S.pendingAfter false bs = false ∧
      S.symbols false (bs ++ [b]) = S.symbols false bs := by
  rw [pendingAfter_append] at h
  rw [symbols_append]
  cases hp : S.pendingAfter false bs with
  | true =>
    rw [hp] at h
    unfold pendingAfter run read at h
    cases hu : S.unmark b <;> simp [hu, run] at h
  | false =>
    rw [hp] at h
    unfold pendingAfter run read at h
    by_cases hb : b = S.esc
    · exact ⟨hb, rfl, by simp [symbols, emitted, outputs, read, hb]⟩
    · simp [hb, run] at h

/-! ### Reading back what was encoded -/

theorem read_encode (v : α) :
    S.symbols false (S.encode v) = [S.symbolOf v] ∧ S.pendingAfter false (S.encode v) = false := by
  unfold symbols pendingAfter encode symbolOf
  cases h : S.mark v with
  | some c =>
    have hc : S.unmark c = some v := (S.unmark_eq_some v c).mpr h
    simp [emitted, outputs, run, read, hc]
  | none =>
    have hv : v ≠ S.esc := by
      rintro rfl
      simpa [h] using S.mark_esc
    simp [emitted, outputs, run, read, hv]

theorem pendingAfter_encodeAll (vs : List α) : S.pendingAfter false (S.encodeAll vs) = false := by
  induction vs with
  | nil => rfl
  | cons v vs ih => rw [encodeAll_cons, pendingAfter_append, (S.read_encode v).2, ih]

/-- **Decode undoes encode.**  An encoded list of values is read back one symbol a value. -/
theorem symbols_encodeAll (vs : List α) :
    S.symbols false (S.encodeAll vs) = vs.map S.symbolOf := by
  induction vs with
  | nil => rfl
  | cons v vs ih =>
    rw [encodeAll_cons, symbols_append, (S.read_encode v).1, (S.read_encode v).2, ih]
    rfl

/-- Different lists of values have different wire forms. -/
theorem encodeAll_injective : Function.Injective S.encodeAll := by
  intro vs ws h
  have hsymbols : vs.map S.symbolOf = ws.map S.symbolOf := by
    rw [← S.symbols_encodeAll, ← S.symbols_encodeAll, h]
  have hvalues := congrArg (List.map Symbol.value) hsymbols
  simpa only [List.map_map, Function.comp_def, value_symbolOf, List.map_id'] using hvalues

/-- Cut short anywhere, an encoded list has had only its first values read: the last one is not read
before its last byte. -/
theorem symbols_prefix {vs : List α} {bs cs : List α} (h : S.encodeAll vs = bs ++ cs)
    (hcs : cs ≠ []) :
    ∃ us ws, vs = us ++ ws ∧ ws ≠ [] ∧ S.symbols false bs = us.map S.symbolOf := by
  induction vs generalizing bs with
  | nil => exact absurd (List.append_eq_nil_iff.mp h.symm).2 hcs
  | cons v vs ih =>
    rw [encodeAll_cons] at h
    rcases List.append_eq_append_iff.mp h with ⟨bs', rfl, hrest⟩ | ⟨rest, henc, rfl⟩
    · -- the value is inside the part that was read
      obtain ⟨us, ws, rfl, hws, hread⟩ := ih hrest
      refine ⟨v :: us, ws, rfl, hws, ?_⟩
      rw [symbols_append, (S.read_encode v).1, (S.read_encode v).2, hread]
      rfl
    · by_cases hrest : rest = []
      · subst hrest
        rw [List.append_nil] at henc
        refine ⟨[v], vs, rfl, ?_, ?_⟩
        · rintro rfl
          simp at hcs
        · rw [← henc, (S.read_encode v).1]
          rfl
      · -- the part that was read ends inside the value
        refine ⟨[], v :: vs, rfl, by simp, ?_⟩
        unfold encode at henc
        cases hm : S.mark v with
        | none =>
          rw [hm] at henc
          rcases List.append_eq_singleton_iff.mp henc.symm with ⟨rfl, -⟩ | ⟨-, hr⟩
          · rfl
          · exact absurd hr hrest
        | some c =>
          rw [hm] at henc
          rcases bs with _ | ⟨b, bs⟩
          · rfl
          · rw [List.cons_append, List.cons.injEq] at henc
            obtain ⟨rfl, henc⟩ := henc
            rcases List.append_eq_singleton_iff.mp henc.symm with ⟨rfl, -⟩ | ⟨-, hr⟩
            · simp [symbols, emitted, outputs, Stuffing.read]
            · exact absurd hr hrest

/-! ### Machines behind the reader -/

/-- A machine fed with symbols, put behind the reader: it steps on the bytes that complete one. -/
def behind (step : σ → Symbol α → σ × List ω) (s : Bool × σ) (b : α) : (Bool × σ) × List ω :=
  (((S.read s.1 b).1, run step s.2 (S.read s.1 b).2), emitted step s.2 (S.read s.1 b).2)

variable (step : σ → Symbol α → σ × List ω)

/-- A byte run of a machine behind the reader is its run on the symbols of the bytes. -/
theorem run_behind (p : Bool) (s : σ) (bs : List α) :
    run (S.behind step) (p, s) bs = (S.pendingAfter p bs, run step s (S.symbols p bs)) := by
  induction bs generalizing p s with
  | nil => rfl
  | cons b bs ih =>
    rw [run_cons, behind, ih]
    simp only [pendingAfter, symbols, run_cons, emitted_cons, run_append]

theorem emitted_behind (p : Bool) (s : σ) (bs : List α) :
    emitted (S.behind step) (p, s) bs = emitted step s (S.symbols p bs) := by
  induction bs generalizing p s with
  | nil => rfl
  | cons b bs ih =>
    rw [emitted_cons, behind, ih]
    simp only [symbols, emitted_cons, emitted_append]

end Stuffing
