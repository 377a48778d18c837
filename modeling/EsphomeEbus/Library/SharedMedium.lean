import EsphomeEbus.Library.Transducer
import Mathlib.Data.List.OfFn

/-!
# Machines that share a medium

Machines with words to send are stations on one medium.  Time is a sequence of slots: in each, every
station that has words to send sends the first of them, the medium carries one word, and every
machine hears it and may answer with more words to send.  How the medium merges words sent at once
is a parameter.

* `Station`, `slot`: a station, and one slot of all stations, as a step of a transducer;
* `Alone`: what a station sends alone is carried as it is;
* `front`, `slot_front`: stations without words to send can be left out;
* `Refines`, `run_refined`: stations whose machines are refinements of others.
-/

namespace SharedMedium

open Transducer

variable {n : ℕ} {σ ε ω σ' ε' : Type*}

/-- A machine on the medium, with the words it has still to send. -/
structure Station (σ ω : Type*) where
  state : σ
  pending : List ω

/-- What a slot brings from outside: the word the medium carries if no station sends, and what each
machine finds besides the word it hears. -/
structure Slot (n : ℕ) (ε ω : Type*) where
  idle : ω
  intake : Fin n → ε

/-- The words sent in a slot. -/
def heads (ss : Fin n → Station σ ω) : List ω :=
  (List.ofFn fun i => (ss i).pending).flatMap (List.take 1)

/-- The word that the medium carries. -/
def carried (merge : List ω → ω) (ss : Fin n → Station σ ω) (idle : ω) : ω :=
  if (heads ss).isEmpty then idle else merge (heads ss)

/-- A station hears a word: the word it has sent is gone, and its machine answers. -/
def Station.hear (react : σ → ω → ε → σ × List ω) (s : Station σ ω) (w : ω) (x : ε) :
    Station σ ω :=
  { state := (react s.state w x).1
    pending := s.pending.tail ++ (react s.state w x).2 }

/-- One slot of all stations; its output is the word carried. -/
def slot (react : σ → ω → ε → σ × List ω) (merge : List ω → ω) (ss : Fin n → Station σ ω)
    (x : Slot n ε ω) : (Fin n → Station σ ω) × ω :=
  (fun i => (ss i).hear react (carried merge ss x.idle) (x.intake i), carried merge ss x.idle)

/-! ### The word carried -/

theorem mem_heads {ss : Fin n → Station σ ω} {w : ω} :
    w ∈ heads ss ↔ ∃ i p, (ss i).pending = w :: p := by
  simp only [heads, List.mem_flatMap, List.mem_ofFn]
  constructor
  · rintro ⟨_, ⟨i, rfl⟩, hw⟩
    cases hp : (ss i).pending with
    | nil =>
      rw [hp] at hw
      cases hw
    | cons v p =>
      rw [hp] at hw
      obtain rfl := List.mem_singleton.mp hw
      exact ⟨i, p, hp⟩
  · rintro ⟨i, p, hp⟩
    exact ⟨_, ⟨i, rfl⟩, by simp [hp]⟩

theorem heads_eq_nil_iff {ss : Fin n → Station σ ω} :
    heads ss = [] ↔ ∀ i, (ss i).pending = [] := by
  constructor
  · intro h i
    cases hp : (ss i).pending with
    | nil => rfl
    | cons w p =>
      have hw : w ∈ heads ss := mem_heads.mpr ⟨i, p, hp⟩
      rw [h] at hw
      cases hw
  · intro h
    rw [List.eq_nil_iff_forall_not_mem]
    intro w hw
    obtain ⟨i, p, hp⟩ := mem_heads.mp hw
    rw [h i] at hp
    cases hp

variable {merge : List ω → ω}

/-- Where nobody sends, the medium carries what comes from outside. -/
theorem carried_of_silent {ss : Fin n → Station σ ω} (h : ∀ i, (ss i).pending = []) (idle : ω) :
    carried merge ss idle = idle := by
  rw [carried, heads_eq_nil_iff.mpr h]
  rfl

theorem carried_of_heads {ss : Fin n → Station σ ω} (h : heads ss ≠ []) (idle : ω) :
    carried merge ss idle = merge (heads ss) := by
  rw [carried, if_neg]
  rwa [List.isEmpty_iff]

/-- No station but `a` has words to send. -/
def Alone (a : Fin n) (ss : Fin n → Station σ ω) : Prop := ∀ j, j ≠ a → (ss j).pending = []

/-- A list read off one index only. -/
theorem flatMap_ofFn_eq {α β : Type*} {f : Fin n → α} {g : α → List β} {a : Fin n}
    (h : ∀ j, j ≠ a → g (f j) = []) : (List.ofFn f).flatMap g = g (f a) := by
  induction n with
  | zero => exact a.elim0
  | succ n ih =>
    rw [List.ofFn_succ, List.flatMap_cons]
    cases a using Fin.cases with
    | zero =>
      have hrest : (List.ofFn fun i : Fin n => f i.succ).flatMap g = [] := by
        rw [List.flatMap_eq_nil_iff]
        intro x hx
        obtain ⟨i, rfl⟩ := List.mem_ofFn.mp hx
        exact h i.succ (Fin.succ_ne_zero i)
      rw [hrest, List.append_nil]
    | succ a =>
      rw [h 0 (Fin.succ_ne_zero a).symm, List.nil_append]
      exact ih (a := a) fun j hj => h j.succ fun heq => hj (Fin.succ_injective n heq)

theorem Alone.heads_eq {a : Fin n} {ss : Fin n → Station σ ω} (h : Alone a ss) :
    heads ss = (ss a).pending.take 1 :=
  flatMap_ofFn_eq fun j hj => by rw [h j hj, List.take_nil]

/-- What a station sends alone is carried as it is. -/
theorem Alone.carried_eq {a : Fin n} {ss : Fin n → Station σ ω} (h : Alone a ss) {w : ω}
    {p : List ω} (hp : (ss a).pending = w :: p) (hmerge : merge [w] = w) (idle : ω) :
    carried merge ss idle = w := by
  have hheads : heads ss = [w] := by rw [h.heads_eq, hp, List.take_succ_cons, List.take_zero]
  rw [carried_of_heads (by rw [hheads]; simp), hheads, hmerge]

/-! ### Slots and runs -/

variable {react : σ → ω → ε → σ × List ω}

/-- Nobody answers in the slot. -/
def Unanswered (react : σ → ω → ε → σ × List ω) (merge : List ω → ω) (ss : Fin n → Station σ ω)
    (x : Slot n ε ω) : Prop :=
  ∀ i, (react (ss i).state (carried merge ss x.idle) (x.intake i)).2 = []

/-- One word of a station that sends alone. -/
theorem Alone.slot {a : Fin n} {ss : Fin n → Station σ ω} (h : Alone a ss) {w : ω} {p : List ω}
    (hp : (ss a).pending = w :: p) (hmerge : merge [w] = w) {x : Slot n ε ω}
    (hx : Unanswered react merge ss x) :
    (SharedMedium.slot react merge ss x).2 = w ∧
      ((SharedMedium.slot react merge ss x).1 a).pending = p ∧
      Alone a (SharedMedium.slot react merge ss x).1 := by
  refine ⟨h.carried_eq hp hmerge _, ?_, ?_⟩
  · show (ss a).pending.tail ++ _ = p
    rw [hx a, hp, List.tail_cons, List.append_nil]
  · intro j hj
    show (ss j).pending.tail ++ _ = []
    rw [hx j, h j hj]
    rfl

/-! ### Stations without words to send -/

section Front

variable {m k : ℕ}

/-- The first `m` stations. -/
def front (ss : Fin (m + k) → Station σ ω) : Fin m → Station σ ω := fun i => ss (Fin.castAdd k i)

/-- What a slot brings for them. -/
def Slot.front (x : Slot (m + k) ε ω) : Slot m ε ω where
  idle := x.idle
  intake i := x.intake (Fin.castAdd k i)

theorem heads_front {ss : Fin (m + k) → Station σ ω}
    (h : ∀ j, (ss (Fin.natAdd m j)).pending = []) : heads (front ss) = heads ss := by
  have hrest : (List.ofFn fun j => (ss (Fin.natAdd m j)).pending).flatMap (List.take 1) = [] := by
    rw [List.flatMap_eq_nil_iff]
    intro p hp
    obtain ⟨j, rfl⟩ := List.mem_ofFn.mp hp
    rw [h j, List.take_nil]
  rw [heads, heads, List.ofFn_add, List.flatMap_append, hrest, List.append_nil]
  rfl

/-- **Where the other stations have no words to send**, the first are as they would be alone. -/
theorem slot_front {ss : Fin (m + k) → Station σ ω}
    (h : ∀ j, (ss (Fin.natAdd m j)).pending = []) (x : Slot (m + k) ε ω) :
    slot react merge (front ss) x.front =
      (front (slot react merge ss x).1, (slot react merge ss x).2) := by
  have hcarried : carried merge (front ss) x.front.idle = carried merge ss x.idle := by
    rw [carried, carried, heads_front h]
    rfl
  rw [slot, hcarried]
  rfl

end Front

/-! ### Refinement -/

/-- From states where `I` holds, which every word keeps, `π` carries what the machine does to what
`react'` does, if that finds `f` of what the machine does. -/
def Refines (I : σ → Prop) (react : σ → ω → ε → σ × List ω) (react' : σ' → ω → ε' → σ' × List ω)
    (π : σ → σ') (f : σ → ω → ε → ε') : Prop :=
  ∀ s w x, I s → I (react s w x).1 ∧
    react' (π s) w (f s w x) = (π (react s w x).1, (react s w x).2)

/-- A station seen through `π`. -/
def Station.map (π : σ → σ') (s : Station σ ω) : Station σ' ω := ⟨π s.state, s.pending⟩

/-- All stations seen through `π`. -/
def mapAll (π : σ → σ') (ss : Fin n → Station σ ω) : Fin n → Station σ' ω := fun i => (ss i).map π

/-- The slot as the machines seen through `π` find it. -/
def refinedSlot (merge : List ω → ω) (f : σ → ω → ε → ε') (ss : Fin n → Station σ ω)
    (x : Slot n ε ω) : Slot n ε' ω :=
  { idle := x.idle
    intake := fun i => f (ss i).state (carried merge ss x.idle) (x.intake i) }

/-- The slots of a run as the machines seen through `π` find them. -/
def refinedSlots (react : σ → ω → ε → σ × List ω) (merge : List ω → ω) (f : σ → ω → ε → ε') :
    (Fin n → Station σ ω) → List (Slot n ε ω) → List (Slot n ε' ω)
  | _, [] => []
  | ss, x :: xs =>
    refinedSlot merge f ss x :: refinedSlots react merge f (slot react merge ss x).1 xs

variable {I : Fin n → σ → Prop} {react' : σ' → ω → ε' → σ' × List ω} {π : σ → σ'}
  {f : σ → ω → ε → ε'}

theorem slot_refined (merge : List ω → ω) (h : ∀ i, Refines (I i) react react' π f)
    {ss : Fin n → Station σ ω} (hs : ∀ i, I i (ss i).state) (x : Slot n ε ω) :
    slot react' merge (mapAll π ss) (refinedSlot merge f ss x) =
        (mapAll π (slot react merge ss x).1, (slot react merge ss x).2) ∧
      ∀ i, I i ((slot react merge ss x).1 i).state := by
  refine ⟨?_, fun i => (h i _ _ _ (hs i)).1⟩
  refine Prod.ext (funext fun i => ?_) rfl
  have hreact := (h i (ss i).state (carried merge ss x.idle) (x.intake i) (hs i)).2
  show Station.hear react' ⟨π (ss i).state, (ss i).pending⟩ (carried merge ss x.idle) _ =
    Station.map π (Station.hear react (ss i) _ _)
  simp only [Station.hear, Station.map]
  rw [show (refinedSlot merge f ss x).intake i = f (ss i).state (carried merge ss x.idle)
    (x.intake i) from rfl, hreact]

theorem run_refined_keeps (h : ∀ i, Refines (I i) react react' π f) {ss : Fin n → Station σ ω}
    (hs : ∀ i, I i (ss i).state) (xs : List (Slot n ε ω)) (i : Fin n) :
    I i (run (slot react merge) ss xs i).state := by
  induction xs generalizing ss with
  | nil => exact hs i
  | cons x xs ih => exact ih (slot_refined merge h hs x).2

/-- **Refinement over runs**: the stations seen through `π` run as stations of the other machine,
and the medium carries the same words. -/
theorem run_refined (h : ∀ i, Refines (I i) react react' π f) {ss : Fin n → Station σ ω}
    (hs : ∀ i, I i (ss i).state) (xs : List (Slot n ε ω)) :
    run (slot react' merge) (mapAll π ss) (refinedSlots react merge f ss xs) =
        mapAll π (run (slot react merge) ss xs) ∧
      outputs (slot react' merge) (mapAll π ss) (refinedSlots react merge f ss xs) =
        outputs (slot react merge) ss xs := by
  induction xs generalizing ss with
  | nil => exact ⟨rfl, rfl⟩
  | cons x xs ih =>
    obtain ⟨hslot, hs'⟩ := slot_refined merge h hs x
    obtain ⟨hrun, hout⟩ := ih hs'
    constructor
    · rw [refinedSlots, run_cons, hslot, hrun, run_cons]
    · rw [refinedSlots, outputs_cons, hslot, hout, outputs_cons]

/-- A condition on the slots of the one run becomes a condition on those of the other. -/
theorem along_refined (h : ∀ i, Refines (I i) react react' π f)
    {C : (Fin n → Station σ ω) → Slot n ε ω → Prop}
    {C' : (Fin n → Station σ' ω) → Slot n ε' ω → Prop}
    (hC : ∀ ss x, (∀ i, I i (ss i).state) → C ss x → C' (mapAll π ss) (refinedSlot merge f ss x))
    {ss : Fin n → Station σ ω} (hs : ∀ i, I i (ss i).state) {xs : List (Slot n ε ω)}
    (hx : Along (slot react merge) C ss xs) :
    Along (slot react' merge) C' (mapAll π ss) (refinedSlots react merge f ss xs) := by
  induction xs generalizing ss with
  | nil => trivial
  | cons x xs ih =>
    obtain ⟨hslot, hs'⟩ := slot_refined merge h hs x
    refine ⟨hC ss x hs hx.1, ?_⟩
    rw [hslot]
    exact ih hs' hx.2

end SharedMedium
