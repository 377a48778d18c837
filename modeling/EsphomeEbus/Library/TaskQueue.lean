import EsphomeEbus.Library.Transducer
import Mathlib.Data.List.Flatten

/-!
# Queues between tasks

A kernel gives the tasks of a program queues to pass items on.  An item is a block of words that is
copied into the queue and out of it; of how many words is said when the queue is created.  Who sends
to a full queue waits, or goes on without it.

What the kernel does is a parameter here, and what is known of it is a hypothesis; whatever the
tasks do with the queues of a lawful kernel, what comes out is what went in, in order.

* `QueueApi`: the functions of a kernel; `Sends`, `Receives`, `Lawful`: what is known of them;
* `boundedQueues`, `lawful_bounded`: a kernel that keeps its items in a list;
* `Flows`, `run_flows`: a machine that passes items on, over one step and over whole runs;
* `min_le_outflow`: what waits comes out after as many turns;
* `flatMap_eq_iff`: parts that are lost are missed.
-/

open Transducer

/-- The queue functions of a kernel.  The last three are not called: they are what a queue holds,
and what it was created for. -/
structure QueueApi (ω : Type) where
  Queue : Type
  /-- A queue for so many items of so many words. -/
  create : ℕ → ℕ → Option Queue
  /-- Copies an item from the words at hand, or waits. -/
  sendToBack : Queue → List ω → Option Queue
  /-- The same, without waiting. -/
  sendToBackFromIsr : Queue → List ω → Option Queue
  /-- Copies the item at the front out of the queue, or waits. -/
  receive : Queue → Option (List ω × Queue)
  receiveFromIsr : Queue → Option (List ω × Queue)
  contents : Queue → List (List ω)
  capacity : Queue → ℕ
  itemSize : Queue → ℕ

namespace QueueApi

variable {ω : Type} (Q : QueueApi ω)

def IsFull (q : Q.Queue) : Prop := (Q.contents q).length = Q.capacity q

instance (q : Q.Queue) : Decidable (Q.IsFull q) := inferInstanceAs (Decidable (_ = _))

/-- The queue is still for as many items, of the same size. -/
def Same (q q' : Q.Queue) : Prop := Q.capacity q' = Q.capacity q ∧ Q.itemSize q' = Q.itemSize q

/-- A send copies as many words as an item has to the back of a queue, if that has room. -/
structure Sends (send : Q.Queue → List ω → Option Q.Queue) : Prop where
  full : ∀ {q}, Q.IsFull q → ∀ words, send q words = none
  room : ∀ {q}, ¬ Q.IsFull q → ∀ words, ∃ q', send q words = some q' ∧
    Q.contents q' = Q.contents q ++ [words.take (Q.itemSize q)] ∧ Q.Same q q'

/-- A receive takes the item at the front, if there is one. -/
structure Receives (receive : Q.Queue → Option (List ω × Q.Queue)) : Prop where
  empty : ∀ {q}, Q.contents q = [] → receive q = none
  front : ∀ {q item items}, Q.contents q = item :: items → ∃ q', receive q = some (item, q') ∧
    Q.contents q' = items ∧ Q.Same q q'

/-- What is known of a kernel. -/
structure Lawful : Prop where
  /-- There is no queue for no items. -/
  create_zero : ∀ itemSize, Q.create 0 itemSize = none
  create : ∀ {capacity itemSize q}, Q.create capacity itemSize = some q →
    Q.contents q = [] ∧ Q.capacity q = capacity ∧ Q.itemSize q = itemSize
  length_le : ∀ q, (Q.contents q).length ≤ Q.capacity q
  size_le : ∀ q, ∀ item ∈ Q.contents q, item.length ≤ Q.itemSize q
  sendToBack : Q.Sends Q.sendToBack
  sendToBackFromIsr : Q.Sends Q.sendToBackFromIsr
  receive : Q.Receives Q.receive
  receiveFromIsr : Q.Receives Q.receiveFromIsr

variable {Q} {q q' q'' : Q.Queue} {words item : List ω}

theorem Same.refl (q : Q.Queue) : Q.Same q q := ⟨rfl, rfl⟩

theorem Same.symm (h : Q.Same q q') : Q.Same q' q := ⟨h.1.symm, h.2.symm⟩

theorem Same.trans (h : Q.Same q q') (h' : Q.Same q' q'') : Q.Same q q'' :=
  ⟨h'.1.trans h.1, h'.2.trans h.2⟩

/-- Queues that hold as many items, and for as many, are full together. -/
theorem isFull_iff (hlen : (Q.contents q').length = (Q.contents q).length) (h : Q.Same q q') :
    Q.IsFull q' ↔ Q.IsFull q := by
  rw [IsFull, IsFull, hlen, h.1]

section Sends

variable {send : Q.Queue → List ω → Option Q.Queue} (hsend : Q.Sends send)

include hsend

/-- What has been sent was taken in, and the queue had room. -/
theorem Sends.of_eq_some (h : send q words = some q') : ¬ Q.IsFull q ∧
    Q.contents q' = Q.contents q ++ [words.take (Q.itemSize q)] ∧ Q.Same q q' := by
  by_cases hfull : Q.IsFull q
  · rw [hsend.full hfull] at h
    cases h
  · obtain ⟨q'', hq, hcontents, hsame⟩ := hsend.room hfull words
    obtain rfl := Option.some.inj (hq.symm.trans h)
    exact ⟨hfull, hcontents, hsame⟩

theorem Sends.eq_none_iff : send q words = none ↔ Q.IsFull q := by
  constructor
  · intro h
    by_contra hfull
    obtain ⟨q', hq, -⟩ := hsend.room hfull words
    rw [h] at hq
    cases hq
  · exact fun hfull => hsend.full hfull words

/-- A sender that does not wait for room adds its item, or drops it. -/
theorem Sends.getD (q : Q.Queue) (words : List ω) :
    Q.contents ((send q words).getD q) = Q.contents q ++
        (if Q.IsFull q then [] else [words.take (Q.itemSize q)]) ∧
      Q.Same q ((send q words).getD q) := by
  by_cases hfull : Q.IsFull q
  · rw [hsend.full hfull, if_pos hfull, List.append_nil]
    exact ⟨rfl, .refl q⟩
  · obtain ⟨q', hq, hcontents, hsame⟩ := hsend.room hfull words
    rw [hq, if_neg hfull]
    exact ⟨hcontents, hsame⟩

theorem Sends.same_foldl {α : Type*} (image : α → List ω) (q : Q.Queue) (ts : List α) :
    Q.Same q (ts.foldl (fun q t => (send q (image t)).getD q) q) := by
  induction ts generalizing q with
  | nil => exact .refl q
  | cons t ts ih => exact (hsend.getD q (image t)).2.trans (ih _)

/-- What a sender of one object at most adds to the objects in the queue, if they can be read back
from their items. -/
theorem Sends.map_foldl {α : Type*} {image : α → List ω} {read : List ω → α} {ts : List α}
    (hlen : ts.length ≤ 1) (hread : ∀ t ∈ ts, read ((image t).take (Q.itemSize q)) = t) :
    (Q.contents (ts.foldl (fun q t => (send q (image t)).getD q) q)).map read =
      (Q.contents q).map read ++ if Q.IsFull q then [] else ts := by
  cases ts with
  | nil => rw [List.foldl_nil, ite_self, List.append_nil]
  | cons t ts =>
    rw [List.length_cons] at hlen
    obtain rfl : ts = [] := List.eq_nil_of_length_eq_zero (by omega)
    rw [List.foldl_cons, List.foldl_nil, (hsend.getD q (image t)).1, List.map_append]
    split
    · rfl
    · rw [List.map_singleton, hread t List.mem_cons_self]

end Sends

section Receives

variable {receive : Q.Queue → Option (List ω × Q.Queue)} (hreceive : Q.Receives receive)

include hreceive

theorem Receives.of_eq_some (h : receive q = some (item, q')) :
    Q.contents q = item :: Q.contents q' ∧ Q.Same q q' := by
  cases hq : Q.contents q with
  | nil =>
    rw [hreceive.empty hq] at h
    cases h
  | cons first items =>
    obtain ⟨q'', hq', hcontents, hsame⟩ := hreceive.front hq
    obtain ⟨rfl, rfl⟩ := Prod.mk.inj (Option.some.inj (hq'.symm.trans h))
    exact ⟨by rw [hcontents], hsame⟩

theorem Receives.eq_none_iff : receive q = none ↔ Q.contents q = [] := by
  constructor
  · intro h
    cases hq : Q.contents q with
    | nil => rfl
    | cons first items =>
      obtain ⟨q', hq', -⟩ := hreceive.front hq
      rw [h] at hq'
      cases hq'
  · exact hreceive.empty

/-- The item that comes out is the one at the front. -/
theorem Receives.map_fst : (receive q).map Prod.fst = (Q.contents q).head? := by
  cases h : receive q with
  | none =>
    rw [hreceive.eq_none_iff.mp h]
    rfl
  | some p =>
    obtain ⟨item, q'⟩ := p
    rw [(hreceive.of_eq_some h).1]
    rfl

/-- A receive that is made or not. -/
theorem Receives.ite (called : Bool) (q : Q.Queue) :
    let received := if called then receive q else none
    received.map Prod.fst = (if called then (Q.contents q).head? else none) ∧
      Q.contents ((received.map Prod.snd).getD q) =
        (if called then (Q.contents q).tail else Q.contents q) ∧
      Q.Same q ((received.map Prod.snd).getD q) := by
  cases called with
  | false => exact ⟨rfl, rfl, .refl q⟩
  | true =>
    refine ⟨hreceive.map_fst, ?_⟩
    cases h : receive q with
    | none =>
      rw [hreceive.eq_none_iff.mp h]
      exact ⟨hreceive.eq_none_iff.mp h, .refl q⟩
    | some p =>
      obtain ⟨item, q'⟩ := p
      obtain ⟨hcontents, hsame⟩ := hreceive.of_eq_some h
      rw [hcontents]
      exact ⟨rfl, hsame⟩

/-- The same for the objects that are read from the items. -/
theorem Receives.map_ite {α : Type*} (read : List ω → α) (called : Bool) (q : Q.Queue) :
    let received := if called then receive q else none
    let objects := (Q.contents q).map read
    (Q.contents ((received.map Prod.snd).getD q)).map read =
        (if called then objects.tail else objects) ∧
      (received.map fun r => read r.1).toList = (if called then objects.take 1 else []) ∧
      Q.Same q ((received.map Prod.snd).getD q) := by
  obtain ⟨hfirst, hrest, hsame⟩ := hreceive.ite called q
  intro received objects
  refine ⟨?_, ?_, hsame⟩
  · refine (congrArg (List.map read) hrest).trans ?_
    split
    · exact List.map_tail
    · rfl
  · have hread : received.map (fun r => read r.1) = (received.map Prod.fst).map read := by
      rw [Option.map_map]
      rfl
    rw [hread, show received.map Prod.fst = _ from hfirst]
    show _ = if called then ((Q.contents q).map read).take 1 else []
    split
    · cases Q.contents q <;> rfl
    · rfl

/-- The item that comes out is of the size of an item. -/
theorem Receives.length_le (hQ : Q.Lawful) (h : receive q = some (item, q')) :
    item.length ≤ Q.itemSize q := by
  refine hQ.size_le q item ?_
  rw [(hreceive.of_eq_some h).1]
  exact List.mem_cons_self

end Receives

end QueueApi

/-! ### A kernel that keeps its items in a list -/

/-- Items in the order they came, no more than `capacity` of them, and none of more words than
`itemSize`. -/
structure BoundedQueue (ω : Type) where
  capacity : ℕ
  itemSize : ℕ
  items : List (List ω)
  length_le : items.length ≤ capacity
  size_le : ∀ item ∈ items, item.length ≤ itemSize

namespace BoundedQueue

variable {ω : Type}

def empty (capacity itemSize : ℕ) : BoundedQueue ω :=
  ⟨capacity, itemSize, [], Nat.zero_le _, fun _ h => (List.not_mem_nil h).elim⟩

def create (capacity itemSize : ℕ) : Option (BoundedQueue ω) :=
  if capacity = 0 then none else some (empty capacity itemSize)

def send (q : BoundedQueue ω) (words : List ω) : Option (BoundedQueue ω) :=
  if h : q.items.length = q.capacity then none
  else some
    { q with
      items := q.items ++ [words.take q.itemSize]
      length_le := by
        rw [List.length_append]
        exact Nat.lt_of_le_of_ne q.length_le h
      size_le := by
        intro item hitem
        rcases List.mem_append.mp hitem with hitem | hitem
        · exact q.size_le item hitem
        · obtain rfl := List.mem_singleton.mp hitem
          exact List.length_take_le _ _ }

/-- The queue without the item at its front. -/
def rest (q : BoundedQueue ω) : BoundedQueue ω :=
  { q with
    items := q.items.tail
    length_le := by
      rw [List.length_tail]
      exact Nat.le_trans (Nat.sub_le _ _) q.length_le
    size_le := fun item hitem => q.size_le item (List.mem_of_mem_tail hitem) }

def receive (q : BoundedQueue ω) : Option (List ω × BoundedQueue ω) :=
  q.items.head?.map fun item => (item, q.rest)

theorem receive_of_nil {q : BoundedQueue ω} (h : q.items = []) : q.receive = none := by
  rw [receive, h]
  rfl

theorem receive_of_cons {q : BoundedQueue ω} {item : List ω} {items : List (List ω)}
    (h : q.items = item :: items) : q.receive = some (item, q.rest) ∧ q.rest.items = items := by
  refine ⟨?_, ?_⟩
  · rw [receive, h]
    rfl
  · show q.items.tail = items
    rw [h]
    rfl

end BoundedQueue

/-- The kernel. -/
def boundedQueues (ω : Type) : QueueApi ω where
  Queue := BoundedQueue ω
  create := BoundedQueue.create
  sendToBack := BoundedQueue.send
  sendToBackFromIsr := BoundedQueue.send
  receive := BoundedQueue.receive
  receiveFromIsr := BoundedQueue.receive
  contents := BoundedQueue.items
  capacity := BoundedQueue.capacity
  itemSize := BoundedQueue.itemSize

section Bounded

variable {ω : Type}

theorem sends_bounded : (boundedQueues ω).Sends BoundedQueue.send where
  full h _ := dif_pos h
  room h _ := ⟨_, dif_neg h, rfl, rfl, rfl⟩

theorem receives_bounded : (boundedQueues ω).Receives BoundedQueue.receive where
  empty h := BoundedQueue.receive_of_nil h
  front h := ⟨_, (BoundedQueue.receive_of_cons h).1, (BoundedQueue.receive_of_cons h).2, rfl, rfl⟩

theorem lawful_bounded : (boundedQueues ω).Lawful where
  create_zero itemSize := by
    show BoundedQueue.create 0 itemSize = none
    exact if_pos rfl
  create {capacity itemSize q} h := by
    have hcreate : BoundedQueue.create capacity itemSize = some q := h
    rw [BoundedQueue.create] at hcreate
    split at hcreate
    · cases hcreate
    · obtain rfl := Option.some.inj hcreate
      exact ⟨rfl, rfl, rfl⟩
  length_le q := BoundedQueue.length_le q
  size_le q := BoundedQueue.size_le q
  sendToBack := sends_bounded
  sendToBackFromIsr := sends_bounded
  receive := receives_bounded
  receiveFromIsr := receives_bounded

end Bounded

/-! ### Items that are passed on -/

namespace TaskQueue

variable {α β σ ι ω : Type*}

/-- From states where `I` holds, which every step keeps, what the machine held and what comes in is
what goes out and what it holds then. -/
def Flows (I : σ → Prop) (step : σ → ι → σ × ω) (content : σ → List α)
    (inflow outflow : ω → List α) : Prop :=
  ∀ s i, I s → I (step s i).1 ∧
    content s ++ inflow (step s i).2 = outflow (step s i).2 ++ content (step s i).1

variable {I : σ → Prop} {step : σ → ι → σ × ω} {content : σ → List α} {inflow outflow : ω → List α}

/-- **What comes out is what went in**, in order: over a run nothing is lost and nothing doubled. -/
theorem run_flows (h : Flows I step content inflow outflow) {s : σ} (hs : I s) (is : List ι) :
    content s ++ (outputs step s is).flatMap inflow =
      (outputs step s is).flatMap outflow ++ content (run step s is) := by
  induction is generalizing s with
  | nil => simp
  | cons i is ih =>
    obtain ⟨hs', hflow⟩ := h s i hs
    rw [outputs_cons, List.flatMap_cons, List.flatMap_cons, ← List.append_assoc, hflow,
      List.append_assoc, ih hs', run_cons, List.append_assoc]

/-- **What waits comes out.**  If every turn on a queue that is not empty takes something out, a run
takes out as much as it has turns, or all that was there at its beginning. -/
theorem min_le_outflow (h : Flows I step content inflow outflow) {turn : ι → Bool}
    (hturn : ∀ s i, turn i = true → content s ≠ [] → outflow (step s i).2 ≠ []) {s : σ} (hs : I s)
    (is : List ι) : min (is.countP turn) (content s).length ≤
      ((outputs step s is).flatMap outflow).length := by
  induction is generalizing s with
  | nil => exact Nat.min_le_left _ _
  | cons i is ih =>
    obtain ⟨hs', hflow⟩ := h s i hs
    have hrest := ih hs'
    have hlen := congrArg List.length hflow
    have hout : turn i = true → content s ≠ [] → 0 < (outflow (step s i).2).length :=
      fun hi hne => List.length_pos_iff.mpr (hturn s i hi hne)
    rw [List.length_append, List.length_append] at hlen
    rw [outputs_cons, List.flatMap_cons, List.length_append, List.countP_cons]
    rcases Nat.eq_zero_or_pos (content s).length with hempty | hpos
    · omega
    · split
      · rename_i hi
        have hone := hout hi (List.length_pos_iff.mp hpos)
        omega
      · omega

/-- Where of each list only a part is kept, all is kept only if nothing is left out anywhere. -/
theorem flatMap_eq_iff {f g : β → List α} {bs : List β}
    (h : ∀ b ∈ bs, (f b).Sublist (g b)) :
    bs.flatMap f = bs.flatMap g ↔ ∀ b ∈ bs, f b = g b := by
  induction bs with
  | nil => simp
  | cons b bs ih =>
    rw [List.forall_mem_cons] at h
    rw [List.flatMap_cons, List.flatMap_cons, List.forall_mem_cons, ← ih h.2]
    constructor
    · intro heq
      have hrest := List.Sublist.flatMap_right bs h.2
      have hlen := congrArg List.length heq
      rw [List.length_append, List.length_append] at hlen
      have hle := h.1.length_le
      have hle' := hrest.length_le
      exact ⟨h.1.eq_of_length (by omega), hrest.eq_of_length (by omega)⟩
    · rintro ⟨hfirst, hrest⟩
      rw [hfirst, hrest]

end TaskQueue
