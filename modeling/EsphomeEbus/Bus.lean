import EsphomeEbus.Addresses
import EsphomeEbus.Library.SharedMedium

/-!
# Nodes that share a bus

Any number of nodes on one wired-AND bus, slot by slot and without a bound on the number of slots.
Where no node sends, the slot carries a byte from elsewhere: a SYN of the generator, or a byte of a
device that is not a node of this code.

* `Bus.step`: one slot of the bus, an instance of `SharedMedium.slot`;
* `Coherent`: what the nodes have in common, since they hear the same bytes;
* `Turn`: whose turn it is to send: nobody's, that of the contenders in the slot after a SYN, or
  that of one node;
* `turn_step`, `regular_run`: one slot, and every run;
* `one_sender`, `sent_intact`: no two nodes send at once except for their QQ in the slot after a
  SYN, and what a node sends in any other slot gets through.
-/

namespace EsphomeEbus

open Elf Transducer SharedMedium WiredAnd

/-- The nodes of a bus, each with the bytes it has still to send. -/
abbrev Bus (n : ℕ) := Fin n → Station Ebus Byte

/-- What a slot brings: the byte from elsewhere, and what each node finds besides. -/
abbrev BusSlot (n : ℕ) := Slot n Intake Byte

namespace Bus

variable {n : ℕ}

/-- One slot of the bus. -/
def step (bus : Bus n) (x : BusSlot n) : Bus n × Byte := slot Ebus.react andAll bus x

/-- The bus as it is set up. -/
def start (configs : Fin n → Config) : Bus n := fun i => ⟨Ebus.init (configs i), []⟩

variable (bus : Bus n)

def address (i : Fin n) : Byte := (bus i).state.config.primaryAddress

/-- The active command of a node. -/
def command (i : Fin n) : SendCommand := (bus i).state.activeCommand

/-- The nodes have primary addresses, and no two of them the same secondary one. -/
structure Addressed : Prop where
  primary : ∀ i, isPrimary (bus.address i) = true
  apart : ∀ i j, toSecondary (bus.address i) = toSecondary (bus.address j) → i = j

/-- What a slot may bring: new commands of the nodes and replies that fit, and nothing from
elsewhere that a node in the arbitration takes for its own QQ. -/
structure Orderly (x : BusSlot n) : Prop where
  intake : ∀ i, (x.intake i).WellFormed (bus.address i)
  foreign : (∀ i, (bus i).pending = []) →
    ∀ i, Arbitrating (bus.command i).toTelegramBase → x.idle ≠ (bus.command i).getQq

/-- The nodes have heard the same bytes; each works on commands of its own. -/
structure Coherent : Prop where
  view : ∀ i j, (bus i).state.receiving = (bus j).state.receiving
  heard : ∀ i, ∃ ys, Heard (bus i).state.receivingTelegram ys
  early : ∀ i, (bus i).state.EarlyInArbitration
  owns : ∀ i, (bus i).state.Owns (bus.address i)

/-- A byte that does not interfere with a command in the arbitration, which is in its second round.
-/
structure LeavesAlone (b : Byte) (s : Ebus) : Prop where
  inEsc : s.inEsc = false
  charCount : s.charCountSinceLastSyn = 1
  ne_syn : b ≠ syn
  ne_esc : b ≠ esc
  ne_qq : b ≠ s.activeCommand.getQq

/-- One node sends: `b` in the next slot, and then `p`.  Nobody answers before the last byte, nobody
in the arbitration takes `b` for its QQ, and nobody takes an escaped byte for an address. -/
structure Talks (a : Fin n) (b : Byte) (p : List Byte) : Prop where
  pending : (bus a).pending = b :: p
  alone : Alone a bus
  first : ∀ i, (bus.command i).state ≠ .waitForArbitration
  listen : ∀ i, Uninterrupted (bus i).state.receiving (b :: p)
  leaves : ∀ i, Arbitrating (bus.command i).toTelegramBase → LeavesAlone b (bus i).state
  plain : ∀ i, ExpectsPlain (bus i).state.receiving b

/-- Whose turn it is to send. -/
inductive Turn : Prop
  | quiet : (∀ i, (bus i).pending = []) →
      (∀ i, (bus.command i).state ≠ .waitForArbitration) →
      (∀ i, Arbitrating (bus.command i).toTelegramBase →
        (bus i).state.charCountSinceLastSyn = 1) → Turn
  | contention : (∀ i, (bus i).state.AfterSyn) →
      (∀ i, (bus i).pending = if Arbitrating (bus.command i).toTelegramBase
        then [(bus.command i).getQq] else []) → Turn
  | talk {a : Fin n} {b : Byte} {p : List Byte} : bus.Talks a b p → Turn

variable {bus} {x : BusSlot n} {b : Byte}

/-! ### One node in a slot -/

theorem step_state (i : Fin n) : ((bus.step x).1 i).state =
    ((bus i).state.react (bus.step x).2 (x.intake i)).1 := rfl

theorem step_pending (i : Fin n) : ((bus.step x).1 i).pending =
    (bus i).pending.tail ++ ((bus i).state.react (bus.step x).2 (x.intake i)).2 := rfl

@[simp] theorem step_address (i : Fin n) : (bus.step x).1.address i = bus.address i := by
  rw [address, step_state, Ebus.react_config]
  rfl

theorem Addressed.step (h : bus.Addressed) : (bus.step x).1.Addressed where
  primary i := by rw [step_address]; exact h.primary i
  apart i j hij := by
    rw [step_address, step_address] at hij
    exact h.apart i j hij

theorem Addressed.distinct (h : bus.Addressed) {i j : Fin n}
    (hij : bus.address i = bus.address j) : i = j := h.apart i j (congrArg toSecondary hij)

theorem Orderly.delivers (hx : bus.Orderly x) (i : Fin n) (b : Byte) :
    Ebus.Delivers ((x.intake i).call b) := (hx.intake i).delivers b

theorem Coherent.step (h : bus.Coherent) (hx : bus.Orderly x) : (bus.step x).1.Coherent where
  view i j := by
    rw [step_state, step_state, Ebus.react_receiving, Ebus.react_receiving, h.view i j]
  heard i := Ebus.heard_react (h.heard i)
  early i := by
    obtain ⟨ys, hheard⟩ := h.heard i
    exact Ebus.early_step (h.early i) hheard.opensEmpty (hx.delivers i _)
  owns i := by
    rw [step_address]
    exact Ebus.owns_react (h.owns i) (hx.intake i)

/-- The QQ of a command in the arbitration is the node's address. -/
theorem Coherent.qq_eq (h : bus.Coherent) (ha : bus.Addressed) {i : Fin n}
    (harb : Arbitrating (bus.command i).toTelegramBase) :
    (bus.command i).getQq = bus.address i :=
  ((h.owns i).primary (ha.primary i) harb).2

/-- After a byte that is no SYN nobody is in the first round. -/
theorem not_first_round (hx : bus.Orderly x) (hsyn : (bus.step x).2 ≠ syn) {i : Fin n}
    (hfirst : (bus.command i).state ≠ .waitForArbitration) :
    ((bus.step x).1.command i).state ≠ .waitForArbitration := by
  intro hs
  rcases Ebus.react_arbitrating (hx.delivers i _) hsyn (.inl hs) with ⟨hs', -⟩ | ⟨heq, -⟩
  · exact hfirst hs'
  · have hsame : (bus.step x).1.command i = bus.command i := heq
    rw [hsame] at hs
    exact hfirst hs

/-! ### The kinds of slots -/

/-- The telegram that made one node send makes no other node send. -/
theorem Coherent.due_unique (h : bus.Coherent) (ha : bus.Addressed) {i j : Fin n} {y z : Intake}
    {p q : List Byte} (hi : (bus i).state.Due y p) (hj : (bus j).state.Due z q) : i = j := by
  have ht : (bus i).state.receivingTelegram = (bus j).state.receivingTelegram :=
    congrArg Prod.snd (h.view i j)
  cases hi with
  | answer hs hz =>
    rw [ht] at hs hz
    cases hj with
    | answer _ hz' => exact ha.apart i j (hz.symm.trans hz')
    | acknowledge hs' =>
      rw [hs] at hs'
      cases hs'
  | acknowledge hs hq =>
    rw [ht] at hs hq
    cases hj with
    | answer hs' =>
      rw [hs] at hs'
      cases hs'
    | acknowledge _ hq' => exact ha.distinct (hq.symm.trans hq')

/-- Where something is due nobody is in the arbitration. -/
theorem Coherent.not_arbitrating_of_due (h : bus.Coherent) {i : Fin n} {y : Intake} {p : List Byte}
    (hi : (bus i).state.Due y p) (j : Fin n) :
    ¬ Arbitrating (bus.command j).toTelegramBase := by
  intro harb
  have ht : (bus j).state.receivingTelegram = (bus i).state.receivingTelegram :=
    congrArg Prod.snd (h.view j i)
  have hearly := (h.early j).early harb
  rw [ht] at hearly
  cases hi with
  | answer hs =>
    rcases hearly with happart | ⟨hs', -⟩
    · exact happart.2.1 hs
    · rw [hs] at hs'
      cases hs'
  | acknowledge hs =>
    rcases hearly with happart | ⟨hs', -⟩
    · exact happart.2.2.2 hs
    · rw [hs] at hs'
      cases hs'

/-- What is due to be sent interrupts nobody. -/
theorem Coherent.uninterrupted_of_due (h : bus.Coherent) (ha : bus.Addressed) {i : Fin n}
    {y : Intake} {p : List Byte} (hy : y.WellFormed (bus.address i))
    (hesc : (bus i).state.inEsc = false) (hi : (bus i).state.Due y p) (j : Fin n) :
    Uninterrupted (bus j).state.receiving p := by
  obtain ⟨ys, hheard⟩ := h.heard i
  have hview : (bus j).state.receiving = (false, (bus i).state.receivingTelegram) := by
    rw [h.view j i, ← hesc]
    rfl
  rw [hview]
  cases hi with
  | answer hs hz hp =>
    rw [hp]
    exact uninterrupted_answer hheard hs (ha.primary i) hz hy.replies
  | acknowledge hs _ hp =>
    rw [hp]
    exact uninterrupted_acknowledge hs _

/-- What is due to be sent is no request. -/
theorem Coherent.expectsPlain_of_due (h : bus.Coherent) {i : Fin n} {y : Intake} {p : List Byte}
    (hi : (bus i).state.Due y p) (j : Fin n) : ExpectsPlain (bus j).state.receiving b := by
  left
  rw [h.view j i]
  cases hi with
  | answer hs => exact Telegram.settled_of_state hs (by decide)
  | acknowledge hs => exact Telegram.settled_of_state hs (by decide)

/-- **The last byte of a transmission**, or a byte from elsewhere. -/
theorem turn_of_last (ha : bus.Addressed) (hc : bus.Coherent) (hx : bus.Orderly x)
    (hlast : ∀ i, (bus i).pending.tail = [])
    (hfirst : ∀ i, (bus.command i).state ≠ .waitForArbitration)
    (hqq : ∀ i, Arbitrating (bus.command i).toTelegramBase →
      (bus.step x).2 ≠ (bus.command i).getQq ∧ (bus i).state.charCountSinceLastSyn = 1) :
    (bus.step x).1.Turn := by
  have hpending : ∀ i, ((bus.step x).1 i).pending =
      ((bus i).state.react (bus.step x).2 (x.intake i)).2 := by
    intro i
    rw [step_pending, hlast i, List.nil_append]
  have hc' := hc.step hx
  by_cases hsyn : (bus.step x).2 = syn
  · by_cases hesc : ∀ i, (bus i).state.inEsc = false
    · -- a SYN: the contenders send their QQ
      have hslot := fun i => Ebus.react_syn (hc.owns i) (hx.intake i) (ha.primary i) (hesc i)
        (hfirst i)
      rw [← hsyn] at hslot
      exact .contention (fun i => (hslot i).1) fun i => (hpending i).trans (hslot i).2
    · -- a SYN that ends an escape pair is heard by nobody
      obtain ⟨k, hk⟩ := not_forall.mp hesc
      have hlost := fun i => Ebus.react_syn_lost (s := (bus i).state) (x := x.intake i) (by
        have hview := congrArg Prod.fst (hc.view i k)
        exact hview.trans (Bool.eq_true_of_not_eq_false hk))
      rw [← hsyn] at hlost
      have hsame : ∀ i, (bus.step x).1.command i = bus.command i := fun i => (hlost i).2.1
      refine .quiet (fun i => (hpending i).trans (hlost i).1) (fun i => ?_) fun i harb => ?_
      · rw [hsame i]
        exact hfirst i
      · rw [hsame i] at harb
        exact (hlost i).2.2.trans (hqq i harb).2
  · have hdue := fun i (hi : ((bus i).state.react (bus.step x).2 (x.intake i)).2 ≠ []) =>
      Ebus.react_due (hx.delivers i _) hsyn (fun harb => (hqq i harb).1) hi
    by_cases hsent : ∃ a, ((bus a).state.react (bus.step x).2 (x.intake a)).2 ≠ []
    · -- one node sends what is due
      obtain ⟨a, hsent⟩ := hsent
      obtain ⟨hesc, hdue'⟩ := hdue a hsent
      have halone : Alone a (bus.step x).1 := by
        intro j hj
        rw [hpending j]
        by_contra hsent'
        exact hj (hc'.due_unique ha.step (i := j) (j := a) (hdue j hsent').2 hdue')
      have hfeed : (x.intake a).WellFormed ((bus.step x).1.address a) := by
        rw [step_address]
        exact hx.intake a
      obtain ⟨c, p, hp⟩ := List.exists_cons_of_ne_nil hsent
      refine .talk ⟨(hpending a).trans hp, halone, fun i => not_first_round hx hsyn (hfirst i),
        fun i => ?_, fun i harb => ?_, hc'.expectsPlain_of_due (i := a) hdue'⟩
      · rw [← hp]
        exact hc'.uninterrupted_of_due ha.step (i := a) hfeed hesc hdue' i
      · exact absurd harb (hc'.not_arbitrating_of_due (i := a) hdue' i)
    · refine .quiet (fun i => ?_) (fun i => not_first_round hx hsyn (hfirst i)) fun i harb => ?_
      · rw [hpending i]
        by_contra hi
        exact hsent ⟨i, hi⟩
      · rcases Ebus.react_arbitrating (hx.delivers i _) hsyn harb with ⟨hs, -⟩ | ⟨heq, hcount, -⟩
        · exact absurd hs (hfirst i)
        · have hsame : (bus.step x).1.command i = bus.command i := heq
          rw [hsame] at harb
          exact hcount.trans (hqq i harb).2

/-- What the contenders put in the slot after a SYN is a primary address. -/
theorem isPrimary_slot (ha : bus.Addressed) (hc : bus.Coherent)
    (hpending : ∀ i, (bus i).pending = if Arbitrating (bus.command i).toTelegramBase
      then [(bus.command i).getQq] else [])
    (hsome : ∃ i, Arbitrating (bus.command i).toTelegramBase) :
    isPrimary (bus.step x).2 = true := by
  have hheads : heads bus ≠ [] := by
    obtain ⟨i, harb⟩ := hsome
    intro hnil
    have hi := heads_eq_nil_iff.mp hnil i
    rw [hpending i, if_pos harb] at hi
    cases hi
  have hcarried : (bus.step x).2 = andAll (heads bus) := carried_of_heads hheads x.idle
  rw [hcarried]
  refine andAll_primary hheads fun w hw => ?_
  obtain ⟨i, p, hp⟩ := mem_heads.mp hw
  rw [hpending i] at hp
  split at hp
  · rename_i harb
    obtain ⟨rfl, -⟩ := List.cons.inj hp
    rw [hc.qq_eq ha harb]
    exact ha.primary i
  · cases hp

/-- **The slot after a SYN**: it has at most one winner, which goes on alone. -/
theorem turn_of_contention (ha : bus.Addressed) (hc : bus.Coherent) (hx : bus.Orderly x)
    (hafter : ∀ i, (bus i).state.AfterSyn)
    (hpending : ∀ i, (bus i).pending = if Arbitrating (bus.command i).toTelegramBase
      then [(bus.command i).getQq] else [])
    (hsome : ∃ i, Arbitrating (bus.command i).toTelegramBase) : (bus.step x).1.Turn := by
  have hprim : isPrimary (bus.step x).2 = true := isPrimary_slot ha hc hpending hsome
  have hsyn := isPrimary_ne_syn hprim
  have hesc := isPrimary_ne_esc hprim
  have hslot := fun i => Ebus.react_slot (hx.delivers i _) (hafter i) hsyn hesc
  have htail : ∀ i, (bus i).pending.tail = [] := by
    intro i
    rw [hpending i]
    split <;> rfl
  have hpending' : ∀ i, ((bus.step x).1 i).pending =
      ((bus i).state.react (bus.step x).2 (x.intake i)).2 := by
    intro i
    rw [step_pending, htail i, List.nil_append]
  -- who is still in the arbitration is so for the second round
  have hsecond : ∀ i, Arbitrating ((bus.step x).1.command i).toTelegramBase →
      ((bus.step x).1.command i).state = .waitForArbitration2nd ∧
        ((bus.step x).1.command i).getQq = (bus.command i).getQq ∧
        Arbitrating (bus.command i).toTelegramBase := by
    intro i harb
    rcases Ebus.react_arbitrating (hx.delivers i _) hsyn harb with
      ⟨hs, hs', hreq⟩ | ⟨-, -, hesc' | hesc'⟩
    · have hreq' : ((bus.step x).1.command i).request = (bus.command i).request := hreq
      refine ⟨hs', ?_, .inl hs⟩
      rw [TelegramBase.getQq, TelegramBase.getQq, hreq']
    · rw [(hafter i).inEsc] at hesc'
      cases hesc'
    · exact absurd hesc' hesc
  have hfirst : ∀ i, ((bus.step x).1.command i).state ≠ .waitForArbitration := by
    intro i hs
    rw [(hsecond i (.inl hs)).1] at hs
    cases hs
  by_cases hwin : ∃ a, Arbitrating (bus.command a).toTelegramBase ∧
      (bus.step x).2 = (bus.command a).getQq
  · obtain ⟨a, harb, hwon⟩ := hwin
    have hrequest : ((bus.step x).1 a).pending = uartSendRemainingRequestPart (bus.command a) := by
      rw [hpending' a, (hslot a).2, if_pos ⟨harb, hwon⟩]
      rfl
    have halone : Alone a (bus.step x).1 := by
      intro j hj
      rw [hpending' j, (hslot j).2, if_neg]
      rintro ⟨harb', hwon'⟩
      have hqq : bus.address j = bus.address a := by
        rw [← hc.qq_eq ha harb, ← hc.qq_eq ha harb', ← hwon]
        exact hwon'.symm
      exact hj (ha.distinct hqq)
    have hours : Ours (bus.address a) (bus.command a).toTelegramBase := by
      rcases hc.owns a with hf | hours
      · rw [show (bus a).state.activeCommand.isFinished = false from harb.unfinished] at hf
        cases hf
      · exact hours
    obtain ⟨p, hp⟩ := hours.request_eq_cons
    have hrecv : ∀ i, ((bus.step x).1 i).state.receiving = (false,
        (bus i).state.receivingTelegram.refresh.receive (bus.step x).2 (bus.step x).2) := by
      intro i
      have hread : wire.read false (bus.step x).2 = (false, [.plain (bus.step x).2]) := by
        rw [Stuffing.read, if_neg (by simp), if_neg (show (bus.step x).2 ≠ wire.esc from hesc)]
      rw [step_state, Ebus.react_receiving, Ebus.receiving, (hafter i).inEsc, receiver,
        Stuffing.behind, hread]
      rfl
    refine .talk ⟨hrequest.trans hp, halone, hfirst, fun i => ?_, fun i harb' => ?_, fun i => ?_⟩
    · obtain ⟨ys, hheard⟩ := hc.heard i
      rw [hrecv i, ← hp]
      exact uninterrupted_request hheard (hafter i).apart hsyn _
    · obtain ⟨-, hqq, hbefore⟩ := hsecond i harb'
      refine ⟨?_, (hslot i).1, hours.zz_ne_syn, hours.zz_ne_esc, ?_⟩
      · exact (@Ebus.symbol_slot _ ((x.intake i).call (bus.step x).2) (hafter i) hsyn
          hesc).1.inEsc
      · intro heq
        have hqq' : (bus.command a).getZz = (bus.command i).getQq := heq.trans hqq
        have hzz := hours.zz_not_primary
        rw [hqq', hc.qq_eq ha hbefore, ha.primary i] at hzz
        cases hzz
    · obtain ⟨ys, hheard⟩ := hc.heard i
      rw [hrecv i]
      exact (hafter i).apart.expectsPlain hheard.opensEmpty hsyn hours.zz_ne_esc
  · refine .quiet (fun i => ?_) hfirst fun i _ => (hslot i).1
    rw [hpending' i, (hslot i).2, if_neg]
    exact fun h => hwin ⟨i, h⟩

/-- **A byte of a transmission** that is not its last. -/
theorem Talks.next {a : Fin n} {c : Byte} {p : List Byte} (h : bus.Talks a b (c :: p))
    (hx : bus.Orderly x) : (bus.step x).2 = b ∧ (bus.step x).1.Talks a c p := by
  have hcarried : (bus.step x).2 = b := h.alone.carried_eq h.pending (andAll_singleton b) x.idle
  have hlisten := fun i => uninterrupted_cons.mp (h.listen i)
  have hsyn : b ≠ syn := ((hlisten a).1 (by simp)).1
  have hunanswered : Unanswered Ebus.react andAll bus x := by
    intro i
    rw [show carried andAll bus x.idle = b from hcarried]
    exact Ebus.react_unprompted (hx.delivers i b) hsyn (fun harb => (h.leaves i harb).ne_qq)
      ((hlisten i).1 (by simp)).2
  obtain ⟨-, hpending, halone⟩ := h.alone.slot h.pending (andAll_singleton b) hunanswered
  have hsyn' : (bus.step x).2 ≠ syn := by rwa [hcarried]
  refine ⟨hcarried, hpending, halone, fun i => not_first_round hx hsyn' (h.first i),
    fun i => ?_, fun i harb => ?_, fun i => ?_⟩
  · rw [step_state, Ebus.react_receiving, hcarried]
    exact (hlisten i).2
  · rcases Ebus.react_arbitrating (hx.delivers i _) hsyn' harb with ⟨hs, -⟩ | ⟨heq, -, hesc⟩
    · exact absurd hs (h.first i)
    · have hsame : (bus.step x).1.command i = bus.command i := heq
      rw [hsame] at harb
      rcases hesc with hesc | hesc
      · rw [(h.leaves i harb).inEsc] at hesc
        cases hesc
      · exact absurd (hcarried.symm.trans hesc) (h.leaves i harb).ne_esc
  · rw [step_state, Ebus.react_receiving, hcarried]
    exact .inl ((h.plain i).settled hsyn)

/-- **One slot**: it is always somebody's turn, or nobody's. -/
theorem turn_step (ha : bus.Addressed) (hc : bus.Coherent) (ht : bus.Turn) (hx : bus.Orderly x) :
    (bus.step x).1.Turn := by
  cases ht with
  | quiet hpending hfirst hcount =>
    have hcarried : (bus.step x).2 = x.idle := carried_of_silent hpending x.idle
    refine turn_of_last ha hc hx (fun i => by rw [hpending i]; rfl) hfirst fun i harb => ?_
    rw [hcarried]
    exact ⟨hx.foreign hpending i harb, hcount i harb⟩
  | contention hafter hpending =>
    by_cases hsome : ∃ i, Arbitrating (bus.command i).toTelegramBase
    · exact turn_of_contention ha hc hx hafter hpending hsome
    · have hnone : ∀ i, ¬ Arbitrating (bus.command i).toTelegramBase := not_exists.mp hsome
      refine turn_of_last ha hc hx (fun i => ?_) (fun i hs => hnone i (.inl hs))
        fun i harb => absurd harb (hnone i)
      rw [hpending i, if_neg (hnone i)]
      rfl
  | @talk a b p h =>
    cases p with
    | nil =>
      have hcarried : (bus.step x).2 = b :=
        h.alone.carried_eq h.pending (andAll_singleton b) x.idle
      refine turn_of_last ha hc hx (fun i => ?_) h.first fun i harb => ?_
      · by_cases hi : i = a
        · rw [hi, h.pending]
          rfl
        · rw [h.alone i hi]
          rfl
      · rw [hcarried]
        exact ⟨(h.leaves i harb).ne_qq, (h.leaves i harb).charCount⟩
    | cons c p => exact .talk (h.next hx).2

/-- A transmission is carried as it is. -/
theorem Talks.carried {a : Fin n} {p : List Byte} (h : bus.Talks a b p) {ys : List (BusSlot n)}
    (hlen : ys.length = p.length + 1) (hy : Along step Orderly bus ys) :
    outputs step bus ys = b :: p := by
  induction p generalizing bus b ys with
  | nil =>
    obtain ⟨y, rfl⟩ := List.length_eq_one_iff.mp hlen
    have hcarried : (bus.step y).2 = b :=
      h.alone.carried_eq h.pending (andAll_singleton b) y.idle
    rw [outputs_cons, hcarried, outputs_nil]
  | cons c p ih =>
    cases ys with
    | nil => cases hlen
    | cons y ys =>
      obtain ⟨hcarried, h'⟩ := h.next hy.1
      rw [outputs_cons, hcarried, ih h' (Nat.succ.inj hlen) hy.2]

/-! ### Whole runs -/

/-- What holds between any two slots. -/
structure Regular (bus : Bus n) : Prop where
  addressed : bus.Addressed
  coherent : bus.Coherent
  turn : bus.Turn

theorem regular_start {configs : Fin n → Config}
    (hprim : ∀ i, isPrimary (configs i).primaryAddress = true)
    (hapart : ∀ i j, toSecondary (configs i).primaryAddress =
      toSecondary (configs j).primaryAddress → i = j) : (start configs).Regular where
  addressed := ⟨hprim, hapart⟩
  coherent :=
    { view := fun _ _ => rfl
      heard := fun _ => ⟨[], .idle rfl Telegram.holds_new⟩
      early := fun i => @Ebus.early_after (configs i) [] (by simp)
      owns := fun _ => .inl rfl }
  turn := .quiet (fun _ => rfl) (fun _ => by show TelegramState.endCompleted ≠ _; decide)
    fun _ harb => absurd harb (@not_arbitrating_of_state _ .endCompleted rfl (by decide))

theorem regular_step (h : bus.Regular) (hx : bus.Orderly x) : (bus.step x).1.Regular :=
  ⟨h.addressed.step, h.coherent.step hx, turn_step h.addressed h.coherent h.turn hx⟩

theorem regular_run (h : bus.Regular) {xs : List (BusSlot n)} (hx : Along step Orderly bus xs) :
    (run step bus xs).Regular :=
  run_keeps step (fun _ _ => regular_step) bus xs h hx

theorem run_address (xs : List (BusSlot n)) (i : Fin n) :
    (run step bus xs).address i = bus.address i :=
  run_frame step (fun bus => bus.address i) (fun _ _ => step_address i) bus xs

/-- The receivers run on the bytes carried. -/
theorem run_receiving (xs : List (BusSlot n)) (i : Fin n) :
    (run step bus xs i).state.receiving =
      run (receiver false) (bus i).state.receiving (outputs step bus xs) := by
  induction xs generalizing bus with
  | nil => rfl
  | cons x xs ih => rw [run_cons, ih, outputs_cons, run_cons, step_state, Ebus.react_receiving]

/-- Two nodes that have something to send at once have their QQ to send, in answer to a SYN. -/
theorem Regular.contend (h : bus.Regular) {i j : Fin n} (hij : i ≠ j)
    (hi : (bus i).pending ≠ []) (hj : (bus j).pending ≠ []) :
    (∀ k, (bus k).state.AfterSyn) ∧ (bus i).pending = [bus.address i] ∧
      (bus j).pending = [bus.address j] := by
  cases h.turn with
  | quiet hpending => exact absurd (hpending i) hi
  | contention hafter hpending =>
    have hqq : ∀ k, (bus k).pending ≠ [] → (bus k).pending = [bus.address k] := by
      intro k hk
      have hk' := hpending k
      split at hk'
      · rename_i harb
        rw [hk', h.coherent.qq_eq h.addressed harb]
      · exact absurd hk' hk
    exact ⟨hafter, hqq i hi, hqq j hj⟩
  | @talk a _ _ htalk =>
    by_cases hia : i = a
    · exact absurd (htalk.alone j fun hja => hij (hia.trans hja.symm)) hj
    · exact absurd (htalk.alone i hia) hi

/-- A node that has something to send, and not just its QQ after a SYN, is in the middle of a
transmission. -/
theorem Regular.talks (h : bus.Regular) {a : Fin n} {p : List Byte}
    (hp : (bus a).pending = b :: p) (hne : b :: p ≠ [bus.address a] ∨
      ∀ i, Arbitrating (bus.command i).toTelegramBase →
        (bus i).state.charCountSinceLastSyn = 1) : bus.Talks a b p := by
  cases h.turn with
  | quiet hpending =>
    rw [hpending a] at hp
    cases hp
  | contention hafter hpending =>
    have hp' := hp.symm.trans (hpending a)
    split at hp'
    · rename_i harb
      rcases hne with hne | hcount
      · rw [h.coherent.qq_eq h.addressed harb] at hp'
        exact absurd hp' hne
      · have hone := hcount a harb
        rw [(hafter a).charCount] at hone
        cases hone
    · cases hp'
  | @talk c _ _ htalk =>
    by_cases hac : a = c
    · subst hac
      obtain ⟨rfl, rfl⟩ := List.cons.inj (htalk.pending.symm.trans hp)
      exact htalk
    · rw [htalk.alone a hac] at hp
      cases hp

/-- Who is in the arbitration after a byte that is no SYN has heard one byte since the last SYN. -/
theorem Regular.charCount (h : bus.Regular) (hx : bus.Orderly x) (hsyn : (bus.step x).2 ≠ syn)
    {i : Fin n} (harb : Arbitrating ((bus.step x).1.command i).toTelegramBase) :
    ((bus.step x).1 i).state.charCountSinceLastSyn = 1 := by
  have hcases : Arbitrating (bus.command i).toTelegramBase ∧
      ((bus.command i).state = .waitForArbitration ∨
        ((bus.step x).1 i).state.charCountSinceLastSyn = (bus i).state.charCountSinceLastSyn) := by
    rcases Ebus.react_arbitrating (hx.delivers i _) hsyn harb with ⟨hs, -⟩ | ⟨heq, hcount, -⟩
    · exact ⟨.inl hs, .inl hs⟩
    · have hsame : (bus.step x).1.command i = bus.command i := heq
      exact ⟨hsame ▸ harb, .inr hcount⟩
  obtain ⟨hbefore, hcount⟩ := hcases
  cases h.turn with
  | quiet _ hfirst hcount' => exact (hcount.resolve_left (hfirst i)).trans (hcount' i hbefore)
  | contention hafter hpending =>
    have hprim : isPrimary (bus.step x).2 = true :=
      isPrimary_slot h.addressed h.coherent hpending ⟨i, hbefore⟩
    exact (Ebus.react_slot (hx.delivers i _) (hafter i) hsyn (isPrimary_ne_esc hprim)).1
  | talk htalk =>
    exact (hcount.resolve_left (htalk.first i)).trans (htalk.leaves i hbefore).charCount

/-- What a node has to send, and not just its QQ after a SYN, is carried as it is. -/
theorem Regular.carried (h : bus.Regular) {a : Fin n} {p : List Byte} (hp : (bus a).pending = p)
    (hne : p ≠ [bus.address a] ∨ ∀ i, Arbitrating (bus.command i).toTelegramBase →
      (bus i).state.charCountSinceLastSyn = 1) {ys : List (BusSlot n)}
    (hlen : ys.length = p.length) (hy : Along step Orderly bus ys) : outputs step bus ys = p := by
  cases p with
  | nil =>
    rw [List.length_eq_zero_iff.mp hlen]
    rfl
  | cons b p => exact (h.talks hp hne).carried hlen hy

/-- What a node has to send after a byte that is no SYN is carried as it is. -/
theorem Regular.carried_after (h : bus.Regular) (hquiet : ∀ i, (bus i).pending = [])
    {xs : List (BusSlot n)} (hx : Along step Orderly bus xs)
    (hlast : (outputs step bus xs).getLast? ≠ some syn) {a : Fin n} {p : List Byte}
    (hp : (run step bus xs a).pending = p) {ys : List (BusSlot n)} (hlen : ys.length = p.length)
    (hy : Along step Orderly (run step bus xs) ys) : outputs step (run step bus xs) ys = p := by
  rcases List.eq_nil_or_concat xs with rfl | ⟨before, x, rfl⟩
  · obtain rfl : [] = p := (hquiet a).symm.trans hp
    rw [List.length_eq_zero_iff.mp hlen]
    rfl
  · rw [List.concat_eq_append] at hx hlast hp hy ⊢
    obtain ⟨hx, hx'⟩ := (along_concat step bus before x).mp hx
    have hbefore : (run step bus before).Regular := regular_run h hx
    have hsyn : ((run step bus before).step x).2 ≠ syn := by
      intro hsyn
      rw [outputs_append, List.getLast?_append] at hlast
      exact hlast (congrArg some hsyn)
    rw [run_concat] at hp hy ⊢
    exact (regular_step hbefore hx').carried hp (.inr fun i harb => hbefore.charCount hx' hsyn harb)
      hlen hy

/-- Where nothing but a SYN comes from elsewhere, SYN is nobody's address. -/
theorem Regular.unreserved (h : bus.Regular) (hidle : x.idle = syn) {r : Bool × Telegram}
    (hr : ∀ i, (bus i).state.receiving = r) (hu : r.2.Unreserved) :
    (receiver false r (bus.step x).2).1.2.Unreserved := by
  cases h.turn with
  | quiet hpending =>
    have hcarried : (bus.step x).2 = x.idle := carried_of_silent hpending x.idle
    exact unreserved_receiver hu fun _ => .inl (hcarried.trans hidle)
  | contention hafter hpending =>
    refine unreserved_receiver hu fun hpair => ?_
    by_cases hsome : ∃ i, Arbitrating (bus.command i).toTelegramBase
    · obtain ⟨i, -⟩ := hsome
      have hesc : r.1 = false := (congrArg Prod.fst (hr i)).symm.trans (hafter i).inEsc
      rw [hpair] at hesc
      cases hesc
    · have hnone : ∀ i, (bus i).pending = [] := by
        intro i
        rw [hpending i, if_neg (not_exists.mp hsome i)]
      have hcarried : (bus.step x).2 = x.idle := carried_of_silent hnone x.idle
      exact .inl (hcarried.trans hidle)
  | @talk a b p htalk =>
    have hcarried : (bus.step x).2 = b :=
      htalk.alone.carried_eq htalk.pending (andAll_singleton b) x.idle
    rw [hcarried, ← hr a]
    exact (htalk.plain a).unreserved (hr a ▸ hu)

section Runs

variable {configs : Fin n → Config}
  (hprim : ∀ i, isPrimary (configs i).primaryAddress = true)
  (hapart : ∀ i j, toSecondary (configs i).primaryAddress =
    toSecondary (configs j).primaryAddress → i = j)
  {xs : List (BusSlot n)} (hx : Along step Orderly (start configs) xs)

include hprim hapart hx

/-- **One sender at a time.**  In every run of a bus of nodes with primary addresses, no two of
which share a secondary one, two nodes have something to send at once only in the slot after a SYN,
and then each its QQ. -/
theorem one_sender {i j : Fin n} (hij : i ≠ j)
    (hi : (run step (start configs) xs i).pending ≠ [])
    (hj : (run step (start configs) xs j).pending ≠ []) :
    (∀ k, (run step (start configs) xs k).state.AfterSyn) ∧
      (run step (start configs) xs i).pending = [(configs i).primaryAddress] ∧
      (run step (start configs) xs j).pending = [(configs j).primaryAddress] := by
  have haddress : ∀ k, (run step (start configs) xs).address k = (configs k).primaryAddress :=
    fun k => run_address xs k
  have h := (regular_run (regular_start hprim hapart) hx).contend hij hi hj
  rwa [haddress i, haddress j] at h

/-- **What a node sends gets through.**  In every run of such a bus, whatever a node has to send,
other than right after a SYN, is carried by the next slots byte by byte, and heard by every node. -/
theorem sent_intact (hlast : (outputs step (start configs) xs).getLast? ≠ some syn) {a : Fin n}
    {p : List Byte} (hp : (run step (start configs) xs a).pending = p)
    {ys : List (BusSlot n)} (hlen : ys.length = p.length)
    (hy : Along step Orderly (run step (start configs) xs) ys) :
    outputs step (run step (start configs) xs) ys = p ∧
      ∀ i, (run step (start configs) (xs ++ ys) i).state.receiving =
        run (receiver false) (run step (start configs) xs i).state.receiving p := by
  have hcarried := (regular_start hprim hapart).carried_after (fun _ => rfl) hx hlast hp hlen hy
  refine ⟨hcarried, fun i => ?_⟩
  rw [run_append, run_receiving, hcarried]

end Runs

/-! ### A bus with nothing but a SYN generator -/

theorem Regular.orderly (h : bus.Regular) (hidle : x.idle = syn)
    (hx : ∀ i, (x.intake i).WellFormed (bus.address i)) : bus.Orderly x where
  intake := hx
  foreign _ i harb := by
    rw [hidle, h.coherent.qq_eq h.addressed harb]
    exact (isPrimary_ne_syn (h.addressed.primary i)).symm

theorem Regular.along (h : bus.Regular) {xs : List (BusSlot n)}
    (hx : ∀ x ∈ xs, x.idle = syn ∧ ∀ i, (x.intake i).WellFormed (bus.address i)) :
    Along step Orderly bus xs := by
  induction xs generalizing bus with
  | nil => trivial
  | cons x xs ih =>
    obtain ⟨hidle, hintake⟩ := hx x (by simp)
    have hx' := h.orderly hidle hintake
    refine ⟨hx', ih (regular_step h hx') fun y hy => ?_⟩
    obtain ⟨hidle', hintake'⟩ := hx y (List.mem_cons_of_mem x hy)
    exact ⟨hidle', fun i => by rw [step_address]; exact hintake' i⟩

theorem wellFormed_empty (address : Byte) : Intake.WellFormed address ⟨none, []⟩ :=
  ⟨fun _ hc => (Option.not_mem_none _ hc).elim, fun _ h => (List.not_mem_nil h).elim⟩

/-- A command of the node, as `prepare_command` builds it. -/
theorem wellFormed_new {address zz : Byte} {command : BitVec 16} {data : List Byte}
    (hlen : data.length < maxDataLength) (hzz : zz ≠ syn ∧ zz ≠ esc ∧ isPrimary zz = false) :
    Intake.WellFormed address ⟨some (.new address zz command data), []⟩ := by
  refine ⟨fun c hc => ?_, fun _ h => (List.not_mem_nil h).elim⟩
  obtain rfl := Option.some.inj hc
  rw [← SendCommand.getZz_new address zz command hlen] at hzz
  exact ⟨SendCommand.new_state _ _ _ _, SendCommand.getQq_new _ _ _ hlen, hzz.1, hzz.2.1, hzz.2.2⟩

/-- The nodes 0x30 and 0x13 get a command each, on a SYN. -/
def twoCommands : BusSlot 2 where
  idle := syn
  intake i := ⟨some (.new (if i.val = 0 then 0x30#8 else 0x13#8) 0x08#8 0x0704#16 []), []⟩

/-- Both send their QQ. -/
theorem two_contend :
    let bus := run step
      (start fun i : Fin 2 => defaultConfig (if i.val = 0 then 0x30#8 else 0x13#8)) [twoCommands]
    (∀ k, (bus k).state.AfterSyn) ∧ (bus 0).pending = [0x30#8] ∧ (bus 1).pending = [0x13#8] := by
  have hprim : ∀ i : Fin 2, isPrimary (if i.val = 0 then 0x30#8 else 0x13#8) = true := by decide
  have hapart : ∀ i j : Fin 2, toSecondary (if i.val = 0 then 0x30#8 else 0x13#8) =
      toSecondary (if j.val = 0 then 0x30#8 else 0x13#8) → i = j := by decide
  refine one_sender hprim hapart ((regular_start hprim hapart).along ?_) (by decide)
    (by decide +kernel) (by decide +kernel)
  intro x hx
  obtain rfl := List.mem_singleton.mp hx
  exact ⟨rfl, fun i => wellFormed_new (by decide) (by decide)⟩

/-- A node alone on the bus gets a command on a SYN, and nothing more. -/
def oneCommand : List (BusSlot 1) :=
  [⟨syn, fun _ => ⟨some (.new 0x10#8 0x08#8 0x0704#16 [0xAA#8]), []⟩⟩, ⟨syn, fun _ => ⟨none, []⟩⟩]

/-- It wins the bus, and its request is carried. -/
theorem request_intact :
    outputs step (run step (start fun _ : Fin 1 => defaultConfig 0x10#8) oneCommand)
        (List.replicate 7 ⟨syn, fun _ => ⟨none, []⟩⟩) =
      [0x08#8, 0x07#8, 0x04#8, 0x01#8, 0xA9#8, 0x01#8, 0xF4#8] := by
  have hregular := @regular_start _ (fun _ : Fin 1 => defaultConfig 0x10#8) (fun _ => rfl)
    (fun i j _ => Subsingleton.elim i j)
  have hfirst : Along step Orderly (start fun _ : Fin 1 => defaultConfig 0x10#8) oneCommand := by
    refine hregular.along fun x hx => ?_
    rcases List.mem_pair.mp hx with rfl | rfl
    · exact ⟨rfl, fun _ => wellFormed_new (by decide) (by decide)⟩
    · exact ⟨rfl, fun _ => wellFormed_empty _⟩
  have hrest : Along step Orderly
      (run step (start fun _ : Fin 1 => defaultConfig 0x10#8) oneCommand)
      (List.replicate 7 ⟨syn, fun _ => ⟨none, []⟩⟩) := by
    refine (regular_run hregular hfirst).along fun x hx => ?_
    obtain rfl := List.eq_of_mem_replicate hx
    exact ⟨rfl, fun _ => wellFormed_empty _⟩
  exact (@sent_intact _ _ (fun _ => rfl) (fun i j _ => Subsingleton.elim i j) _ hfirst
    (by decide +kernel) 0 _ (by decide +kernel) _ rfl hrest).1

end Bus

end EsphomeEbus
