import EsphomeEbus.Slot
import EsphomeEbus.Library.WiredAnd

/-!
# Arbitration among several nodes

Any number of nodes see the same SYN and send their QQ in the same slot.  The wire carries the
bitwise AND of what is sent in a slot, and the nibbles a primary address may have form a chain under
AND, so the wire shows the lowest priority class and the lowest sub-address among the contenders.

* `andAll_primary`, `least_class`, `andAll_mem_of_class`: what the wire shows of primary addresses;
* `Contenders.first_syn`, `first_round`, `second_syn`, `second_round`: all nodes, slot by slot;
* `arbitration_elects_one`: one node wins, in the first round or in the second, and no other sends.
-/

namespace EsphomeEbus

open Elf WiredAnd

/-! ### What the wire shows of primary addresses -/

theorem isPrimaryNibble_cases : ∀ {a : Byte}, isPrimaryNibble a = true →
    a = 0x00#8 ∨ a = 0x01#8 ∨ a = 0x03#8 ∨ a = 0x07#8 ∨ a = 0x0F#8 := by decide +kernel

/-- The nibbles of primary addresses are a chain under AND, in their numeric order. -/
theorem andChain_isPrimaryNibble : AndChain (fun a : Byte => isPrimaryNibble a = true) := by
  intro a b ha hb
  rcases isPrimaryNibble_cases ha with rfl | rfl | rfl | rfl | rfl <;>
    rcases isPrimaryNibble_cases hb with rfl | rfl | rfl | rfl | rfl <;> rfl

theorem getPriorityClass_and (a b : Byte) :
    getPriorityClass (a &&& b) = getPriorityClass a &&& getPriorityClass b := by
  unfold getPriorityClass
  ext i hi
  simp
  grind

theorem getSubAddress_and (a b : Byte) :
    getSubAddress (a &&& b) = getSubAddress a &&& getSubAddress b :=
  BitVec.ushiftRight_and_distrib _ _ _

/-- A byte is given by its two nibbles. -/
theorem eq_of_nibbles {a b : Byte} (hclass : getPriorityClass a = getPriorityClass b)
    (hsub : getSubAddress a = getSubAddress b) : a = b := by
  have hmod : ∀ x : Byte, (getPriorityClass x).toNat = x.toNat % 16 := by
    intro x
    rw [getPriorityClass, BitVec.toNat_and]
    exact Nat.and_two_pow_sub_one_eq_mod x.toNat 4
  have hdiv : ∀ x : Byte, (getSubAddress x).toNat = x.toNat / 16 := by
    intro x
    rw [getSubAddress, BitVec.toNat_ushiftRight, Nat.shiftRight_eq_div_pow]
  have hlow := congrArg BitVec.toNat hclass
  have hhigh := congrArg BitVec.toNat hsub
  rw [hmod, hmod] at hlow
  rw [hdiv, hdiv] at hhigh
  apply BitVec.eq_of_toNat_eq
  omega

theorem isPrimary_iff {a : Byte} : isPrimary a = true ↔
    isPrimaryNibble (getPriorityClass a) = true ∧ isPrimaryNibble (getSubAddress a) = true := by
  rw [isPrimary, Bool.and_eq_true]

section Shown

variable {bytes : List Byte} (hne : bytes ≠ []) (h : ∀ a ∈ bytes, isPrimary a = true)

include hne h

/-- The wire shows the lowest priority class. -/
theorem least_class : (∃ a ∈ bytes, getPriorityClass a = getPriorityClass (andAll bytes)) ∧
    ∀ a ∈ bytes, getPriorityClass (andAll bytes) ≤ getPriorityClass a :=
  andAll_least getPriorityClass_and andChain_isPrimaryNibble hne
    fun a ha => (isPrimary_iff.mp (h a ha)).1

/-- The wire shows the lowest sub-address. -/
theorem least_subAddress : (∃ a ∈ bytes, getSubAddress a = getSubAddress (andAll bytes)) ∧
    ∀ a ∈ bytes, getSubAddress (andAll bytes) ≤ getSubAddress a :=
  andAll_least getSubAddress_and andChain_isPrimaryNibble hne
    fun a ha => (isPrimary_iff.mp (h a ha)).2

/-- The wire shows a primary address. -/
theorem andAll_primary : isPrimary (andAll bytes) = true := by
  obtain ⟨⟨a, ha, hclass⟩, -⟩ := least_class hne h
  obtain ⟨⟨b, hb, hsub⟩, -⟩ := least_subAddress hne h
  rw [isPrimary_iff, ← hclass, ← hsub]
  exact ⟨(isPrimary_iff.mp (h a ha)).1, (isPrimary_iff.mp (h b hb)).2⟩

/-- Addresses of one class show one of themselves, the one with the lowest sub-address. -/
theorem andAll_mem_of_class {class' : Byte} (hclass : ∀ a ∈ bytes, getPriorityClass a = class') :
    andAll bytes ∈ bytes := by
  obtain ⟨⟨a, ha, hlow⟩, -⟩ := least_class hne h
  obtain ⟨⟨b, hb, hsub⟩, -⟩ := least_subAddress hne h
  have heq : b = andAll bytes := by
    refine eq_of_nibbles ?_ hsub
    rw [← hlow, hclass a ha, hclass b hb]
  rw [← heq]
  exact hb

end Shown

/-! ### Many nodes on one wire -/

variable {n : ℕ}

/-- All nodes after a slot. -/
def stepAll (nodes : Fin n → Ebus) (calls : Fin n → Call) : Fin n → Ebus :=
  fun i => ((nodes i).processReceivedChar (calls i)).1

/-- What the nodes send in answer to a slot. -/
def sentAll (nodes : Fin n → Ebus) (calls : Fin n → Call) : Fin n → List Byte :=
  fun i => ((nodes i).processReceivedChar (calls i)).2.sent

/-- The byte in the next slot: the AND of the first bytes sent. -/
def slotByte (sent : Fin n → List Byte) : Byte := andAll ((List.ofFn sent).flatMap (List.take 1))

/-- Every node receives `b`; what the queues and the handlers have for it is up to each node. -/
def Deliver (b : Byte) (calls : Fin n → Call) : Prop :=
  ∀ i, (calls i).receivedByte = b ∧ Ebus.HandsOver (calls i)

instance (b : Byte) (calls : Fin n → Call) : Decidable (Deliver b calls) :=
  inferInstanceAs (Decidable (∀ i, (calls i).receivedByte = b ∧ Ebus.HandsOver (calls i)))

/-- The address of a node. -/
def address (nodes : Fin n → Ebus) (i : Fin n) : Byte := (nodes i).config.primaryAddress

/-- The nodes are about to send, each from an address of its own. -/
structure Contenders (nodes : Fin n → Ebus) : Prop where
  inEsc : ∀ i, (nodes i).inEsc = false
  waiting : ∀ i, (nodes i).activeCommand.state = .waitForSend
  qq : ∀ i, (nodes i).activeCommand.getQq = address nodes i
  primary : ∀ i, isPrimary (address nodes i) = true
  distinct : ∀ i j, address nodes i = address nodes j → i = j
  zz_ne_syn : ∀ i, (nodes i).activeCommand.getZz ≠ syn
  zz_ne_esc : ∀ i, (nodes i).activeCommand.getZz ≠ esc
  normal : ∀ i, ((nodes i).countSyn syn).state = .normal
  unlocked : ∀ i, ((nodes i).countSyn syn).lockCounter = 0

/-- The address of the node has the numerically lowest priority class of all. -/
def InLowestClass (nodes : Fin n → Ebus) (i : Fin n) : Prop :=
  ∀ k, getPriorityClass (address nodes i) ≤ getPriorityClass (address nodes k)

instance (nodes : Fin n → Ebus) (i : Fin n) : Decidable (InLowestClass nodes i) :=
  inferInstanceAs (Decidable (∀ k,
    getPriorityClass (address nodes i) ≤ getPriorityClass (address nodes k)))

theorem mem_slot {sent : Fin n → List Byte} {b : Byte} :
    b ∈ (List.ofFn sent).flatMap (List.take 1) ↔ ∃ i, b ∈ (sent i).take 1 := by
  rw [List.mem_flatMap]
  constructor
  · rintro ⟨l, hl, hb⟩
    obtain ⟨i, rfl⟩ := List.mem_ofFn.mp hl
    exact ⟨i, hb⟩
  · rintro ⟨i, hb⟩
    exact ⟨sent i, List.mem_ofFn.mpr ⟨i, rfl⟩, hb⟩

variable {nodes : Fin (n + 1) → Ebus} {c₁ c₂ c₃ c₄ : Fin (n + 1) → Call}

/-- The first SYN: every node sends its QQ. -/
theorem Contenders.first_syn (h : Contenders nodes) (h₁ : Deliver syn c₁) (i : Fin (n + 1)) :
    Ebus.AfterSyn (stepAll nodes c₁ i) ∧
      (stepAll nodes c₁ i).activeCommand = (nodes i).activeCommand.setState .waitForArbitration ∧
      sentAll nodes c₁ i = [address nodes i] := by
  have hsends := Ebus.sends_qq (h.inEsc i) (h₁ i).1 (h.waiting i) (h.normal i) (h.unlocked i)
    (by rw [h.qq]; exact h.primary i)
  rw [h.qq] at hsends
  exact hsends

/-- The bytes of the slot after the first SYN are the addresses of the nodes. -/
theorem Contenders.mem_first_slot (h : Contenders nodes) (h₁ : Deliver syn c₁) {b : Byte} :
    b ∈ (List.ofFn (sentAll nodes c₁)).flatMap (List.take 1) ↔ ∃ i, b = address nodes i := by
  rw [mem_slot]
  refine exists_congr fun i => ?_
  rw [(h.first_syn h₁ i).2.2]
  exact List.mem_singleton

/-- What the slot after the first SYN shows. -/
theorem Contenders.first_slot (h : Contenders nodes) (h₁ : Deliver syn c₁) :
    isPrimary (slotByte (sentAll nodes c₁)) = true ∧ (∃ i, InLowestClass nodes i) ∧
      ∀ i, getPriorityClass (slotByte (sentAll nodes c₁)) = getPriorityClass (address nodes i) ↔
        InLowestClass nodes i := by
  have hprim : ∀ b ∈ (List.ofFn (sentAll nodes c₁)).flatMap (List.take 1), isPrimary b = true := by
    intro b hb
    obtain ⟨i, rfl⟩ := (h.mem_first_slot h₁).mp hb
    exact h.primary i
  have hne : (List.ofFn (sentAll nodes c₁)).flatMap (List.take 1) ≠ [] :=
    List.ne_nil_of_mem ((h.mem_first_slot h₁).mpr ⟨0, rfl⟩)
  obtain ⟨⟨a, ha, hattained⟩, hleast⟩ := least_class hne hprim
  obtain ⟨j, rfl⟩ := (h.mem_first_slot h₁).mp ha
  refine ⟨andAll_primary hne hprim, ⟨j, ?_⟩, fun i => ⟨fun hi k => ?_, fun hi => ?_⟩⟩
  · intro k
    rw [hattained]
    exact hleast _ ((h.mem_first_slot h₁).mpr ⟨k, rfl⟩)
  · rw [← hi]
    exact hleast _ ((h.mem_first_slot h₁).mpr ⟨k, rfl⟩)
  · apply BitVec.le_antisymm
    · exact hleast _ ((h.mem_first_slot h₁).mpr ⟨i, rfl⟩)
    · rw [slotByte, ← hattained]
      exact hi j

/-- The slot after the first SYN, for one node. -/
theorem Contenders.first_round (h : Contenders nodes) (h₁ : Deliver syn c₁)
    (h₂ : Deliver (slotByte (sentAll nodes c₁)) c₂) (i : Fin (n + 1)) :
    (stepAll (stepAll nodes c₁) c₂ i).inEsc = false ∧
      (stepAll (stepAll nodes c₁) c₂ i).charCountSinceLastSyn = 1 ∧
      (address nodes i = slotByte (sentAll nodes c₁) → sentAll (stepAll nodes c₁) c₂ i =
        uartSendRemainingRequestPart (nodes i).activeCommand) ∧
      (address nodes i ≠ slotByte (sentAll nodes c₁) → sentAll (stepAll nodes c₁) c₂ i = [] ∧
        (InLowestClass nodes i → (stepAll (stepAll nodes c₁) c₂ i).activeCommand =
          (nodes i).activeCommand.setState .waitForArbitration2nd) ∧
        (¬ InLowestClass nodes i →
          Ebus.Benched (stepAll (stepAll nodes c₁) c₂ i).activeCommand)) := by
  obtain ⟨hafter, hactive, -⟩ := h.first_syn h₁ i
  obtain ⟨hprim, -, hclass⟩ := h.first_slot h₁
  have hround := @Ebus.first_round _ (c₂ i) hafter (by rw [hactive]; rfl)
    (by rw [(h₂ i).1]; exact hprim)
  have hqq : (stepAll nodes c₁ i).activeCommand.getQq = address nodes i := by
    rw [hactive]
    exact h.qq i
  rw [hqq, (h₂ i).1] at hround
  obtain ⟨hesc, hcount, hwin, hlose⟩ := hround
  refine ⟨hesc, hcount, fun heq => ?_, fun hne => ?_⟩
  · refine (hwin heq.symm).1.trans (uartSendRemainingRequestPart_congr ?_)
    rw [hactive]
    rfl
  · obtain ⟨hsent, heligible, hbenched⟩ := hlose hne.symm
    refine ⟨hsent, fun hi => ?_, fun hi => ?_⟩
    · refine (heligible ((hclass i).mpr hi)).trans ?_
      rw [hactive]
      rfl
    · exact hbenched fun hc => hi ((hclass i).mp hc)

/-- With a winner in the first round, the next slot carries the first byte of its request. -/
theorem Contenders.winner_slot (h : Contenders nodes) (h₁ : Deliver syn c₁)
    (h₂ : Deliver (slotByte (sentAll nodes c₁)) c₂) {j : Fin (n + 1)}
    (hj : address nodes j = slotByte (sentAll nodes c₁)) :
    slotByte (sentAll (stepAll nodes c₁) c₂) = (nodes j).activeCommand.getZz := by
  have hwinner : (sentAll (stepAll nodes c₁) c₂ j).take 1 = [(nodes j).activeCommand.getZz] := by
    rw [(h.first_round h₁ h₂ j).2.2.1 hj, uartSendRemainingRequestPart,
      Ebus.uartSendChar_of_ne (h.zz_ne_syn j) (h.zz_ne_esc j)]
    rfl
  have hmem : ∀ b ∈ (List.ofFn (sentAll (stepAll nodes c₁) c₂)).flatMap (List.take 1),
      b = (nodes j).activeCommand.getZz := by
    intro b hb
    obtain ⟨i, hi⟩ := mem_slot.mp hb
    by_cases hij : i = j
    · subst hij
      rw [hwinner] at hi
      exact List.mem_singleton.mp hi
    · have hne : address nodes i ≠ slotByte (sentAll nodes c₁) := by
        rw [← hj]
        exact fun heq => hij (h.distinct i j heq)
      rw [((h.first_round h₁ h₂ i).2.2.2 hne).1] at hi
      cases hi
  have hin : (nodes j).activeCommand.getZz ∈
      (List.ofFn (sentAll (stepAll nodes c₁) c₂)).flatMap (List.take 1) := by
    refine mem_slot.mpr ⟨j, ?_⟩
    rw [hwinner]
    exact List.mem_singleton_self _
  exact andAll_of_forall (List.ne_nil_of_mem hin) hmem

/-- After the first byte of the winner's request nobody else is in the arbitration. -/
theorem Contenders.losers_out (h : Contenders nodes) (h₁ : Deliver syn c₁)
    (h₂ : Deliver (slotByte (sentAll nodes c₁)) c₂) {j : Fin (n + 1)}
    (hj : address nodes j = slotByte (sentAll nodes c₁))
    (h₃ : Deliver (slotByte (sentAll (stepAll nodes c₁) c₂)) c₃) {i : Fin (n + 1)} (hij : i ≠ j) :
    ¬ Arbitrating
      (stepAll (stepAll (stepAll nodes c₁) c₂) c₃ i).activeCommand.toTelegramBase := by
  have hne : address nodes i ≠ slotByte (sentAll nodes c₁) := by
    rw [← hj]
    exact fun heq => hij (h.distinct i j heq)
  obtain ⟨hesc, -, -, hlose⟩ := h.first_round h₁ h₂ i
  obtain ⟨-, heligible, hbenched⟩ := hlose hne
  obtain ⟨hafter, hactive, -⟩ := h.first_syn h₁ i
  rw [h.winner_slot h₁ h₂ hj] at h₃
  have hprim₁ : isPrimary (stepAll nodes c₁ i).activeCommand.getQq = true := by
    rw [hactive]
    show isPrimary (nodes i).activeCommand.getQq = true
    rw [h.qq]
    exact h.primary i
  have hslot₂ : (c₂ i).receivedByte ≠ esc := by
    rw [(h₂ i).1]
    exact isPrimary_ne_esc (h.first_slot h₁).1
  have hprim₂ := (Ebus.processed_plain (c₂ i) hafter.inEsc hslot₂).primary (h₂ i).2 (.inr hprim₁)
  have hp := Ebus.processed_plain (c₃ i) hesc (by rw [(h₃ i).1]; exact h.zz_ne_esc j)
  intro harb
  rcases Ebus.arbitrating_after hp (h₃ i).2 hprim₂ harb with ⟨hsyn, -⟩ | ⟨-, hstate, -⟩
  · rw [(h₃ i).1] at hsyn
    exact h.zz_ne_syn j hsyn
  · by_cases hi : InLowestClass nodes i
    · rw [heligible hi] at hstate
      cases hstate
    · rcases hbenched hi with hs | hs
      · exact absurd (hs.symm.trans hstate) (by decide)
      · exact absurd (hs.symm.trans hstate) (by decide)

/-- The second SYN, with no winner so far: the eligible nodes send their QQ again. -/
theorem Contenders.second_syn (h : Contenders nodes) (h₁ : Deliver syn c₁)
    (h₂ : Deliver (slotByte (sentAll nodes c₁)) c₂)
    (hnone : ∀ j, address nodes j ≠ slotByte (sentAll nodes c₁)) (h₃ : Deliver syn c₃)
    (i : Fin (n + 1)) :
    Ebus.AfterSyn (stepAll (stepAll (stepAll nodes c₁) c₂) c₃ i) ∧
      (InLowestClass nodes i →
        (stepAll (stepAll (stepAll nodes c₁) c₂) c₃ i).activeCommand =
          (nodes i).activeCommand.setState .waitForArbitration2nd) ∧
      (¬ InLowestClass nodes i →
        Ebus.Benched (stepAll (stepAll (stepAll nodes c₁) c₂) c₃ i).activeCommand) ∧
      sentAll (stepAll (stepAll nodes c₁) c₂) c₃ i =
        if InLowestClass nodes i then [address nodes i] else [] := by
  obtain ⟨hesc, hcount, -, hlose⟩ := h.first_round h₁ h₂ i
  obtain ⟨-, heligible, hbenched⟩ := hlose (hnone i)
  by_cases hi : InLowestClass nodes i
  · have hactive := heligible hi
    have hqq : (stepAll (stepAll nodes c₁) c₂ i).activeCommand.getQq = address nodes i := by
      rw [hactive]
      exact h.qq i
    obtain ⟨hafter, hsame, hsent⟩ := Ebus.answers_second_syn hesc (h₃ i).1 (by rw [hactive]; rfl)
      (by rw [hqq]; exact h.primary i)
    refine ⟨hafter, fun _ => hsame.trans hactive, fun hno => absurd hi hno, ?_⟩
    rw [if_pos hi, ← hqq]
    exact hsent
  · obtain ⟨hafter, hstays, hsent⟩ := Ebus.benched_syn hesc (h₃ i).1 hcount (hbenched hi) (h₃ i).2
    refine ⟨hafter, fun hyes => absurd hyes hi, fun _ => hstays, ?_⟩
    rw [if_neg hi]
    exact hsent

/-- What is sent on the second SYN: the addresses of the eligible nodes. -/
theorem Contenders.mem_second_slot (h : Contenders nodes) (h₁ : Deliver syn c₁)
    (h₂ : Deliver (slotByte (sentAll nodes c₁)) c₂)
    (hnone : ∀ j, address nodes j ≠ slotByte (sentAll nodes c₁)) (h₃ : Deliver syn c₃) (b : Byte) :
    b ∈ (List.ofFn (sentAll (stepAll (stepAll nodes c₁) c₂) c₃)).flatMap (List.take 1) ↔
      ∃ i, InLowestClass nodes i ∧ b = address nodes i := by
  rw [mem_slot]
  refine exists_congr fun i => ?_
  rw [(h.second_syn h₁ h₂ hnone h₃ i).2.2.2]
  by_cases hi : InLowestClass nodes i
  · simp [hi]
  · simp [hi]

/-- The slot after the second SYN: the eligible node with the lowest sub-address wins, and nobody
else sends. -/
theorem Contenders.second_round (h : Contenders nodes) (h₁ : Deliver syn c₁)
    (h₂ : Deliver (slotByte (sentAll nodes c₁)) c₂)
    (hnone : ∀ j, address nodes j ≠ slotByte (sentAll nodes c₁)) (h₃ : Deliver syn c₃)
    (h₄ : Deliver (slotByte (sentAll (stepAll (stepAll nodes c₁) c₂) c₃)) c₄) :
    ∃ j, InLowestClass nodes j ∧
      (∀ k, InLowestClass nodes k →
        getSubAddress (address nodes j) ≤ getSubAddress (address nodes k)) ∧
      sentAll (stepAll (stepAll (stepAll nodes c₁) c₂) c₃) c₄ j =
        uartSendRemainingRequestPart (nodes j).activeCommand ∧
      ∀ i, i ≠ j → sentAll (stepAll (stepAll (stepAll nodes c₁) c₂) c₃) c₄ i = [] := by
  obtain ⟨-, ⟨l, hl⟩, hclass⟩ := h.first_slot h₁
  have hmem := h.mem_second_slot h₁ h₂ hnone h₃
  have hne := List.ne_nil_of_mem ((hmem _).mpr ⟨l, hl, rfl⟩)
  have hprim : ∀ b ∈ (List.ofFn (sentAll (stepAll (stepAll nodes c₁) c₂) c₃)).flatMap
      (List.take 1), isPrimary b = true := by
    intro b hb
    obtain ⟨i, -, rfl⟩ := (hmem b).mp hb
    exact h.primary i
  have hshown := andAll_mem_of_class hne hprim fun b hb => by
    obtain ⟨i, hi, rfl⟩ := (hmem b).mp hb
    exact ((hclass i).mpr hi).symm
  obtain ⟨j, hj, hjs⟩ := (hmem _).mp hshown
  have hslot : slotByte (sentAll (stepAll (stepAll nodes c₁) c₂) c₃) = address nodes j := hjs
  have hround : ∀ i, sentAll (stepAll (stepAll (stepAll nodes c₁) c₂) c₃) c₄ i =
      if i = j then uartSendRemainingRequestPart (nodes i).activeCommand else [] := by
    intro i
    obtain ⟨hafter, heligible, hbenched, -⟩ := h.second_syn h₁ h₂ hnone h₃ i
    have hb : (c₄ i).receivedByte = address nodes j := (h₄ i).1.trans hslot
    have hbprim : isPrimary (c₄ i).receivedByte = true := by
      rw [hb]
      exact h.primary j
    by_cases hi : InLowestClass nodes i
    · have hactive := heligible hi
      have hsent := Ebus.second_round hafter (by rw [hactive]; rfl) hbprim
      have hqq : (stepAll (stepAll (stepAll nodes c₁) c₂) c₃ i).activeCommand.getQq =
          address nodes i := by
        rw [hactive]
        exact h.qq i
      rw [hqq, hb] at hsent
      refine hsent.trans ?_
      by_cases hij : i = j
      · subst hij
        rw [if_pos rfl, if_pos rfl]
        exact uartSendRemainingRequestPart_congr (by rw [hactive]; rfl)
      · rw [if_neg hij, if_neg fun heq => hij (h.distinct i j heq.symm)]
    · rw [if_neg fun hij => hi (by rw [hij]; exact hj)]
      exact Ebus.benched_symbol hafter hbprim (hbenched hi) (h₄ i).2
  refine ⟨j, hj, fun k hk => ?_, ?_, fun i hij => ?_⟩
  · rw [← hjs]
    exact (least_subAddress hne hprim).2 _ ((hmem _).mpr ⟨k, hk, rfl⟩)
  · rw [hround, if_pos rfl]
  · rw [hround, if_neg hij]

/-- **Arbitration elects exactly one sender.**  On a SYN every contender sends its QQ.  If the AND
of these is the address of a node, exactly this node sends the rest of its request, and after the
first byte of it no other node is in the arbitration.  Otherwise nobody sends, exactly the nodes of
the lowest class are eligible for a second round, on the next SYN exactly these send their QQ, and
exactly one of them, the one with the lowest sub-address, then sends the rest of its request.  The
rest of a request is its wire form without QQ. -/
theorem arbitration_elects_one (nodes : Fin (n + 1) → Ebus) (h : Contenders nodes)
    {c₁ c₂ : Fin (n + 1) → Call} (h₁ : Deliver syn c₁)
    (h₂ : Deliver (slotByte (sentAll nodes c₁)) c₂) :
    let nodes₁ := stepAll nodes c₁
    let nodes₂ := stepAll nodes₁ c₂
    (∀ i, sentAll nodes c₁ i = [address nodes i]) ∧
    (∀ j, address nodes j = slotByte (sentAll nodes c₁) →
      sentAll nodes₁ c₂ j = uartSendRemainingRequestPart (nodes j).activeCommand ∧
      (∀ i, i ≠ j → sentAll nodes₁ c₂ i = []) ∧
      ∀ c₃, Deliver (slotByte (sentAll nodes₁ c₂)) c₃ →
        ∀ i, i ≠ j → ¬ Arbitrating (stepAll nodes₂ c₃ i).activeCommand.toTelegramBase) ∧
    ((∀ j, address nodes j ≠ slotByte (sentAll nodes c₁)) →
      (∀ i, sentAll nodes₁ c₂ i = []) ∧
      (∀ i, (nodes₂ i).activeCommand.state = .waitForArbitration2nd ↔ InLowestClass nodes i) ∧
      ∀ c₃, Deliver syn c₃ →
        (∀ i, sentAll nodes₂ c₃ i = if InLowestClass nodes i then [address nodes i] else []) ∧
        ∀ c₄, Deliver (slotByte (sentAll nodes₂ c₃)) c₄ →
          ∃ j, InLowestClass nodes j ∧
            (∀ k, InLowestClass nodes k →
              getSubAddress (address nodes j) ≤ getSubAddress (address nodes k)) ∧
            sentAll (stepAll nodes₂ c₃) c₄ j =
              uartSendRemainingRequestPart (nodes j).activeCommand ∧
            ∀ i, i ≠ j → sentAll (stepAll nodes₂ c₃) c₄ i = []) ∧
    ∀ j zz command (payload : List Byte), payload.length < maxDataLength →
      (nodes j).activeCommand.request =
        (SendCommand.new (address nodes j) zz command payload).request →
      uartSendRemainingRequestPart (nodes j).activeCommand =
        wire.encodeAll (withCrc (requestBytes (address nodes j) zz command payload)).tail := by
  intro nodes₁ nodes₂
  refine ⟨fun i => (h.first_syn h₁ i).2.2, fun j hj => ⟨?_, fun i hij => ?_, fun c₃ h₃ i hij => ?_⟩,
    fun hnone => ⟨fun i => ?_, fun i => ?_, fun c₃ h₃ => ⟨fun i => ?_, fun c₄ h₄ => ?_⟩⟩,
    fun j zz command payload hlen hrequest => ?_⟩
  · exact (h.first_round h₁ h₂ j).2.2.1 hj
  · refine ((h.first_round h₁ h₂ i).2.2.2 ?_).1
    rw [← hj]
    exact fun heq => hij (h.distinct i j heq)
  · exact h.losers_out h₁ h₂ hj h₃ hij
  · exact ((h.first_round h₁ h₂ i).2.2.2 (hnone i)).1
  · obtain ⟨-, heligible, hbenched⟩ := (h.first_round h₁ h₂ i).2.2.2 (hnone i)
    constructor
    · intro hstate
      by_contra hi
      rcases hbenched hi with hs | hs
      · exact absurd (hs.symm.trans hstate) (by decide)
      · exact absurd (hs.symm.trans hstate) (by decide)
    · intro hi
      show (stepAll (stepAll nodes c₁) c₂ i).activeCommand.state = _
      rw [heligible hi]
      rfl
  · exact (h.second_syn h₁ h₂ hnone h₃ i).2.2.2
  · exact h.second_round h₁ h₂ hnone h₃ h₄
  · rw [uartSendRemainingRequestPart_congr hrequest]
    exact uartSendRemainingRequestPart_new _ zz command hlen

/-- The nodes 0x30 and 0x13, each with a command for 0x08. -/
def twoNodes : Fin 2 → Ebus := fun i =>
  let address : Byte := if i = 0 then 0x30#8 else 0x13#8
  { Ebus.init (defaultConfig address) with activeCommand := .new address 0x08#8 0x0704#16 [] }

/-- Every node hears `b`, with nothing in its queue. -/
def allHear (b : Byte) : Fin 2 → Call := fun _ => ⟨b, none, []⟩

theorem twoNodes_contend : Contenders twoNodes where
  inEsc := by decide +kernel
  waiting := by decide +kernel
  qq := by decide +kernel
  primary := by decide +kernel
  distinct := by decide +kernel
  zz_ne_syn := by decide +kernel
  zz_ne_esc := by decide +kernel
  normal := by decide +kernel
  unlocked := by decide +kernel

/-- The wire shows 0x10, which is neither: the node 0x30 of the lower class wins the second round.
-/
theorem twoNodes_elect :
    let nodes₃ := stepAll (stepAll (stepAll twoNodes (allHear syn)) (allHear 0x10#8)) (allHear syn)
    ∃ j, InLowestClass twoNodes j ∧
      sentAll nodes₃ (allHear 0x30#8) j = uartSendRemainingRequestPart (twoNodes j).activeCommand ∧
      (∀ i, i ≠ j → sentAll nodes₃ (allHear 0x30#8) i = []) ∧
      uartSendRemainingRequestPart (twoNodes j).activeCommand =
        wire.encodeAll (withCrc (requestBytes (address twoNodes j) 0x08#8 0x0704#16 [])).tail := by
  obtain ⟨-, -, hsecond, hrest⟩ := arbitration_elects_one twoNodes twoNodes_contend
    (show Deliver syn (allHear syn) by decide +kernel)
    (show Deliver _ (allHear 0x10#8) by decide +kernel)
  obtain ⟨-, -, hnext⟩ := hsecond (by decide +kernel)
  obtain ⟨j, hj, -, hwins, hothers⟩ :=
    (hnext (allHear syn) (by decide +kernel)).2 (allHear 0x30#8) (by decide +kernel)
  exact ⟨j, hj, hwins, hothers, hrest j 0x08#8 0x0704#16 [] (by decide) rfl⟩

end EsphomeEbus
