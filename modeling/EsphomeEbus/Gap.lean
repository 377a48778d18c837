import EsphomeEbus.History
import EsphomeEbus.Command

/-!
# What a SYN says about the gap before it

`process_received_char` tells the two kinds of SYN apart by the number of symbols since the last
one, which it keeps in a `uint8_t` and does not step on an invalid escape pair.

* `countSymbol`, `syn_count_projects`: the counter and the kind of the last SYN as a machine of
  their own, fed with symbols;
* `state_of_gap`: the kind of a SYN, computed from the symbols between it and the SYN before;
* `arbitration_detected_iff`: when that is the kind which the traffic in the gap calls for.
-/

namespace EsphomeEbus

open Elf Transducer Stuffing

/-! ### The counter as a machine -/

/-- The part of the driver that watches the SYNs. -/
structure SynCount where
  charCount : Byte
  state : EbusState
  deriving DecidableEq, Repr

/-- One symbol: a SYN closes the gap, an invalid pair is passed over. -/
def countSymbol (c : SynCount) : Symbol Byte → SynCount × List Unit
  | .plain b =>
    if b = syn then (⟨0, if c.charCount = 1 then .arbitration else .normal⟩, [])
    else (⟨c.charCount + 1, c.state⟩, [])
  | .pair _ _ => (⟨c.charCount + 1, c.state⟩, [])
  | .invalid _ => (c, [])

theorem countSymbol_snd (c : SynCount) (y : Symbol Byte) : (countSymbol c y).2 = [] := by
  cases y with
  | plain b =>
    rw [countSymbol]
    split <;> rfl
  | pair x v => rfl
  | invalid x => rfl

/-- A plain byte or a valid escape pair. -/
def isGood : Symbol Byte → Bool
  | .plain _ => true
  | .pair _ _ => true
  | .invalid _ => false

/-- The plain bytes and the valid escape pairs of a stretch of symbols. -/
def goodSymbols (ys : List (Symbol Byte)) : ℕ := ys.countP isGood

/-- The invalid escape pairs of a stretch of symbols. -/
def brokenPairs (ys : List (Symbol Byte)) : ℕ := ys.countP fun y => !isGood y

/-- The traffic in a gap, in symbols, if an invalid escape pair weighs as much as `weight`. -/
def traffic (weight : ℕ) (ys : List (Symbol Byte)) : ℕ := goodSymbols ys + weight * brokenPairs ys

namespace Ebus

/-- The escape flag, the counter and the kind of the last SYN. -/
def synCount (s : Ebus) : Bool × SynCount := (s.inEsc, ⟨s.charCountSinceLastSyn, s.state⟩)

theorem countSymbol_plain (s : Ebus) (b : Byte) :
    (countSymbol ⟨s.charCountSinceLastSyn, s.state⟩ (.plain b)).1 =
      ⟨(s.countSyn b).charCountSinceLastSyn, (s.countSyn b).state⟩ := by
  by_cases hb : b = syn
  · simp only [countSymbol, countSyn, if_pos hb]
  · simp only [countSymbol, countSyn, if_neg hb]

theorem processSymbol_synCount (s : Ebus) (call : Call) (real : Byte) :
    (s.processSymbol call real).1.synCount =
      (s.inEsc, (countSymbol ⟨s.charCountSinceLastSyn, s.state⟩ (.plain call.receivedByte)).1) := by
  rw [countSymbol_plain, synCount, processSymbol_inEsc, processSymbol_fst]
  rfl

/-- **The SYN bookkeeping is a machine of its own**, behind the escape decoding. -/
theorem syn_count_projects :
    Projects (fun _ => True) processReceivedChar (wire.behind countSymbol) synCount
      Call.receivedByte (fun _ => []) := by
  intro s call _
  refine ⟨trivial, ?_⟩
  obtain ⟨hesc, hb, h⟩ | ⟨hesc, h0, h1, h⟩ | ⟨hesc, hb, h⟩ | ⟨real, hesc, hb, h⟩ :=
    s.processReceivedChar_cases call
  · simp [h, behind, synCount, Stuffing.read, hesc, hb, wire]
  · simp only [h, behind, synCount, Stuffing.read, hesc, wire, h0, h1]
    simp [countSymbol, emitted, outputs]
  · rw [h, processSymbol_synCount]
    have hread : wire.read false call.receivedByte = (false, [.plain call.receivedByte]) := by
      simp [Stuffing.read, wire, hb]
    simp only [behind, synCount, hesc, hread, run_cons, run_nil, emitted_cons, emitted_nil,
      countSymbol_snd, List.append_nil]
  · rw [h, processSymbol_synCount]
    have hread : wire.read true call.receivedByte = (false, [.pair call.receivedByte real]) := by
      rcases hb with ⟨hb, rfl⟩ | ⟨hb, rfl⟩ <;> simp [Stuffing.read, wire, hb]
    have hne : call.receivedByte ≠ syn := by
      rcases hb with ⟨hb, -⟩ | ⟨hb, -⟩ <;> rw [hb] <;> decide
    simp only [behind, synCount, hesc, hread, run_cons, run_nil, emitted_cons, emitted_nil,
      countSymbol, if_neg hne, List.append_nil]

/-- **The SYN bookkeeping after a run**, computed from the symbols alone. -/
theorem after_synCount (s : Ebus) (calls : List Call) : (s.after calls).synCount =
    (wire.pendingAfter s.inEsc (bytesOf calls),
      run countSymbol s.synCount.2 (wire.symbols s.inEsc (bytesOf calls))) := by
  rw [after, run_project syn_count_projects s trivial]
  exact wire.run_behind countSymbol s.inEsc s.synCount.2 (bytesOf calls)

end Ebus

/-! ### One gap -/

theorem goodSymbols_cons (y : Symbol Byte) (ys : List (Symbol Byte)) :
    goodSymbols (y :: ys) = goodSymbols ys + if isGood y then 1 else 0 := List.countP_cons

/-- **Over a gap** the counter grows, modulo 256, by the good symbols. -/
theorem run_gap (c : SynCount) {gap : List (Symbol Byte)} (hgap : .plain syn ∉ gap) :
    run countSymbol c gap = ⟨c.charCount + BitVec.ofNat 8 (goodSymbols gap), c.state⟩ := by
  induction gap generalizing c with
  | nil =>
    show c = ⟨c.charCount + 0#8, c.state⟩
    rw [BitVec.add_zero]
  | cons y gap ih =>
    have hy : .plain syn ≠ y := List.ne_of_not_mem_cons hgap
    have hrest : .plain syn ∉ gap := List.not_mem_of_not_mem_cons hgap
    rw [run_cons, ih _ hrest, goodSymbols_cons]
    have hgrows : ∀ n : ℕ, c.charCount + 1 + BitVec.ofNat 8 n =
        c.charCount + BitVec.ofNat 8 (n + 1) := by
      intro n
      rw [BitVec.ofNat_add, BitVec.add_assoc]
      exact congrArg (c.charCount + ·) (BitVec.add_comm _ _)
    cases y with
    | plain b =>
      have hb : b ≠ syn := by
        rintro rfl
        exact hy rfl
      simp only [countSymbol, if_neg hb, isGood, if_true, hgrows]
    | pair x v => simp only [countSymbol, isGood, if_true, hgrows]
    | invalid x => rfl

theorem ofNat_eq_one_iff (n : ℕ) : BitVec.ofNat 8 n = 1#8 ↔ n % 256 = 1 := by
  rw [← BitVec.toNat_inj, BitVec.toNat_ofNat]
  rfl

namespace Ebus

/-- **The kind of a SYN**: ARBITRATION if and only if the number of good symbols since the SYN
before it is 1 modulo 256. -/
theorem state_of_gap (config : Config) {calls : List Call} {pre gap : List (Symbol Byte)}
    (hsymbols : wire.symbols false (bytesOf calls) =
      pre ++ .plain syn :: gap ++ [.plain syn]) (hgap : .plain syn ∉ gap) :
    ((init config).after calls).state =
      if goodSymbols gap % 256 = 1 then .arbitration else .normal := by
  have hafter := (init config).after_synCount calls
  have hinit : (init config).inEsc = false := rfl
  rw [hinit, hsymbols, run_concat, run_append, run_cons, run_gap _ hgap] at hafter
  have hstate := congrArg (fun c => c.2.state) hafter
  refine hstate.trans ?_
  generalize (run countSymbol (init config).synCount.2 pre) = c
  show (if 0#8 + BitVec.ofNat 8 (goodSymbols gap) = 1#8 then EbusState.arbitration else .normal) = _
  rw [BitVec.zero_add]
  exact if_congr (ofNat_eq_one_iff _) rfl rfl

/-- Two conditions choose the same kind of SYN if and only if they are equivalent. -/
theorem kind_eq_kind_iff {p q : Prop} [Decidable p] [Decidable q] :
    ((if p then EbusState.arbitration else .normal) = if q then .arbitration else .normal) ↔
      (p ↔ q) := by
  by_cases hp : p <;> by_cases hq : q <;> simp [hp, hq]

/-- **Arbitration detection.**  Take any run and any SYN after another one.  The driver is in state
ARBITRATION after it exactly when the gap holds the traffic of one symbol, and else in state NORMAL,
if and only if the gap is none of these: a good symbol next to invalid pairs, a multiple of 256 and
one more good symbols, or one invalid pair where it weighs as much as a symbol. -/
theorem arbitration_detected_iff (config : Config) {weight : ℕ} (hweight : 0 < weight)
    (calls : List Call) (pre gap : List (Symbol Byte))
    (hsymbols : wire.symbols false (bytesOf calls) = pre ++ .plain syn :: gap ++ [.plain syn])
    (hgap : .plain syn ∉ gap) :
    ((init config).after calls).state =
        (if traffic weight gap = 1 then .arbitration else .normal) ↔
      ¬ (goodSymbols gap = 1 ∧ 0 < brokenPairs gap) ∧
        ¬ (256 < goodSymbols gap ∧ goodSymbols gap % 256 = 1) ∧
        ¬ (goodSymbols gap = 0 ∧ weight * brokenPairs gap = 1) := by
  rw [state_of_gap config hsymbols hgap, kind_eq_kind_iff, traffic]
  rcases Nat.eq_zero_or_pos (brokenPairs gap) with hzero | hpos
  · rw [hzero, Nat.mul_zero]
    omega
  · have hmul : 0 < weight * brokenPairs gap := Nat.mul_pos hweight hpos
    omega

/-- One byte between two SYNs. -/
theorem one_byte_detected :
    ((init (defaultConfig 0x30#8)).after (quiet [syn, 0x10#8, syn])).state =
        (if traffic 1 [.plain 0x10#8] = 1 then .arbitration else .normal) ↔
      ¬ (goodSymbols [.plain 0x10#8] = 1 ∧ 0 < brokenPairs [.plain 0x10#8]) ∧
        ¬ (256 < goodSymbols [.plain 0x10#8] ∧ goodSymbols [.plain 0x10#8] % 256 = 1) ∧
        ¬ (goodSymbols [.plain 0x10#8] = 0 ∧ 1 * brokenPairs [.plain 0x10#8] = 1) :=
  arbitration_detected_iff _ Nat.one_pos _ [] _ (by decide +kernel) (by decide)

/-- An invalid escape pair and a byte between two SYNs are taken for one symbol. -/
theorem broken_pair_passed_over :
    let calls := quiet [syn, esc, 0x05#8, 0x10#8, syn]
    let gap : List (Symbol Byte) := [.invalid 0x05#8, .plain 0x10#8]
    wire.symbols false (bytesOf calls) = [] ++ .plain syn :: gap ++ [.plain syn] ∧
      .plain syn ∉ gap ∧ (∀ weight, 0 < weight → traffic weight gap ≠ 1) ∧
      ((init (defaultConfig 0x30#8)).after calls).state = .arbitration := by
  refine ⟨by decide +kernel, by decide, ?_, by decide +kernel⟩
  intro weight hweight
  show 1 + weight * 1 ≠ 1
  omega

end Ebus

end EsphomeEbus
