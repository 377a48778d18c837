import Mathlib.Data.List.Induction

/-!
# Transducers: deterministic machines that answer every input

A transducer is a step function `σ → ι → σ × ω`.  This file has what a verification of one needs
and nothing about any particular machine:

* `run` / `outputs`: the state after a list of inputs, and the answers given on the way;
* `Reachable`: the states some list of inputs leads to;
* `Along`: a condition on (state, input) met by every step of a run;
* `run_keeps`, `run_history`: the two induction rules, for an invariant of the state and for an
  invariant that ties the state to the inputs heard so far; `run_frame`: what no step changes;
* `total`: a weight summed over the steps of a run; `total_le_potential`, `potential_le_total`: its
  bounds by a potential of the state; `counter_eq_add_total`: a counter in the state that keeps it;
* `run_project`, `outputs_project`: a machine that another one simulates step by step is simulated
  over whole runs;
* `Lockstep`: the same for two machines whose states, inputs and answers are only related;
* `Unrolls`: the same for a machine whose steps are runs of another one, on inputs of their own;
* `unroll`, `Simulates`: the same for machines whose states are only related, and whose steps are
  answered by none, one or more of the other.
-/

namespace Transducer

variable {σ ι ω σ' ι' ω' : Type*}

/-- The state after a list of inputs. -/
def run (step : σ → ι → σ × ω) : σ → List ι → σ
  | s, [] => s
  | s, i :: is => run step (step s i).1 is

/-- The answers to a list of inputs, oldest first. -/
def outputs (step : σ → ι → σ × ω) : σ → List ι → List ω
  | _, [] => []
  | s, i :: is => (step s i).2 :: outputs step (step s i).1 is

/-- The states that some list of inputs leads to from `s₀`. -/
def Reachable (step : σ → ι → σ × ω) (s₀ s : σ) : Prop := ∃ is, run step s₀ is = s

/-- Every step of the run from `s` on `is` meets the condition `C` on its state and input. -/
def Along (step : σ → ι → σ × ω) (C : σ → ι → Prop) : σ → List ι → Prop
  | _, [] => True
  | s, i :: is => C s i ∧ Along step C (step s i).1 is

instance Along.decidable {step : σ → ι → σ × ω} {C : σ → ι → Prop} [∀ s i, Decidable (C s i)] :
    ∀ s is, Decidable (Along step C s is)
  | _, [] => isTrue trivial
  | s, i :: is =>
    have : Decidable (Along step C (step s i).1 is) := Along.decidable (step s i).1 is
    inferInstanceAs (Decidable (C s i ∧ Along step C (step s i).1 is))

variable (step : σ → ι → σ × ω)

@[simp] theorem run_nil (s : σ) : run step s [] = s := rfl

@[simp] theorem run_cons (s : σ) (i : ι) (is : List ι) :
    run step s (i :: is) = run step (step s i).1 is := rfl

@[simp] theorem outputs_nil (s : σ) : outputs step s [] = [] := rfl

@[simp] theorem outputs_cons (s : σ) (i : ι) (is : List ι) :
    outputs step s (i :: is) = (step s i).2 :: outputs step (step s i).1 is := rfl

theorem run_append (s : σ) (is js : List ι) :
    run step s (is ++ js) = run step (run step s is) js := by
  induction is generalizing s with
  | nil => rfl
  | cons i is ih => exact ih (step s i).1

theorem run_concat (s : σ) (is : List ι) (i : ι) :
    run step s (is ++ [i]) = (step (run step s is) i).1 := run_append step s is [i]

theorem outputs_append (s : σ) (is js : List ι) :
    outputs step s (is ++ js) = outputs step s is ++ outputs step (run step s is) js := by
  induction is generalizing s with
  | nil => rfl
  | cons i is ih => simp only [List.cons_append, outputs_cons, run_cons, ih]

theorem outputs_concat (s : σ) (is : List ι) (i : ι) :
    outputs step s (is ++ [i]) = outputs step s is ++ [(step (run step s is) i).2] :=
  outputs_append step s is [i]

/-- Every answer is given by one step of the run. -/
theorem mem_outputs {s : σ} {is : List ι} {o : ω} (h : o ∈ outputs step s is) :
    ∃ pre i post, is = pre ++ i :: post ∧ o = (step (run step s pre) i).2 := by
  induction is generalizing s with
  | nil => cases h
  | cons i is ih =>
    rcases List.mem_cons.mp h with rfl | h
    · exact ⟨[], i, is, rfl, rfl⟩
    · obtain ⟨pre, j, post, rfl, ho⟩ := ih h
      exact ⟨i :: pre, j, post, rfl, ho⟩

/-- The answers of a machine whose every step answers a list, joined. -/
def emitted (step : σ → ι → σ × List ω) (s : σ) (is : List ι) : List ω :=
  (outputs step s is).flatten

section Emitted

variable (step : σ → ι → σ × List ω)

@[simp] theorem emitted_nil (s : σ) : emitted step s [] = [] := rfl

@[simp] theorem emitted_cons (s : σ) (i : ι) (is : List ι) :
    emitted step s (i :: is) = (step s i).2 ++ emitted step (step s i).1 is := rfl

theorem emitted_append (s : σ) (is js : List ι) :
    emitted step s (is ++ js) = emitted step s is ++ emitted step (run step s is) js := by
  simp only [emitted, outputs_append, List.flatten_append]

end Emitted

/-! ### Conditions on the steps of a run -/

theorem along_append {C : σ → ι → Prop} (s : σ) (is js : List ι) :
    Along step C s (is ++ js) ↔ Along step C s is ∧ Along step C (run step s is) js := by
  induction is generalizing s with
  | nil => simp [Along]
  | cons i is ih => simp only [List.cons_append, Along, ih, run_cons, and_assoc]

theorem along_concat {C : σ → ι → Prop} (s : σ) (is : List ι) (i : ι) :
    Along step C s (is ++ [i]) ↔ Along step C s is ∧ C (run step s is) i := by
  simp [along_append, Along]

/-- Two conditions met along a run are met together. -/
theorem along_and {C D : σ → ι → Prop} {s : σ} {is : List ι} (hC : Along step C s is)
    (hD : Along step D s is) : Along step (fun s i => C s i ∧ D s i) s is := by
  induction is generalizing s with
  | nil => trivial
  | cons i is ih => exact ⟨⟨hC.1, hD.1⟩, ih hC.2 hD.2⟩

/-- A condition is met along a run if and only if it is met at each of its steps. -/
theorem along_iff {C : σ → ι → Prop} (s : σ) (is : List ι) :
    Along step C s is ↔ ∀ pre i post, is = pre ++ i :: post → C (run step s pre) i := by
  induction is generalizing s with
  | nil => simp [Along]
  | cons i is ih =>
    rw [Along, ih]
    constructor
    · intro h pre j post heq
      cases pre with
      | nil =>
        obtain ⟨rfl, rfl⟩ := List.cons.inj heq
        exact h.1
      | cons k pre =>
        obtain ⟨rfl, hrest⟩ := List.cons.inj heq
        exact h.2 pre j post hrest
    · intro h
      refine ⟨h [] i is rfl, ?_⟩
      intro pre j post heq
      exact h (i :: pre) j post (by rw [heq, List.cons_append])

/-! ### Induction rules -/

/-- **Invariants.**  What every step that meets `C` keeps holds at the end of a run whose steps
all meet `C`. -/
theorem run_keeps {C : σ → ι → Prop} {I : σ → Prop}
    (hstep : ∀ s i, I s → C s i → I (step s i).1) (s : σ) (is : List ι)
    (hs : I s) (hC : Along step C s is) : I (run step s is) := by
  induction is generalizing s with
  | nil => exact hs
  | cons i is ih => exact ih (step s i).1 (hstep s i hs hC.1) hC.2

theorem forall_outputs_iff {P : ω → Prop} (s : σ) (is : List ι) :
    (∀ o ∈ outputs step s is, P o) ↔ Along step (fun s i => P (step s i).2) s is := by
  induction is generalizing s with
  | nil => simp [Along]
  | cons i is ih => rw [outputs_cons, List.forall_mem_cons, ih, Along]

/-- What no step changes stays as it is over a run. -/
theorem run_frame {α : Type*} (π : σ → α) (hstep : ∀ s i, π (step s i).1 = π s) (s : σ)
    (is : List ι) : π (run step s is) = π s := by
  induction is generalizing s with
  | nil => rfl
  | cons i is ih => exact (ih (step s i).1).trans (hstep s i)

/-- **History invariants.**  A relation between the inputs heard and the state, kept by every step
that meets `C`, holds after a run whose steps all meet `C`. -/
theorem run_history {C : σ → ι → Prop} {I : List ι → σ → Prop}
    (hstep : ∀ h s i, I h s → C s i → I (h ++ [i]) (step s i).1) (s : σ) (is : List ι)
    (hs : I [] s) (hC : Along step C s is) : I is (run step s is) := by
  induction is using List.reverseRecOn with
  | nil => exact hs
  | append_singleton is i ih =>
    rw [along_concat] at hC
    rw [run_concat]
    exact hstep is _ i (ih hC.1) hC.2

/-- A condition on the inputs alone. -/
theorem along_of_forall {P : ι → Prop} (s : σ) (is : List ι) (h : ∀ i ∈ is, P i) :
    Along step (fun _ i => P i) s is := by
  induction is generalizing s with
  | nil => trivial
  | cons i is ih => exact ⟨h i (by simp), ih _ fun j hj => h j (by simp [hj])⟩

theorem Reachable.invariant {I : σ → Prop} (hstep : ∀ s i, I s → I (step s i).1) {s₀ s : σ}
    (h : Reachable step s₀ s) (h₀ : I s₀) : I s := by
  obtain ⟨is, rfl⟩ := h
  exact run_keeps step (C := fun _ _ => True) (fun s i hs _ => hstep s i hs) s₀ is h₀
    (along_of_forall step s₀ is fun _ _ => trivial)

/-- An invariant of the steps that meet `C` holds at each of them. -/
theorem along_of_invariant {C : σ → ι → Prop} {I : σ → Prop}
    (hstep : ∀ s i, I s → C s i → I (step s i).1) (s : σ) (is : List ι)
    (hs : I s) (hC : Along step C s is) : Along step (fun s i => I s ∧ C s i) s is := by
  induction is generalizing s with
  | nil => trivial
  | cons i is ih => exact ⟨⟨hs, hC.1⟩, ih _ (hstep s i hs hC.1) hC.2⟩

/-! ### Weights and potentials -/

/-- The sum of a weight over the steps of a run. -/
def total (step : σ → ι → σ × ω) (w : σ → ι → ℕ) : σ → List ι → ℕ
  | _, [] => 0
  | s, i :: is => w s i + total step w (step s i).1 is

section Potential

variable {C : σ → ι → Prop} {w : σ → ι → ℕ} {Φ : σ → ℕ}

/-- **A potential that pays.**  If every step costs no more than the potential it uses up, a run
costs no more than the potential it starts with. -/
theorem total_le_potential (hstep : ∀ s i, C s i → w s i + Φ (step s i).1 ≤ Φ s) (s : σ)
    (is : List ι) (hC : Along step C s is) : total step w s is + Φ (run step s is) ≤ Φ s := by
  induction is generalizing s with
  | nil => exact Nat.le_of_eq (Nat.zero_add _)
  | cons i is ih =>
    have hfirst := hstep s i hC.1
    have hrest := ih _ hC.2
    show w s i + total step w _ is + Φ (run step (step s i).1 is) ≤ Φ s
    omega

/-- **A potential that is refilled.**  If every step costs no more than the potential it uses up and
`k` for what comes in, a run costs no more than the potential it starts with and `k` for each. -/
theorem total_le_mul_total {v : σ → ι → ℕ} {k : ℕ}
    (hstep : ∀ s i, C s i → w s i + Φ (step s i).1 ≤ Φ s + k * v s i) (s : σ) (is : List ι)
    (hC : Along step C s is) :
    total step w s is + Φ (run step s is) ≤ Φ s + k * total step v s is := by
  induction is generalizing s with
  | nil => exact Nat.le_of_eq (Nat.zero_add _)
  | cons i is ih =>
    have hfirst := hstep s i hC.1
    have hrest := ih _ hC.2
    show w s i + total step w _ is + Φ (run step (step s i).1 is) ≤
      Φ s + k * (v s i + total step v _ is)
    rw [Nat.mul_add]
    omega

/-- **A potential that is paid off.**  If every step uses up no more potential than it costs, a run
costs at least the potential that is gone at its end. -/
theorem potential_le_total (hstep : ∀ s i, C s i → Φ s ≤ w s i + Φ (step s i).1) (s : σ)
    (is : List ι) (hC : Along step C s is) : Φ s ≤ total step w s is + Φ (run step s is) := by
  induction is generalizing s with
  | nil => exact Nat.le_of_eq (Nat.zero_add _).symm
  | cons i is ih =>
    have hfirst := hstep s i hC.1
    have hrest := ih _ hC.2
    show Φ s ≤ w s i + total step w _ is + Φ (run step (step s i).1 is)
    omega

/-- **Counters.**  If every step adds its weight to a counter, a run adds up the weights. -/
theorem counter_eq_add_total (hstep : ∀ s i, C s i → Φ (step s i).1 = Φ s + w s i) (s : σ)
    (is : List ι) (hC : Along step C s is) : Φ (run step s is) = Φ s + total step w s is := by
  induction is generalizing s with
  | nil => exact (Nat.add_zero _).symm
  | cons i is ih =>
    have hfirst := hstep s i hC.1
    have hrest := ih _ hC.2
    show Φ (run step (step s i).1 is) = Φ s + (w s i + total step w _ is)
    omega

end Potential

/-! ### Projections -/

/-- From states where `I` holds, which every step keeps, `π` carries each step of `step` to a step
of `step'`, reading inputs through `f` and outputs through `g`. -/
def Projects (I : σ → Prop) (step : σ → ι → σ × ω) (step' : σ' → ι' → σ' × ω') (π : σ → σ')
    (f : ι → ι') (g : ω → ω') : Prop :=
  ∀ s i, I s → I (step s i).1 ∧ step' (π s) (f i) = (π (step s i).1, g (step s i).2)

variable {step} {step' : σ' → ι' → σ' × ω'} {π : σ → σ'} {f : ι → ι'} {g : ω → ω'} {I : σ → Prop}

theorem run_project (h : Projects I step step' π f g) (s : σ) (hs : I s) (is : List ι) :
    π (run step s is) = run step' (π s) (is.map f) := by
  induction is generalizing s with
  | nil => rfl
  | cons i is ih =>
    obtain ⟨hI, heq⟩ := h s i hs
    rw [run_cons, ih _ hI, List.map_cons, run_cons, heq]

theorem outputs_project (h : Projects I step step' π f g) (s : σ) (hs : I s) (is : List ι) :
    (outputs step s is).map g = outputs step' (π s) (is.map f) := by
  induction is generalizing s with
  | nil => rfl
  | cons i is ih =>
    obtain ⟨hI, heq⟩ := h s i hs
    rw [outputs_cons, List.map_cons, ih _ hI, List.map_cons, outputs_cons, heq]

/-! ### Lockstep -/

/-- From related states, related inputs lead to related states and are answered alike. -/
def Lockstep (R : σ → σ' → Prop) (Q : ι → ι' → Prop) (T : ω → ω' → Prop) (step : σ → ι → σ × ω)
    (step' : σ' → ι' → σ' × ω') : Prop :=
  ∀ s s' i i', R s s' → Q i i' → R (step s i).1 (step' s' i').1 ∧ T (step s i).2 (step' s' i').2

namespace Lockstep

variable {R : σ → σ' → Prop} {Q : ι → ι' → Prop} {T : ω → ω' → Prop} {s : σ} {s' : σ'}
  {is : List ι} {is' : List ι'}

/-- **Lockstep over runs**: related inputs keep the states related. -/
theorem run_related (h : Lockstep R Q T step step') (hs : R s s') (hi : List.Forall₂ Q is is') :
    R (run step s is) (run step' s' is') := by
  induction hi generalizing s s' with
  | nil => exact hs
  | cons hq _ ih => exact ih (h _ _ _ _ hs hq).1

/-- Every answer of the one machine goes with the answer of the other to the same input. -/
theorem outputs_related (h : Lockstep R Q T step step') (hs : R s s') (hi : List.Forall₂ Q is is') :
    List.Forall₂ T (outputs step s is) (outputs step' s' is') := by
  induction hi generalizing s s' with
  | nil => exact .nil
  | cons hq _ ih =>
    obtain ⟨hr, ht⟩ := h _ _ _ _ hs hq
    exact .cons ht (ih hr)

end Lockstep

/-! ### Unrolling -/

/-- From states where `I` holds, which every step keeps, `π` carries each step of `step` to the run
of `step'` on the inputs `f` finds in its output. -/
def Unrolls (I : σ → Prop) (step : σ → ι → σ × ω) (step' : σ' → ι' → σ' × ω') (π : σ → σ')
    (f : ω → List ι') : Prop :=
  ∀ s i, I s → I (step s i).1 ∧ π (step s i).1 = run step' (π s) (f (step s i).2)

variable {f : ω → List ι'}

theorem run_unrolled (h : Unrolls I step step' π f) (s : σ) (hs : I s) (is : List ι) :
    π (run step s is) = run step' (π s) ((outputs step s is).flatMap f) := by
  induction is generalizing s with
  | nil => rfl
  | cons i is ih =>
    obtain ⟨hI, heq⟩ := h s i hs
    rw [run_cons, ih _ hI, heq, outputs_cons, List.flatMap_cons, run_append]

/-- What the steps put out is what the other machine puts out, if that is so for each of them. -/
theorem outputs_unrolled (h : Unrolls I step step' π f) {α : Type*} {g : ω → List α}
    {g' : ω' → List α}
    (hg : ∀ s i, I s → g (step s i).2 = (outputs step' (π s) (f (step s i).2)).flatMap g')
    (s : σ) (hs : I s) (is : List ι) : (outputs step s is).flatMap g =
      (outputs step' (π s) ((outputs step s is).flatMap f)).flatMap g' := by
  induction is generalizing s with
  | nil => rfl
  | cons i is ih =>
    obtain ⟨hI, heq⟩ := h s i hs
    rw [outputs_cons, List.flatMap_cons, List.flatMap_cons, outputs_append, List.flatMap_append,
      ← hg s i hs, ← heq, ih _ hI]

/-- If no step takes more than one input of the other machine, a run stops after each of these. -/
theorem prefix_unrolled (h : Unrolls I step step' π f)
    (hf : ∀ s i, I s → (f (step s i).2).length ≤ 1) (s : σ) (hs : I s) (is : List ι)
    {js ks : List ι'} (hjs : (outputs step s is).flatMap f = js ++ ks) :
    ∃ sofar, sofar <+: is ∧ (outputs step s sofar).flatMap f = js := by
  induction is generalizing s js with
  | nil =>
    have hnil : js = [] := (List.append_eq_nil_iff.mp hjs.symm).1
    exact ⟨[], List.nil_prefix, hnil.symm⟩
  | cons i is ih =>
    rw [outputs_cons, List.flatMap_cons] at hjs
    cases js with
    | nil => exact ⟨[], List.nil_prefix, rfl⟩
    | cons j js =>
      -- the first input is that of this step, or the step takes none
      have hfirst : ∃ js', f (step s i).2 ++ js' = j :: js ∧
          (outputs step (step s i).1 is).flatMap f = js' ++ ks := by
        cases hout : f (step s i).2 with
        | nil =>
          rw [hout] at hjs
          exact ⟨j :: js, rfl, hjs⟩
        | cons j' out =>
          have hlen := hf s i hs
          rw [hout, List.length_cons] at hlen
          obtain rfl : out = [] := List.eq_nil_of_length_eq_zero (by omega)
          rw [hout] at hjs
          obtain ⟨rfl, hrest⟩ := List.cons.inj hjs
          exact ⟨js, rfl, hrest⟩
      obtain ⟨js', hjs', hrest⟩ := hfirst
      obtain ⟨sofar, hprefix, hsofar⟩ := ih _ (h s i hs).1 hrest
      refine ⟨i :: sofar, List.cons_prefix_cons.mpr ⟨rfl, hprefix⟩, ?_⟩
      rw [outputs_cons, List.flatMap_cons, hsofar, hjs']

/-! ### Simulation -/

/-- The inputs that `g` finds in the steps of a run. -/
def unroll (step : σ → ι → σ × ω) (g : σ → ι → List ι') : σ → List ι → List ι'
  | _, [] => []
  | s, i :: is => g s i ++ unroll step g (step s i).1 is

variable {α : Type*} {g : σ → ι → List ι'}

theorem unroll_append (s : σ) (is js : List ι) : unroll step g s (is ++ js) =
    unroll step g s is ++ unroll step g (run step s is) js := by
  induction is generalizing s with
  | nil => rfl
  | cons i is ih => rw [List.cons_append, unroll, ih, unroll, run_cons, List.append_assoc]

theorem flatMap_unroll (k : ι' → List α) (s : σ) (is : List ι) :
    (unroll step g s is).flatMap k = unroll step (fun s i => (g s i).flatMap k) s is := by
  induction is generalizing s with
  | nil => rfl
  | cons i is ih => rw [unroll, List.flatMap_append, ih, unroll]

/-- What is found in the inputs alone. -/
theorem unroll_inputs (k : ι → List α) (s : σ) (is : List ι) :
    unroll step (fun _ i => k i) s is = is.flatMap k := by
  induction is generalizing s with
  | nil => rfl
  | cons i is ih => rw [unroll, ih, List.flatMap_cons]

/-- What is found in the outputs alone. -/
theorem unroll_outputs (k : ω → List α) (s : σ) (is : List ι) :
    unroll step (fun s i => k (step s i).2) s is = (outputs step s is).flatMap k := by
  induction is generalizing s with
  | nil => rfl
  | cons i is ih => rw [unroll, ih, outputs_cons, List.flatMap_cons]

/-- From related states, each step that meets `C` leads to a state related to the one that the other
machine reaches on the inputs that `g` finds. -/
def Simulates (R : σ → σ' → Prop) (C : σ → ι → Prop) (g : σ → ι → List ι') (step : σ → ι → σ × ω)
    (step' : σ' → ι' → σ' × ω') : Prop :=
  ∀ s s' i, R s s' → C s i → R (step s i).1 (run step' s' (g s i))

namespace Simulates

variable {R : σ → σ' → Prop} {C : σ → ι → Prop} {s : σ} {s' : σ'} {is : List ι}

/-- **Simulation over runs.** -/
theorem run_related (h : Simulates R C g step step') (hs : R s s') (hC : Along step C s is) :
    R (run step s is) (run step' s' (unroll step g s is)) := by
  induction is generalizing s s' with
  | nil => exact hs
  | cons i is ih =>
    rw [run_cons, unroll, run_append]
    exact ih (h s s' i hs hC.1) hC.2

/-- What the steps put out is what the other machine puts out, if that is so for each of them. -/
theorem outputs_related (h : Simulates R C g step step') {k : ω → List α} {k' : ω' → List α}
    (hk : ∀ s s' i, R s s' → C s i → k (step s i).2 = (outputs step' s' (g s i)).flatMap k')
    (hs : R s s') (hC : Along step C s is) : (outputs step s is).flatMap k =
      (outputs step' s' (unroll step g s is)).flatMap k' := by
  induction is generalizing s s' with
  | nil => rfl
  | cons i is ih =>
    rw [outputs_cons, List.flatMap_cons, unroll, outputs_append, List.flatMap_append,
      hk s s' i hs hC.1, ih (h s s' i hs hC.1) hC.2]

end Simulates

end Transducer
