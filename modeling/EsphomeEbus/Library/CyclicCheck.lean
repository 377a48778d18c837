import Mathlib.Algebra.Polynomial.Div
import Mathlib.Algebra.Polynomial.Eval.Coeff
import Mathlib.Algebra.Polynomial.Inductions
import Mathlib.Data.List.GetD
import Mathlib.RingTheory.Coprime.Lemmas

/-!
# Cyclic checks: the remainder of a message modulo a polynomial

A cyclic check reads a message as the coefficients of a polynomial, highest power first, and divides
it by a fixed monic polynomial `P`.  The check word is the remainder.  In the plain form treated
here nothing is appended to the message before the division.

* `ofCoeffs`: the polynomial of a list of coefficients, its coefficients, degree and value at 1;
* `feed`, `foldl_feed`: the division register, fed with one coefficient after the other;
* `Accepted`: a message with a check word that is its remainder; `Accepted.error`: the difference of
  two accepted frames is accepted;
* `Burst`: an error that is confined to a stretch of the frame;
* `not_accepted_of_burst`, `sum_eq_of_accepted`: the errors that no check of this form lets pass.
-/

namespace CyclicCheck

open Polynomial

variable {R : Type*} [CommRing R]

/-! ### Coefficient lists -/

/-- The polynomial whose coefficients are the list, highest power first. -/
noncomputable def ofCoeffs (l : List R) : R[X] := l.foldl (fun p c => X * p + C c) 0

@[simp] theorem ofCoeffs_nil : ofCoeffs ([] : List R) = 0 := rfl

theorem ofCoeffs_concat (l : List R) (c : R) : ofCoeffs (l ++ [c]) = X * ofCoeffs l + C c := by
  rw [ofCoeffs, List.foldl_append]
  rfl

theorem ofCoeffs_append (l m : List R) :
    ofCoeffs (l ++ m) = X ^ m.length * ofCoeffs l + ofCoeffs m := by
  induction m using List.reverseRecOn with
  | nil => simp
  | append_singleton m c ih =>
    rw [← List.append_assoc, ofCoeffs_concat, ih, ofCoeffs_concat, List.length_append,
      List.length_singleton, pow_succ]
    ring

theorem ofCoeffs_cons (c : R) (l : List R) :
    ofCoeffs (c :: l) = C c * X ^ l.length + ofCoeffs l := by
  have hsplit := ofCoeffs_append [c] l
  have hsingle : ofCoeffs [c] = C c := by
    show X * 0 + C c = C c
    rw [mul_zero, zero_add]
  rw [hsingle, mul_comm] at hsplit
  exact hsplit

@[simp] theorem ofCoeffs_replicate_zero (n : ℕ) : ofCoeffs (List.replicate n (0 : R)) = 0 := by
  induction n with
  | zero => rfl
  | succ n ih => rw [List.replicate_succ, ofCoeffs_cons, ih, C_0, zero_mul, zero_add]

theorem coeff_ofCoeffs (l : List R) (k : ℕ) : (ofCoeffs l).coeff k = l.reverse.getD k 0 := by
  induction l using List.reverseRecOn generalizing k with
  | nil => simp
  | append_singleton l c ih =>
    rw [ofCoeffs_concat, List.reverse_append, coeff_add]
    cases k with
    | zero => simp
    | succ k =>
      rw [coeff_X_mul, coeff_C_succ, add_zero, ih]
      rfl

theorem degree_ofCoeffs_lt (l : List R) : (ofCoeffs l).degree < l.length := by
  rw [degree_lt_iff_coeff_zero]
  intro k hk
  rw [coeff_ofCoeffs, List.getD_eq_default _ _ (by rwa [List.length_reverse])]

theorem ofCoeffs_eq_zero_iff (l : List R) : ofCoeffs l = 0 ↔ ∀ c ∈ l, c = 0 := by
  constructor
  · intro h c hc
    obtain ⟨k, hk, rfl⟩ := List.mem_iff_getElem.mp (List.mem_reverse.mpr hc)
    rw [← List.getD_eq_getElem _ 0 hk, ← coeff_ofCoeffs, h, coeff_zero]
  · intro h
    rw [List.eq_replicate_of_mem h, ofCoeffs_replicate_zero]

/-- Lists of one length are added coefficient by coefficient. -/
theorem ofCoeffs_zipWith_add {l m : List R} (h : l.length = m.length) :
    ofCoeffs (List.zipWith (· + ·) l m) = ofCoeffs l + ofCoeffs m := by
  induction l generalizing m with
  | nil =>
    obtain rfl : m = [] := List.eq_nil_of_length_eq_zero h.symm
    exact (add_zero _).symm
  | cons c l ih =>
    cases m with
    | nil => cases h
    | cons d m =>
      have hlen : l.length = m.length := Nat.succ.inj h
      rw [List.zipWith_cons_cons, ofCoeffs_cons, ofCoeffs_cons, ofCoeffs_cons, ih hlen,
        List.length_zipWith, ← hlen, min_self, C_add]
      ring

theorem ofCoeffs_map_mul (a : R) (l : List R) : ofCoeffs (l.map (a * ·)) = C a * ofCoeffs l := by
  induction l with
  | nil => simp
  | cons c l ih =>
    rw [List.map_cons, ofCoeffs_cons, ofCoeffs_cons, ih, List.length_map, C_mul]
    ring

/-- The value at 1 is the sum of the coefficients. -/
theorem eval_one_ofCoeffs (l : List R) : (ofCoeffs l).eval 1 = l.sum := by
  induction l with
  | nil => simp
  | cons c l ih => simp [ofCoeffs_cons, ih]

/-! ### The division register -/

variable {P : R[X]}

/-- One more coefficient is shifted into the register. -/
noncomputable def feed (P r : R[X]) (c : R) : R[X] := (X * r + C c) %ₘ P

/-- A remainder may be taken before a coefficient is shifted in, or after. -/
theorem feed_modByMonic (hP : P.Monic) (p : R[X]) (c : R) :
    feed P (p %ₘ P) c = (X * p + C c) %ₘ P := by
  apply modByMonic_eq_of_dvd_sub hP
  refine ⟨X * -(p /ₘ P), ?_⟩
  have hsplit := modByMonic_add_div p P
  calc X * (p %ₘ P) + C c - (X * p + C c)
      = X * (p %ₘ P - p) := by ring
    _ = X * (p %ₘ P - (p %ₘ P + P * (p /ₘ P))) := by rw [hsplit]
    _ = P * (X * -(p /ₘ P)) := by ring

/-- **The register holds the remainder** of what has been fed to it, behind what it started with. -/
theorem foldl_feed (hP : P.Monic) (r : R[X]) (l : List R) :
    l.foldl (feed P) (r %ₘ P) = (X ^ l.length * r + ofCoeffs l) %ₘ P := by
  induction l using List.reverseRecOn with
  | nil =>
    show r %ₘ P = (X ^ 0 * r + 0) %ₘ P
    rw [pow_zero, one_mul, add_zero]
  | append_singleton l c ih =>
    rw [List.foldl_append, List.foldl_cons, List.foldl_nil, ih, feed_modByMonic hP,
      ofCoeffs_concat, List.length_append, List.length_singleton, pow_succ]
    congr 1
    ring

/-! ### Frames -/

/-- The check word is the remainder of the message. -/
def Accepted (P : R[X]) (message check : List R) : Prop := ofCoeffs message %ₘ P = ofCoeffs check

/-- An error that turns an accepted frame into an accepted frame is accepted itself. -/
theorem Accepted.error {message check e f : List R} (hm : message.length = e.length)
    (hc : check.length = f.length) (h : Accepted P message check)
    (h' : Accepted P (List.zipWith (· + ·) message e) (List.zipWith (· + ·) check f)) :
    Accepted P e f := by
  unfold Accepted at *
  rw [ofCoeffs_zipWith_add hm, ofCoeffs_zipWith_add hc, add_modByMonic, h] at h'
  exact add_left_cancel h'

/-- The list is not all zero, and what is not zero in it lies within `n` consecutive places. -/
def Burst (n : ℕ) (e : List R) : Prop :=
  ∃ i b j, e = List.replicate i 0 ++ b ++ List.replicate j 0 ∧ b.length ≤ n ∧ ∃ c ∈ b, c ≠ 0

/-- The polynomial of a burst. -/
theorem Burst.ofCoeffs_eq {n : ℕ} {e : List R} (h : Burst n e) :
    ∃ (B : R[X]) (j : ℕ), ofCoeffs e = X ^ j * B ∧ B ≠ 0 ∧ B.degree < n := by
  obtain ⟨i, b, j, rfl, hb, c, hc, hne⟩ := h
  refine ⟨ofCoeffs b, j, ?_, ?_, ?_⟩
  · rw [ofCoeffs_append, ofCoeffs_append, ofCoeffs_replicate_zero, ofCoeffs_replicate_zero,
      mul_zero, zero_add, add_zero, List.length_replicate]
  · intro hzero
    exact hne ((ofCoeffs_eq_zero_iff b).mp hzero c hc)
  · exact (degree_ofCoeffs_lt b).trans_le (by exact_mod_cast hb)

/-- A polynomial whose constant coefficient is a unit has no factor in common with a power. -/
theorem isCoprime_X_pow (hunit : IsUnit (P.coeff 0)) (j : ℕ) : IsCoprime P (X ^ j) := by
  apply IsCoprime.pow_right
  obtain ⟨u, hu⟩ := hunit
  refine ⟨C (↑u⁻¹ : R), -(C (↑u⁻¹ : R) * P.divX), ?_⟩
  have hinv : C (↑u⁻¹ : R) * C (P.coeff 0) = 1 := by
    rw [← C_mul, ← hu, Units.inv_mul, C_1]
  calc C (↑u⁻¹ : R) * P + -(C (↑u⁻¹ : R) * P.divX) * X
      = C (↑u⁻¹ : R) * (P - P.divX * X) := by ring
    _ = C (↑u⁻¹ : R) * (P.divX * X + C (P.coeff 0) - P.divX * X) := by rw [divX_mul_X_add]
    _ = C (↑u⁻¹ : R) * C (P.coeff 0) := by rw [add_sub_cancel_left]
    _ = 1 := hinv

/-- No shift of a polynomial of lower degree is divisible by `P`. -/
theorem not_dvd_shift (hP : P.Monic) (hunit : IsUnit (P.coeff 0)) {B : R[X]} (hB : B ≠ 0)
    (hdeg : B.degree < P.degree) (j : ℕ) : ¬ P ∣ X ^ j * B := by
  intro hdvd
  exact hP.not_dvd_of_degree_lt hB hdeg ((isCoprime_X_pow hunit j).dvd_of_dvd_mul_left hdvd)

section Frame

variable {M F B : R[X]} {n j : ℕ} (heq : X ^ n * M + F = X ^ j * B) (hF : F.degree < n)
include heq

/-- Behind a shifted polynomial the check part is zero. -/
theorem coeff_check_of_lt {k : ℕ} (hn : k < n) (hj : k < j) : F.coeff k = 0 := by
  have hcoeff := congrArg (fun p : R[X] => p.coeff k) heq
  simp only [coeff_add, coeff_X_pow_mul', if_neg (Nat.not_le.mpr hn),
    if_neg (Nat.not_le.mpr hj), zero_add] at hcoeff
  exact hcoeff

include hF

/-- A short polynomial that is shifted by less than the check part is long reaches into the message
part by less than its shift. -/
theorem coeff_message_of_le (hB : B.degree < n) (hj : j < n) {k : ℕ} (hk : j ≤ k) :
    M.coeff k = 0 := by
  have hcoeff := congrArg (fun p : R[X] => p.coeff (k + n)) heq
  simp only [coeff_add, coeff_X_pow_mul] at hcoeff
  rw [coeff_eq_zero_of_degree_lt (hF.trans_le (by exact_mod_cast Nat.le_add_left n k)),
    coeff_X_pow_mul', if_pos (by omega), add_zero] at hcoeff
  rw [hcoeff]
  exact coeff_eq_zero_of_degree_lt (hB.trans_le (by exact_mod_cast (by omega : n ≤ k + n - j)))

/-- If the check part is the remainder of the message part, it is zero. -/
theorem check_eq_zero [Nontrivial R] (hP : P.Monic) (hPdeg : P.degree = n) (hB : B.degree < n)
    (hmod : M %ₘ P = F) : F = 0 := by
  ext k
  rw [coeff_zero]
  rcases Nat.lt_or_ge k n with hkn | hkn
  · rcases Nat.lt_or_ge k j with hkj | hkj
    · exact coeff_check_of_lt heq hkn hkj
    · -- the message part is its own remainder
      have hj : j < n := Nat.lt_of_le_of_lt hkj hkn
      have hshort : M.degree < n :=
        ((degree_lt_iff_coeff_zero M j).mpr fun i hi =>
          coeff_message_of_le heq hF hB hj hi).trans (by exact_mod_cast hj)
      have hself : M %ₘ P = M := by rwa [modByMonic_eq_self_iff hP, hPdeg]
      rw [← hmod, hself]
      exact coeff_message_of_le heq hF hB hj hkj
  · exact coeff_eq_zero_of_degree_lt (hF.trans_le (by exact_mod_cast hkn))

end Frame

/-- **Bursts are found.**  No error confined to as many consecutive coefficients as the check word
has, in the message, in the check word or across both, is accepted. -/
theorem not_accepted_of_burst [Nontrivial R] (hP : P.Monic) (hunit : IsUnit (P.coeff 0))
    {e f : List R} (hf : f.length = P.natDegree) (hburst : Burst P.natDegree (e ++ f)) :
    ¬ Accepted P e f := by
  obtain ⟨B, j, heq, hB, hdeg⟩ := hburst.ofCoeffs_eq
  rw [ofCoeffs_append, hf] at heq
  have hPdeg : P.degree = P.natDegree := degree_eq_natDegree hP.ne_zero
  have hfdeg : (ofCoeffs f).degree < P.natDegree := by
    rw [← hf]
    exact degree_ofCoeffs_lt f
  intro haccepted
  have hmod : ofCoeffs e %ₘ P = ofCoeffs f := haccepted
  have hzero := check_eq_zero heq hfdeg hP hPdeg hdeg hmod
  have hdvd : P ∣ ofCoeffs e := by
    rw [← modByMonic_eq_zero_iff_dvd hP, hmod, hzero]
  rw [hzero, add_zero] at heq
  exact not_dvd_shift hP hunit hB (by rwa [hPdeg]) j (heq ▸ hdvd.mul_left _)

/-- **Sums are found.**  If 1 is a root of `P`, the coefficients of an accepted error have the same
sum in the message as in the check word. -/
theorem sum_eq_of_accepted (hroot : P.eval 1 = 0) {e f : List R} (h : Accepted P e f) :
    e.sum = f.sum := by
  have hsplit := congrArg (eval 1) (modByMonic_add_div (ofCoeffs e) P)
  rw [eval_add, eval_mul, hroot, zero_mul, add_zero, h, eval_one_ofCoeffs,
    eval_one_ofCoeffs] at hsplit
  exact hsplit.symm

end CyclicCheck
