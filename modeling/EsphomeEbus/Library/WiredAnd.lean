import Mathlib.Data.BitVec
import Mathlib.Tactic.Basic

/-!
# Words sent at once over a wired-AND medium

On an open-collector bus a slot carries the bitwise AND of the words sent in it.  Where the words,
or a part of them, are taken from a chain of codes on which AND is the minimum, the medium elects:
the slot shows the least code sent.

* `andAll`: what a slot carries;
* `AndChain`: a set of codes on which AND is the minimum;
* `andAll_least`: a part of the word that is sent in such codes comes through as its least code.
-/

namespace WiredAnd

variable {w v : ℕ}

/-- The AND of the words sent in one slot; an idle slot is all ones. -/
def andAll (words : List (BitVec w)) : BitVec w := words.foldr (· &&& ·) (BitVec.allOnes w)

@[simp] theorem andAll_cons (b : BitVec w) (words : List (BitVec w)) :
    andAll (b :: words) = b &&& andAll words := rfl

@[simp] theorem andAll_singleton (b : BitVec w) : andAll [b] = b := BitVec.and_allOnes

/-- Equal words come through. -/
theorem andAll_of_forall {b : BitVec w} {words : List (BitVec w)} (hne : words ≠ [])
    (h : ∀ a ∈ words, a = b) : andAll words = b := by
  induction words with
  | nil => exact absurd rfl hne
  | cons a words ih =>
    obtain rfl := h a (by simp)
    by_cases hwords : words = []
    · rw [hwords, andAll_singleton]
    · rw [andAll_cons, ih hwords fun c hc => h c (by simp [hc]), BitVec.and_self]

/-- Codes on which AND is the minimum. -/
def AndChain (P : BitVec v → Prop) : Prop :=
  ∀ a b, P a → P b → a &&& b = if a ≤ b then a else b

/-- **The least code comes through.**  `f` reads a part of the word that AND respects, and every
word sent has a code of the chain in it. -/
theorem andAll_least {f : BitVec w → BitVec v} (hf : ∀ a b, f (a &&& b) = f a &&& f b)
    {P : BitVec v → Prop} (hP : AndChain P) {words : List (BitVec w)} (hne : words ≠ [])
    (h : ∀ a ∈ words, P (f a)) :
    (∃ a ∈ words, f a = f (andAll words)) ∧ ∀ a ∈ words, f (andAll words) ≤ f a := by
  induction words with
  | nil => exact absurd rfl hne
  | cons b words ih =>
    by_cases hwords : words = []
    · subst hwords
      rw [andAll_singleton]
      refine ⟨⟨b, by simp, rfl⟩, fun a ha => ?_⟩
      rw [List.mem_singleton.mp ha]
      exact BitVec.le_refl _
    · obtain ⟨⟨a, ha, hattained⟩, hleast⟩ := ih hwords fun c hc => h c (by simp [hc])
      have hcode : P (f (andAll words)) := by
        rw [← hattained]
        exact h a (by simp [ha])
      rw [andAll_cons, hf, hP _ _ (h b (by simp)) hcode]
      split
      · rename_i hle
        refine ⟨⟨b, by simp, rfl⟩, fun c hc => ?_⟩
        rcases List.mem_cons.mp hc with rfl | hc
        · exact BitVec.le_refl _
        · exact BitVec.le_trans hle (hleast c hc)
      · rename_i hle
        refine ⟨⟨a, by simp [ha], hattained⟩, fun c hc => ?_⟩
        rcases List.mem_cons.mp hc with rfl | hc
        · exact BitVec.le_of_lt (BitVec.not_le.mp hle)
        · exact hleast c hc

end WiredAnd
