import EsphomeEbus.Station

/-!
# SYN is no address

A telegram that gives SYN as its sender or its target has it from an escape pair.

* `Unreserved`: a telegram that does not;
* `Settled`: a telegram whose addresses have come, or are not expected;
* `ExpectsPlain`: a byte that is no part of an escaped address;
* `unreserved_receiver`, `ExpectsPlain.settled`: what such bytes leave behind.
-/

namespace EsphomeEbus

open Elf Transducer

namespace Telegram

variable {t t' : Telegram} {raw v : Byte}

/-- The telegram does not give SYN as its sender or its target. -/
def Unreserved (t : Telegram) : Prop := t.getQq ≠ syn ∧ t.getZz ≠ syn

/-- The addresses of the telegram have come, or it takes none before the next SYN. -/
def Settled (t : Telegram) : Prop :=
  t.state ≠ .waitForArbitration ∧ (t.state = .waitForRequestData → 2 ≤ t.request.pos)

theorem unreserved_new : Unreserved .new := by
  refine ⟨?_, ?_⟩ <;> decide

theorem settled_new : Settled .new := ⟨nofun, nofun⟩

theorem settled_of_state {state : TelegramState} (hs : t.state = state)
    (h : state ≠ .waitForArbitration ∧ state ≠ .waitForRequestData) : t.Settled := by
  subst hs
  exact ⟨h.1, fun hs => absurd hs h.2⟩

/-- A byte that is stored goes into the next cell, and changes no other. -/
theorem get_pushBuffer_cases {size : ℕ} (x : Byte) (b : RollingBuffer size) (m i : ℕ) :
    (pushBuffer x b m).get i = b.get i ∨ i = b.pos ∧ (pushBuffer x b m).get i = x := by
  by_cases hpos : b.pos < size
  · rw [RollingBuffer.get_pushBuffer x b m i hpos]
    by_cases hi : i = b.pos
    · exact .inr ⟨hi, if_pos hi⟩
    · exact .inl (if_neg hi)
  · left
    show ((b.buffer.setIfInBounds b.pos x).toList).getD i 0 = _
    rw [Vector.setIfInBounds_eq_of_size_le (Nat.le_of_not_lt hpos)]
    rfl

/-- A byte that is no SYN, or comes behind the addresses, makes no SYN of them. -/
theorem Unreserved.pushReqData (h : t.Unreserved) (hv : v ≠ syn ∨ 2 ≤ t.request.pos) :
    (t.pushReqData v).Unreserved := by
  have hcell : ∀ i, i < 2 → t.request.get i ≠ syn → (t.pushReqData v).request.get i ≠ syn := by
    intro i hi hold
    rcases get_pushBuffer_cases v t.request (offsetData + t.getNn.toNat) i with heq | ⟨hpos, heq⟩
    · exact fun hsyn => hold (heq.symm.trans hsyn)
    · rcases hv with hv | hv
      · exact fun hsyn => hv (heq.symm.trans hsyn)
      · omega
  exact ⟨hcell 0 (by decide) h.1, hcell 1 (by decide) h.2⟩

/-- A symbol makes no SYN of an address, unless it is an escape pair where one is expected. -/
theorem Receives.unreserved (h : t.Receives raw v t') (hu : t.Unreserved)
    (hv : t.Settled ∨ raw = syn ∨ v ≠ syn) : t'.Unreserved := by
  cases h with
  | first hs hraw =>
    refine hu.pushReqData (.inl ?_)
    rcases hv with hsettled | hsyn | hv
    · exact absurd hs hsettled.1
    · exact absurd hsyn hraw
    · exact hv
  | request hs hraw | requestEnd hs hraw =>
    refine hu.pushReqData ?_
    rcases hv with hsettled | hsyn | hv
    · exact .inr (hsettled.2 hs)
    · exact absurd hsyn hraw
    · exact .inl hv
  | _ => exact hu

/-- Behind the QQ of a telegram, a symbol that is no SYN settles its addresses. -/
theorem Receives.settled (h : t.Receives raw v t') (hraw : raw ≠ syn)
    (ht : t.Settled ∨ t.state = .waitForRequestData ∧ t.request.pos = 1) : t'.Settled := by
  have hpos : t.state = .waitForRequestData → 2 ≤ t.request.pos + 1 := by
    intro hs
    rcases ht with hsettled | ⟨-, hone⟩
    · exact Nat.le_succ_of_le (hsettled.2 hs)
    · exact (congrArg Nat.succ hone).ge
  have hopen : t.state ≠ .waitForArbitration := by
    intro hs
    rcases ht with hsettled | ⟨hs', -⟩
    · exact hsettled.1 hs
    · rw [hs] at hs'
      cases hs'
  cases h with
  | rests hrests =>
    rcases ht with hsettled | ⟨hs, -⟩
    · exact hsettled
    · exact absurd hs hrests.requestData
  | opens _ hsyn => exact absurd hsyn hraw
  | first hs => exact absurd hs hopen
  | request hs _ _ => exact ⟨hopen, fun _ => hpos hs⟩
  | requestEnd hs _ _ hnew => exact ⟨by rw [hnew]; split <;> nofun, fun _ => hpos hs⟩
  | acknowledged => exact ⟨nofun, nofun⟩
  | response hs => exact @settled_of_state _ .waitForResponseData hs (by decide)
  | responseEnd => exact ⟨nofun, nofun⟩
  | ends hends =>
    refine settled_of_state rfl ⟨?_, ?_⟩ <;>
    · rintro rfl
      exact absurd hends.neg (by decide)

end Telegram

/-! ### One byte -/

variable {r : Bool × Telegram} {b : Byte}

/-- A byte opens an escape pair, ends an invalid one, or completes a symbol. -/
theorem receiver_cases (r : Bool × Telegram) (b : Byte) :
    b = esc ∧ (receiver false r b).1 = (true, r.2) ∨
      (receiver false r b).1 = (false, .new) ∨
      ∃ v, (r.1 = false ∧ v = b ∨ r.1 = true ∧ b ≠ syn) ∧
        (receiver false r b).1 = (false, r.2.refresh.receive b v) := by
  obtain ⟨pending, t⟩ := r
  simp only [receiver, Stuffing.behind, Stuffing.read]
  cases pending with
  | false =>
    by_cases hb : b = wire.esc
    · exact .inl ⟨hb, by simp [hb]⟩
    · exact .inr (.inr ⟨b, .inl ⟨rfl, rfl⟩, by simp [hb, hear]⟩)
  | true =>
    right
    cases hv : wire.unmark b with
    | none => exact .inl (by simp [hear])
    | some v =>
      have hsyn : b ≠ syn := by
        rintro rfl
        cases hv
      exact .inr ⟨v, .inr ⟨rfl, hsyn⟩, by simp [hear]⟩

theorem Telegram.Unreserved.refresh {t : Telegram} (h : t.Unreserved) : t.refresh.Unreserved := by
  rw [Telegram.refresh]
  split
  · exact Telegram.unreserved_new
  · exact h

theorem Telegram.Settled.refresh {t : Telegram} (h : t.Settled) : t.refresh.Settled := by
  rw [Telegram.refresh]
  split
  · exact Telegram.settled_new
  · exact h

/-- Only the end of an escape pair can make SYN an address, where an address is expected. -/
theorem unreserved_receiver (h : r.2.Unreserved) (hb : r.1 = true → b = syn ∨ r.2.Settled) :
    (receiver false r b).1.2.Unreserved := by
  rcases receiver_cases r b with ⟨-, hr⟩ | hr | ⟨v, hv, hr⟩
  · rw [hr]
    exact h
  · rw [hr]
    exact Telegram.unreserved_new
  · rw [hr]
    refine (Telegram.receives _ _ _).unreserved h.refresh ?_
    rcases hv with ⟨-, rfl⟩ | ⟨hpair, -⟩
    · exact .inr (Decidable.em _)
    · rcases hb hpair with hsyn | hsettled
      · exact .inr (.inl hsyn)
      · exact .inl hsettled.refresh

/-- A byte that is no part of an escaped address: the addresses have come, or are not expected, or
the byte is a plain ZZ. -/
def ExpectsPlain (r : Bool × Telegram) (b : Byte) : Prop :=
  r.2.Settled ∨ r.1 = false ∧ b ≠ esc ∧ r.2.state = .waitForRequestData ∧ r.2.request.pos = 1

theorem ExpectsPlain.unreserved (h : ExpectsPlain r b) (hu : r.2.Unreserved) :
    (receiver false r b).1.2.Unreserved := by
  refine unreserved_receiver hu fun hpair => ?_
  rcases h with hsettled | ⟨hplain, -⟩
  · exact .inr hsettled
  · rw [hpair] at hplain
    cases hplain

/-- Behind such a byte, the addresses have come or are not expected. -/
theorem ExpectsPlain.settled (h : ExpectsPlain r b) (hsyn : b ≠ syn) :
    (receiver false r b).1.2.Settled := by
  rcases receiver_cases r b with ⟨hesc, hr⟩ | hr | ⟨v, -, hr⟩
  · rw [hr]
    rcases h with hsettled | ⟨-, hne, -⟩
    · exact hsettled
    · exact absurd hesc hne
  · rw [hr]
    exact Telegram.settled_new
  · rw [hr]
    refine (Telegram.receives _ _ _).settled hsyn ?_
    rcases h with hsettled | ⟨-, -, hs, hpos⟩
    · exact .inl hsettled.refresh
    · rw [Telegram.refresh_of_unfinished (TelegramBase.isFinished_of_state hs (by decide))]
      exact .inr ⟨hs, hpos⟩

/-- Behind the slot in which a QQ is heard, the ZZ of the request is a plain byte. -/
theorem Telegram.Apart.expectsPlain {t : Telegram} (h : t.Apart) (ho : t.OpensEmpty) {qq zz : Byte}
    (hqq : qq ≠ syn) (hzz : zz ≠ esc) : ExpectsPlain (false, t.refresh.receive qq qq) zz := by
  have h' := h.refresh
  have ho' := ho.refresh
  generalize t.refresh = t' at h' ho' ⊢
  have hreceives := t'.receives qq qq
  generalize t'.receive qq qq = t₁ at hreceives ⊢
  cases hreceives with
  | rests hrests => exact .inl ⟨fun hs => hqq (hrests.opened hs), fun hs => absurd hs h'.1⟩
  | opens _ hsyn => exact absurd hsyn hqq
  | first hs => exact .inr ⟨rfl, hzz, rfl, congrArg Nat.succ (ho' hs)⟩
  | request hs | requestEnd hs => exact absurd hs h'.1
  | acknowledged hs => exact absurd hs h'.2.1
  | response hs | responseEnd hs => exact absurd hs h'.2.2.1
  | ends hends =>
    obtain ⟨h₁, h₂, h₃, h₄⟩ := h'
    cases hends <;> contradiction

end EsphomeEbus
