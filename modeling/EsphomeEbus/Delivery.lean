import EsphomeEbus.Component
import EsphomeEbus.History

/-!
# From the bus to the items: no telegram lost, no telegram corrupt

Two laws of the way a telegram takes from the bus to the sensors, each with the exact circumstances
under which the driver keeps it.

* `finished_eq_queued_iff`: the telegrams queued are those that finished, in order and each once,
  for as long as no invalid escape pair arrives while a finished telegram waits to be queued;
* `completed_right_iff`: the telegrams completed have correct checksums, for as long as every
  broadcast carries the right CRC and nobody acknowledges a frame whose CRC is wrong;
* `delivered_telegrams_valid`: in such a run the same is true of all that reaches an item.
-/

namespace EsphomeEbus

open Elf Transducer Stuffing

namespace Ebus

/-! ### Finished telegrams and queued telegrams -/

/-- The telegram with which the receiver enters a finished state during the call, if it does. -/
def entersFinished (s : Ebus) (call : Call) : List Telegram :=
  let t := (s.processReceivedChar call).1.receivingTelegram
  if t.isFinished && !s.receivingTelegram.isFinished then [t] else []

/-- The telegrams that finish during some calls, oldest first. -/
def finishedDuring : Ebus → List Call → List Telegram
  | _, [] => []
  | s, call :: calls =>
    s.entersFinished call ++ finishedDuring (s.processReceivedChar call).1 calls

/-- A finished telegram still waiting to be queued. -/
def pendingFinished (s : Ebus) : List Telegram :=
  if s.receivingTelegram.isFinished then [s.receivingTelegram] else []

/-- The call does not end an invalid escape pair while a finished telegram waits to be queued. -/
def KeepsFinished (s : Ebus) (call : Call) : Prop :=
  ¬ (s.inEsc = true ∧ s.receivingTelegram.isFinished = true ∧
    call.receivedByte ≠ 0x00#8 ∧ call.receivedByte ≠ 0x01#8)

instance (s : Ebus) (call : Call) : Decidable (s.KeepsFinished call) :=
  inferInstanceAs (Decidable (¬ _))

/-- **One step of the conservation law.**  What waited or has just finished is what was queued or
still waits, exactly when the call keeps a finished telegram. -/
theorem conserved_iff (s : Ebus) (call : Call) (hq : s.config.queueReceivedTelegram = true) :
    s.pendingFinished ++ s.entersFinished call =
        (s.processReceivedChar call).2.queued ++ (s.processReceivedChar call).1.pendingFinished ↔
      s.KeepsFinished call := by
  have hsym : ∀ (s : Ebus) (real : Byte), s.config.queueReceivedTelegram = true →
      s.pendingFinished ++ (if (s.processSymbol call real).1.receivingTelegram.isFinished &&
          !s.receivingTelegram.isFinished then [(s.processSymbol call real).1.receivingTelegram]
          else []) =
        (s.processSymbol call real).2.queued ++ (s.processSymbol call real).1.pendingFinished := by
    intro s real hq
    rw [processSymbol_snd]
    simp only [pendingFinished, processSymbol_receivingTelegram, hq, Bool.and_true]
    cases hf : (s.receivingTelegram.refresh.receive call.receivedByte real).isFinished with
    | true => simp [receive_refresh_finished hf]
    | false => simp
  unfold entersFinished KeepsFinished
  obtain ⟨hesc, -, h⟩ | ⟨hesc, h0, h1, h⟩ | ⟨hesc, -, h⟩ | ⟨real, hesc, hb, h⟩ :=
    s.processReceivedChar_cases call
  · simp [h, hesc, pendingFinished]
  · have hnew : Telegram.new.isFinished = false := rfl
    simp [h, hesc, h0, h1, pendingFinished, hnew]
  · simp only [h, hesc, hsym s _ hq]
    simp
  · have := hsym { s with inEsc := false } real hq
    simp only [h]
    refine ⟨fun _ hk => ?_, fun _ => this⟩
    rcases hb with ⟨hb, -⟩ | ⟨hb, -⟩
    · exact hk.2.2.1 hb
    · exact hk.2.2.2 hb

theorem finishedDuring_concat (s : Ebus) (calls : List Call) (call : Call) :
    s.finishedDuring (calls ++ [call]) =
      s.finishedDuring calls ++ (s.after calls).entersFinished call := by
  induction calls generalizing s with
  | nil => simp [finishedDuring, after, run]
  | cons c calls ih =>
    rw [List.cons_append, finishedDuring, ih, finishedDuring, List.append_assoc]
    rfl

/-- The conservation law after some calls: what finished is what was queued, then what waits. -/
def Conserved (s : Ebus) (calls : List Call) : Prop :=
  s.finishedDuring calls = s.queuedDuring calls ++ (s.after calls).pendingFinished

instance (s : Ebus) (calls : List Call) : Decidable (s.Conserved calls) :=
  inferInstanceAs (Decidable (_ = _))

theorem conserved_concat_iff {s : Ebus} {calls : List Call} (h : s.Conserved calls) (call : Call)
    (hq : s.config.queueReceivedTelegram = true) :
    s.Conserved (calls ++ [call]) ↔ (s.after calls).KeepsFinished call := by
  rw [← conserved_iff (s.after calls) call (by rw [after_config]; exact hq)]
  unfold Conserved at h ⊢
  rw [finishedDuring_concat, queuedDuring_concat, after_concat, h, List.append_assoc,
    List.append_assoc, List.append_right_inj]

/-- **No finished telegram is lost or queued twice**, at any moment of a run, if and only if no call
of the run ends an invalid escape pair while a finished telegram waits to be queued. -/
theorem finished_eq_queued_iff (config : Config) (hq : config.queueReceivedTelegram = true)
    (calls : List Call) :
    (∀ sofar rest, calls = sofar ++ rest → (init config).Conserved sofar) ↔
      Along processReceivedChar KeepsFinished (init config) calls := by
  induction calls using List.reverseRecOn with
  | nil =>
    refine ⟨fun _ => trivial, fun _ sofar rest h => ?_⟩
    obtain ⟨rfl, -⟩ := List.append_eq_nil_iff.mp h.symm
    rfl
  | append_singleton calls call ih =>
    rw [along_concat, ← ih]
    constructor
    · intro h
      have hcalls := h calls [call] rfl
      refine ⟨fun sofar rest hs => h sofar (rest ++ [call]) (by rw [hs, List.append_assoc]), ?_⟩
      exact (conserved_concat_iff hcalls call hq).mp (h (calls ++ [call]) [] (by simp))
    · rintro ⟨h, hk⟩ sofar rest hs
      rcases List.eq_nil_or_concat' rest with rfl | ⟨rest, c, rfl⟩
      · rw [List.append_nil] at hs
        subst hs
        exact (conserved_concat_iff (h calls [] (by simp)) call hq).mpr hk
      · rw [← List.append_assoc] at hs
        obtain ⟨hs, -⟩ := List.append_inj' hs rfl
        exact h sofar rest hs

/-- A broadcast, then an escape pair after it that stands for ESC: the telegram is queued. -/
theorem escape_after_broadcast_conserved : (init (defaultConfig 0x30#8)).Conserved
    (quiet [0xAA#8, 0x10#8, 0xFE#8, 0x07#8, 0x00#8, 0x00#8, 0x13#8, 0xA9#8, 0x00#8]) := by
  have hrun := (finished_eq_queued_iff (defaultConfig 0x30#8) rfl
    (quiet [0xAA#8, 0x10#8, 0xFE#8, 0x07#8, 0x00#8, 0x00#8, 0x13#8, 0xA9#8, 0x00#8])).mpr
      (by decide +kernel)
  exact hrun _ [] (List.append_nil _).symm

/-- The same broadcast, then an invalid escape pair: the telegram finished, but is never queued. -/
theorem invalid_escape_loses_broadcast :
    ¬ (init (defaultConfig 0x30#8)).Conserved
      (quiet [0xAA#8, 0x10#8, 0xFE#8, 0x07#8, 0x00#8, 0x00#8, 0x13#8, 0xA9#8, 0x05#8]) := by
  decide +kernel

end Ebus

/-! ### Checksums of delivered telegrams -/

/-- The symbol completes a frame only if the checksums of the frame are right: the CRC of a
broadcast is the one accumulated so far, and an acknowledge that nothing follows is given to frames
with a right CRC only. -/
structure Vouched (t : Telegram) (y : Symbol Byte) : Prop where
  broadcast : t.state = .waitForRequestData → t.getZz = broadcastAddress →
    t.request.pos = offsetData + t.getNn.toNat → y.value = t.request.crc
  request : t.state = .waitForRequestAck → y.raw = ack → t.isResponseExpected = false →
    t.isRequestValid = true
  response : t.state = .waitForResponseAck → y.raw = ack →
    t.isRequestValid = true ∧ t.isResponseValid = true

instance (t : Telegram) (y : Symbol Byte) : Decidable (Vouched t y) :=
  decidable_of_iff
    ((t.state = .waitForRequestData → t.getZz = broadcastAddress →
        t.request.pos = offsetData + t.getNn.toNat → y.value = t.request.crc) ∧
      (t.state = .waitForRequestAck → y.raw = ack → t.isResponseExpected = false →
        t.isRequestValid = true) ∧
      (t.state = .waitForResponseAck → y.raw = ack →
        t.isRequestValid = true ∧ t.isResponseValid = true))
    ⟨fun h => ⟨h.1, h.2.1, h.2.2⟩, fun h => ⟨h.1, h.2, h.3⟩⟩

/-- The data symbol the call completes, if it completes one, is `Vouched`. -/
def VouchedCall (s : Ebus) (call : Call) : Prop :=
  ∀ y ∈ (wire.read s.inEsc call.receivedByte).2, IsData y → Vouched s.receivingTelegram y

instance (s : Ebus) (call : Call) : Decidable (VouchedCall s call) :=
  inferInstanceAs (Decidable (∀ y ∈ _, IsData y → _))

/-- The checksums of a telegram are right: of its request, and of its response if it has one. -/
def ChecksumsRight (t : Telegram) : Prop :=
  t.isRequestValid = true ∧ (t.getType = .primarySecondary → t.isResponseValid = true)

/-- In every other state any symbol will do. -/
theorem vouched_of_state {t : Telegram} {state : TelegramState} (hs : t.state = state)
    (h₁ : state ≠ .waitForRequestData) (h₂ : state ≠ .waitForRequestAck)
    (h₃ : state ≠ .waitForResponseAck) (y : Symbol Byte) : Vouched t y := by
  rw [← hs] at h₁ h₂ h₃
  exact ⟨fun h => absurd h h₁, fun h => absurd h h₂, fun h => absurd h h₃⟩

/-- The last byte of a broadcast is checked against the checksum so far. -/
theorem checksumsRight_broadcast_iff {t : Telegram} {rq rs : List Byte} (ht : t.Holds rq rs)
    (hg : Growing offsetData rq) {v : Byte} (hc : Complete offsetData (rq ++ [v]))
    (hzz : (t.pushReqData v).getZz = broadcastAddress) :
    ChecksumsRight ((t.pushReqData v).setState .endCompleted) ↔ v = t.request.crc := by
  have hvalid := ((ht.pushReqData hg v).setState .endCompleted).isRequestValid_iff (.inr rfl)
  have hnot : ((t.pushReqData v).setState .endCompleted).getType ≠ .primarySecondary := by
    intro hps
    rw [← TelegramBase.isResponseExpected_iff] at hps
    exact TelegramBase.ackExpected_of_responseExpected hps hzz
  rw [ChecksumsRight, hvalid, and_iff_right hc, checked_concat_iff hc, ht.request.crc_of_growing hg]
  exact and_iff_left fun hps => absurd hps hnot

/-- The acknowledge that completes a telegram leaves its checksums as they are. -/
theorem checksumsRight_setState_iff {t : Telegram} {rq rs : List Byte} (ht : t.Holds rq rs)
    (hu : t.Underway) : ChecksumsRight (t.setState .endCompleted) ↔ ChecksumsRight t := by
  have hreq : (t.setState .endCompleted).isRequestValid = t.isRequestValid := by
    rw [Bool.eq_iff_iff, (ht.setState .endCompleted).isRequestValid_iff (.inr rfl),
      ht.isRequestValid_iff hu]
  have hresp : (t.setState .endCompleted).isResponseValid = t.isResponseValid := by
    rw [Bool.eq_iff_iff, (ht.setState .endCompleted).isResponseValid_iff (.inr rfl),
      ht.isResponseValid_iff hu]
  rw [ChecksumsRight, ChecksumsRight, hreq, hresp]
  exact Iff.rfl

section Completes

variable {t : Telegram} {rq rs : List Byte} {y : Symbol Byte} (ht : t.Holds rq rs)

include ht

/-- A byte of a request: only the last byte of a broadcast completes a telegram. -/
theorem request_completes_right_iff (hs : t.state = .waitForRequestData) (hraw : y.raw ≠ syn)
    (hg : Growing offsetData rq) :
    ((t.receive y.raw y.value).state = .endCompleted → ChecksumsRight (t.receive y.raw y.value)) ↔
      Vouched t y := by
  have hvouched : Vouched t y ↔ (t.getZz = broadcastAddress →
      t.request.pos = offsetData + t.getNn.toNat → y.value = t.request.crc) := by
    refine ⟨fun hv => hv.broadcast hs, fun hb => ⟨fun _ => hb, fun h' => ?_, fun h' => ?_⟩⟩
    · exact absurd (hs.symm.trans h') (by decide)
    · exact absurd (hs.symm.trans h') (by decide)
  rw [hvouched, ht.request.pos_eq, ht.getNn_eq]
  rcases growing_concat offsetData_pos hg y.value with hg' | hcomp
  · rw [ht.receive_request hs hraw hg hg']
    apply iff_of_true
    · intro hc
      exact absurd (hs.symm.trans hc) (by decide)
    · intro _ hpos
      exact absurd (complete_concat offsetData_pos hpos y.value) (not_complete_of_growing hg')
  · have hfull := length_of_complete_concat offsetData_pos hcomp
    have hp := ht.pushReqData hg y.value
    have htwo : 2 ≤ rq.length := by
      rw [hfull]
      exact Nat.le_add_right_of_le (by decide)
    have hzz : (t.pushReqData y.value).getZz = t.getZz := by
      rw [hp.getZz_eq (by rw [List.length_append]; omega), List.getD_append _ _ _ _ htwo,
        ht.getZz_eq htwo]
    rw [ht.receive_requestEnd hs hraw hg hcomp]
    cases ha : (t.pushReqData y.value).isAckExpected with
    | true =>
      rw [TelegramBase.isAckExpected_iff, hzz] at ha
      apply iff_of_true
      · intro hc
        cases hc
      · intro hbroadcast _
        exact absurd hbroadcast ha
    | false =>
      rw [TelegramBase.isAckExpected_eq_false_iff] at ha
      have hright := checksumsRight_broadcast_iff ht hg hcomp ha
      rw [hzz] at ha
      exact ⟨fun hc _ _ => hright.mp (hc rfl), fun hv _ => hright.mpr (hv ha hfull)⟩

/-- The acknowledge of a request: it completes a telegram that nothing follows. -/
theorem requestAck_completes_right_iff (hs : t.state = .waitForRequestAck) :
    ((t.receive y.raw y.value).state = .endCompleted → ChecksumsRight (t.receive y.raw y.value)) ↔
      Vouched t y := by
  have hu : t.Underway := .inl (by rw [hs]; decide)
  have hvouched : Vouched t y ↔
      (y.raw = ack → t.isResponseExpected = false → t.isRequestValid = true) := by
    refine ⟨fun hv => hv.request hs, fun hr => ⟨fun h' => ?_, fun _ => hr, fun h' => ?_⟩⟩
    · exact absurd (hs.symm.trans h') (by decide)
    · exact absurd (hs.symm.trans h') (by decide)
  rw [hvouched]
  simp only [Telegram.receive, hs]
  by_cases hack : y.raw = ack
  · rw [if_pos hack]
    cases he : t.isResponseExpected with
    | true =>
      apply iff_of_true
      · intro hc
        cases hc
      · intro _ hno
        cases hno
    | false =>
      have hright : ChecksumsRight t ↔ t.isRequestValid = true := by
        apply and_iff_left
        intro hps
        rw [← TelegramBase.isResponseExpected_iff, he] at hps
        cases hps
      have hsame := (checksumsRight_setState_iff ht hu).trans hright
      exact ⟨fun hc _ _ => hsame.mp (hc rfl), fun hv _ => hsame.mpr (hv hack rfl)⟩
  · rw [if_neg hack]
    apply iff_of_true
    · intro hc
      split at hc <;> cases hc
    · intro h'
      exact absurd h' hack

/-- The acknowledge of a response completes the telegram. -/
theorem responseAck_completes_right_iff (hs : t.state = .waitForResponseAck)
    (he : t.isResponseExpected = true) :
    ((t.receive y.raw y.value).state = .endCompleted → ChecksumsRight (t.receive y.raw y.value)) ↔
      Vouched t y := by
  have hu : t.Underway := .inl (by rw [hs]; decide)
  have hvouched : Vouched t y ↔
      (y.raw = ack → t.isRequestValid = true ∧ t.isResponseValid = true) := by
    refine ⟨fun hv => hv.response hs, fun hr => ⟨fun h' => ?_, fun h' => ?_, fun _ => hr⟩⟩
    · exact absurd (hs.symm.trans h') (by decide)
    · exact absurd (hs.symm.trans h') (by decide)
  rw [hvouched]
  simp only [Telegram.receive, hs]
  by_cases hack : y.raw = ack
  · rw [if_pos hack]
    have hright : ChecksumsRight t ↔ t.isRequestValid = true ∧ t.isResponseValid = true := by
      rw [ChecksumsRight, forall_prop_of_true ((TelegramBase.isResponseExpected_iff _).mp he)]
    have hsame := (checksumsRight_setState_iff ht hu).trans hright
    exact ⟨fun hc _ => hsame.mp (hc rfl), fun hv _ => hsame.mpr (hv hack)⟩
  · rw [if_neg hack]
    apply iff_of_true
    · intro hc
      split at hc <;> cases hc
    · intro h'
      exact absurd h' hack

end Completes

/-- **A data symbol is vouched** if and only if it completes no telegram with a wrong checksum. -/
theorem completes_right_iff {t : Telegram} {ss : List (Symbol Byte)} (h : Heard t ss)
    (hf : t.isFinished = false) {y : Symbol Byte} (hraw : y.raw ≠ syn) :
    ((t.receive y.raw y.value).state = .endCompleted → ChecksumsRight (t.receive y.raw y.value)) ↔
      Vouched t y := by
  cases h with
  | idle hs ht =>
    refine iff_of_true (fun hc => ?_) (vouched_of_state hs (by decide) (by decide) (by decide) y)
    simp [Telegram.receive, hs, hraw] at hc
  | opened hs ht =>
    refine iff_of_true (fun hc => ?_) (vouched_of_state hs (by decide) (by decide) (by decide) y)
    simp [Telegram.receive, hs, hraw, Telegram.setState] at hc
  | request hs hd hne ht hg => exact request_completes_right_iff ht hs hraw hg
  | requestAck hs hd ht hcomp ha => exact requestAck_completes_right_iff ht hs
  | response hs hd ht hcomp ha he hg =>
    refine iff_of_true (fun hc => ?_) (vouched_of_state hs (by decide) (by decide) (by decide) y)
    rcases growing_concat responseOffset_pos hg y.value with hg' | hcomp'
    · rw [ht.receive_response hs hraw hg hg'] at hc
      exact absurd (hs.symm.trans hc) (by decide)
    · rw [ht.receive_responseEnd hs hraw hg hcomp'] at hc
      cases hc
  | responseAck hs hd ht hcomp ha he hcomp' => exact responseAck_completes_right_iff ht hs he
  | completed hs hd hsp =>
    rw [finished_of_completed hs] at hf
    cases hf
  | failed hfin =>
    rw [hfin] at hf
    cases hf

/-- A SYN completes nothing. -/
theorem receive_syn_not_completed {t : Telegram} (hf : t.isFinished = false) (v : Byte) :
    (t.receive syn v).state ≠ .endCompleted := by
  rcases t.receive_syn v with ⟨_, ht⟩ | ⟨_, ht⟩ | ⟨newState, h, ht⟩
  · rw [ht]
    intro hc
    rw [finished_of_completed hc] at hf
    cases hf
  · rw [ht]
    simp [Telegram.setState]
  · rw [ht]
    exact h.syn_ne_completed

/-- The same for the receiver, which replaces a finished telegram first, and for any symbol. -/
theorem refresh_completes_right_iff {t : Telegram} {ss : List (Symbol Byte)} (h : Heard t ss)
    {y : Symbol Byte} (hy : wire.Proper y) (hvalid : ∀ c, y ≠ .invalid c) :
    ((t.refresh.receive y.raw y.value).state = .endCompleted →
        ChecksumsRight (t.refresh.receive y.raw y.value)) ↔ (IsData y → Vouched t y) := by
  have hnot : ¬ IsData y → y.raw = syn := by
    cases y with
    | plain b => exact not_not.mp
    | pair c v => exact fun h => absurd trivial h
    | invalid c => exact absurd rfl (hvalid c)
  cases hf : t.isFinished with
  | true =>
    refine iff_of_true (fun hc => ?_) fun _ => ?_
    · have hf' := receive_refresh_finished (finished_of_completed hc)
      rw [hf] at hf'
      cases hf'
    · have hne : ∀ {state : TelegramState}, 0 ≤ state.toInt → t.state ≠ state := by
        intro state h0 hs
        rw [TelegramBase.isFinished_of_state hs h0] at hf
        cases hf
      exact ⟨fun h' => absurd h' (hne (by decide)), fun h' => absurd h' (hne (by decide)),
        fun h' => absurd h' (hne (by decide))⟩
  | false =>
    have hr : t.refresh = t := by
      rw [Telegram.refresh, hf]
      rfl
    rw [hr]
    by_cases hd : IsData y
    · rw [completes_right_iff h hf (hd.raw_ne_syn hy), forall_prop_of_true hd]
    · refine iff_of_true (fun hc => ?_) fun h' => absurd h' hd
      rw [hnot hd] at hc
      exact absurd hc (receive_syn_not_completed hf _)

namespace Ebus

/-- The call completes no telegram with a wrong checksum. -/
def CompletesRight (s : Ebus) (call : Call) : Prop :=
  (s.processReceivedChar call).1.receivingTelegram.state = .endCompleted →
    (s.processReceivedChar call).1.inEsc = false →
    ChecksumsRight (s.processReceivedChar call).1.receivingTelegram

/-- A call completes no telegram with a wrong checksum exactly if it is vouched. -/
theorem completesRight_iff (s : Ebus) (call : Call) {ss : List (Symbol Byte)}
    (h : Heard s.receivingTelegram ss) : CompletesRight s call ↔ VouchedCall s call := by
  have hsym : ∀ y : Symbol Byte, (wire.read s.inEsc call.receivedByte).2 = [y] →
      (∀ c, y ≠ .invalid c) → (s.processReceivedChar call).1.inEsc = false →
      (s.processReceivedChar call).1.receivingTelegram =
        s.receivingTelegram.refresh.receive y.raw y.value →
      (CompletesRight s call ↔ VouchedCall s call) := by
    intro y hread hvalid hesc hreceived
    have hy : wire.Proper y := wire.proper_of_mem_read (hread ▸ List.mem_singleton_self y)
    rw [CompletesRight, VouchedCall, hread, List.forall_mem_singleton, hreceived,
      forall_prop_of_true hesc]
    exact refresh_completes_right_iff h hy hvalid
  obtain ⟨hesc, hb, heq⟩ | ⟨hesc, h0, h1, heq⟩ | ⟨hesc, hb, heq⟩ | ⟨real, hesc, hb, heq⟩ :=
    s.processReceivedChar_cases call
  · refine iff_of_true (fun _ hp => ?_) fun y hy => ?_
    · rw [heq] at hp
      cases hp
    · simp [Stuffing.read, hesc, hb, wire] at hy
  · refine iff_of_true (fun hc => ?_) fun y hy hd => ?_
    · rw [heq] at hc
      cases hc
    · obtain rfl : y = .invalid call.receivedByte := by
        simpa [Stuffing.read, hesc, wire, h0, h1] using hy
      cases hd
  · refine hsym (.plain call.receivedByte) ?_ (by simp) ?_ ?_
    · simp [Stuffing.read, hesc, wire, hb]
    · rw [heq, processSymbol_inEsc, hesc]
    · rw [heq, processSymbol_receivingTelegram]
      rfl
  · refine hsym (.pair call.receivedByte real) ?_ (by simp) ?_ ?_
    · rcases hb with ⟨hb, rfl⟩ | ⟨hb, rfl⟩ <;> simp [Stuffing.read, hesc, wire, hb]
    · rw [heq, processSymbol_inEsc]
    · rw [heq, processSymbol_receivingTelegram]
      rfl

/-- **Every telegram that is completed in a run has the right checksums** if and only if all calls
of the run are vouched. -/
theorem completed_right_iff (config : Config) (calls : List Call) :
    (∀ sofar call rest, calls = sofar ++ call :: rest →
      CompletesRight ((init config).after sofar) call) ↔
      Along processReceivedChar VouchedCall (init config) calls := by
  rw [along_iff]
  refine forall_congr' fun sofar => forall_congr' fun call => forall_congr' fun rest => ?_
  refine forall_congr' fun _ => ?_
  exact completesRight_iff _ call (heard_after config sofar)

/-- **Delivery integrity.**  In every run whose calls are all vouched, each telegram that is queued
and passed on to an item has the right checksums. -/
theorem delivered_telegrams_valid {Item : Type*} (config : Config) (items : List Item)
    (calls : List Call) (hv : Along processReceivedChar VouchedCall (init config) calls) :
    ∀ t ∈ (init config).queuedDuring calls, ∀ p ∈ handleMessage items t,
      p.2.isRequestValid = true ∧
        (p.2.getType = .primarySecondary → p.2.isResponseValid = true) := by
  intro t ht p hp
  have hpt : p.2 = t ∧ t.state = .endCompleted := by
    unfold handleMessage at hp
    split at hp
    · cases hp
    · rename_i hs
      obtain ⟨item, -, rfl⟩ := List.mem_map.mp hp
      exact ⟨rfl, not_not.mp hs⟩
  obtain ⟨hpt, hc⟩ := hpt
  rw [hpt]
  obtain ⟨sofar, call, rest, rfl, hq⟩ := mem_queuedDuring _ _ ht
  obtain ⟨rfl, -⟩ := queued_eq _ _ hq
  obtain ⟨done, pending, rfl, -, hsame, hpend⟩ := completed_at hc
  rw [← hsame] at hc ⊢
  rcases List.eq_nil_or_concat' done with rfl | ⟨before, last, rfl⟩
  · cases hc
  · have hinEsc : ((init config).after (before ++ [last])).inEsc = false := by
      rw [after_inEsc]
      exact hpend
    have hright := (completed_right_iff config _).mpr hv before last (pending ++ call :: rest)
      (by simp)
    rw [after_concat] at hc hinEsc ⊢
    exact hright hc hinEsc

/-- A broadcast whose CRC is right is delivered with the right checksum. -/
theorem right_broadcast_delivered :
    let t := ((init (defaultConfig 0x30#8)).after
      (quiet [0xAA#8, 0x10#8, 0xFE#8, 0x07#8, 0x00#8, 0x00#8, 0x13#8])).receivingTelegram
    t.isRequestValid = true ∧ (t.getType = .primarySecondary → t.isResponseValid = true) := by
  have hdelivered := delivered_telegrams_valid (defaultConfig 0x30#8) [()]
    (quiet [0xAA#8, 0x10#8, 0xFE#8, 0x07#8, 0x00#8, 0x00#8, 0x13#8, 0xAA#8]) (by decide +kernel)
  have hqueued : ((init (defaultConfig 0x30#8)).after
      (quiet [0xAA#8, 0x10#8, 0xFE#8, 0x07#8, 0x00#8, 0x00#8, 0x13#8])).receivingTelegram ∈
      (init (defaultConfig 0x30#8)).queuedDuring
        (quiet [0xAA#8, 0x10#8, 0xFE#8, 0x07#8, 0x00#8, 0x00#8, 0x13#8, 0xAA#8]) := by
    decide +kernel
  exact hdelivered _ hqueued ((), _) (by decide +kernel)

/-- The same broadcast with another CRC byte reaches the item all the same. -/
theorem wrong_broadcast_delivered :
    ∃ t ∈ (init (defaultConfig 0x30#8)).queuedDuring
        (quiet [0xAA#8, 0x10#8, 0xFE#8, 0x07#8, 0x00#8, 0x00#8, 0x55#8, 0xAA#8]),
      ∃ p ∈ handleMessage [()] t, p.2.isRequestValid = false := by
  decide +kernel

end Ebus

end EsphomeEbus
