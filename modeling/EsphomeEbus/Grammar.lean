import EsphomeEbus.Reception

/-!
# The requests the parser takes

The end of a request, the range of its checksum and the place of the checksum byte all come from
one length, and `get_nn` replaces that length by 0 when it is 16 or more.  So the parser takes the
frames whose data is as long as the replaced length says, which are those of the grammar but for two
kinds.

* `frame`, `IsRequest`: the grammar; `isRequest_frame_iff`, `taken_frame_iff`: which frames are in
  it, and which the receiving telegram takes;
* `Misread`: the two kinds on which they differ;
* `Open.takes_iff`: what an open receiver takes, `Past.hear`: what any other does;
* `request_grammar_iff`: the same for a driver that hears a SYN and data after it.
-/

namespace EsphomeEbus

open Elf Transducer Stuffing

/-! ### The grammar -/

/-- QQ ZZ PB SB NN, some data bytes, and the checksum of it all. -/
def frame (qq zz pb sb nn : Byte) (data : List Byte) : List Byte :=
  [qq, zz, pb, sb, nn] ++ data ++
    [crc8Array ([qq, zz, pb, sb, nn] ++ data) (offsetData + data.length)]

/-- A request: a frame with as many data bytes as NN says, and no more than `MAX_DATA_LENGTH`. -/
inductive IsRequest : List Byte → Prop
  | frame {qq zz pb sb nn : Byte} {data : List Byte} :
      data.length = nn.toNat → nn.toNat ≤ maxDataLength → IsRequest (frame qq zz pb sb nn data)

/-- The frames whose length is misread: those without data whose NN is `MAX_DATA_LENGTH` or more,
and those with `MAX_DATA_LENGTH` data bytes and NN saying so. -/
inductive Misread : List Byte → Prop
  | empty {qq zz pb sb nn : Byte} : maxDataLength ≤ nn.toNat → Misread (frame qq zz pb sb nn [])
  | longest {qq zz pb sb nn : Byte} {data : List Byte} :
      nn.toNat = maxDataLength → data.length = maxDataLength → Misread (frame qq zz pb sb nn data)

/-- What the completeness and the checksum test of the source make of the symbols so far. -/
def Taken (l : List Byte) : Prop := Complete offsetData l ∧ Checked offsetData l

variable {qq zz pb sb nn : Byte} {data l : List Byte}

theorem crc8Array_eq (l : List Byte) {n : ℕ} (hn : l.length = n) :
    crc8Array l n = crc8From 0 l := by
  rw [crc8Array, List.take_of_length_le (Nat.le_of_eq hn)]

theorem frame_eq_withCrc (qq zz pb sb nn : Byte) (data : List Byte) :
    frame qq zz pb sb nn data = withCrc ([qq, zz, pb, sb, nn] ++ data) := by
  have hlen : ([qq, zz, pb, sb, nn] ++ data).length = offsetData + data.length := by
    rw [List.length_append]
    rfl
  rw [frame, crc8Array_eq _ hlen]
  rfl

/-- A frame can be read in one way only. -/
theorem frame_inj {qq' zz' pb' sb' nn' : Byte} {data' : List Byte}
    (h : frame qq zz pb sb nn data = frame qq' zz' pb' sb' nn' data') :
    nn = nn' ∧ data = data' := by
  rw [frame_eq_withCrc, frame_eq_withCrc, withCrc, withCrc] at h
  have hbody := (List.append_inj' h (by rw [List.length_singleton, List.length_singleton])).1
  simp only [List.cons_append, List.nil_append, List.cons.injEq] at hbody
  exact ⟨hbody.2.2.2.2.1, hbody.2.2.2.2.2⟩

theorem isRequest_frame_iff : IsRequest (frame qq zz pb sb nn data) ↔
    data.length = nn.toNat ∧ nn.toNat ≤ maxDataLength := by
  constructor
  · intro h
    generalize hl : frame qq zz pb sb nn data = l at h
    cases h with
    | frame hlen hmax =>
      obtain ⟨rfl, rfl⟩ := frame_inj hl
      exact ⟨hlen, hmax⟩
  · intro h
    exact .frame h.1 h.2

theorem misread_frame_iff : Misread (frame qq zz pb sb nn data) ↔
    (maxDataLength ≤ nn.toNat ∧ data = []) ∨
      (nn.toNat = maxDataLength ∧ data.length = maxDataLength) := by
  constructor
  · intro h
    generalize hl : frame qq zz pb sb nn data = l at h
    cases h with
    | empty hnn =>
      obtain ⟨rfl, rfl⟩ := frame_inj hl
      exact .inl ⟨hnn, rfl⟩
    | longest hnn hlen =>
      obtain ⟨rfl, rfl⟩ := frame_inj hl
      exact .inr ⟨hnn, hlen⟩
  · rintro (⟨hnn, rfl⟩ | ⟨hnn, hlen⟩)
    · exact .empty hnn
    · exact .longest hnn hlen

/-- A frame is taken if it has as many data bytes as `get_nn` returns. -/
theorem taken_frame_iff : Taken (frame qq zz pb sb nn data) ↔
    data.length = (clipNn nn).toNat := by
  have hannounced : announced offsetData (frame qq zz pb sb nn data) = (clipNn nn).toNat := rfl
  have hlength : (frame qq zz pb sb nn data).length = offsetData + data.length + 1 := by
    rw [frame_eq_withCrc, withCrc, List.length_append, List.length_append]
    rfl
  have hcomplete : Complete offsetData (frame qq zz pb sb nn data) ↔
      data.length = (clipNn nn).toNat := by
    rw [Complete, hannounced, hlength]
    omega
  constructor
  · intro h
    exact hcomplete.mp h.1
  · intro h
    have hc := hcomplete.mpr h
    have hchecked : Checked offsetData (frame qq zz pb sb nn data) := by
      rw [frame_eq_withCrc] at hc ⊢
      exact checked_withCrc hc
    exact ⟨hc, hchecked⟩

/-- A list that has a header starts with one. -/
theorem exists_header (h : 5 ≤ l.length) :
    ∃ qq zz pb sb nn rest, l = [qq, zz, pb, sb, nn] ++ rest := by
  match l, h with
  | qq :: zz :: pb :: sb :: nn :: rest, _ => exact ⟨qq, zz, pb, sb, nn, rest, rfl⟩

/-- Nothing but a frame is taken. -/
theorem exists_frame_of_taken (h : Taken l) :
    ∃ qq zz pb sb nn data, l = frame qq zz pb sb nn data := by
  obtain ⟨hc, hchecked⟩ := h
  have hlen : l.length = 5 + announced offsetData l + 1 := hc
  obtain ⟨qq, zz, pb, sb, nn, rest, rfl⟩ := exists_header (l := l) (by omega)
  rcases List.eq_nil_or_concat' rest with rfl | ⟨data, crc, rfl⟩
  · rw [List.append_nil] at hlen
    have hfive : 5 = 5 + announced offsetData [qq, zz, pb, sb, nn] + 1 := hlen
    exfalso
    omega
  · rw [← List.append_assoc] at hc hchecked ⊢
    refine ⟨qq, zz, pb, sb, nn, data, ?_⟩
    rw [frame_eq_withCrc, withCrc, (checked_concat_iff hc).mp hchecked]

/-- **What is taken is what the grammar says, but for the frames whose length is misread.** -/
theorem taken_iff_isRequest_iff (l : List Byte) : (Taken l ↔ IsRequest l) ↔ ¬ Misread l := by
  rcases Classical.em (∃ qq zz pb sb nn data, l = frame qq zz pb sb nn data) with hframe | hframe
  · obtain ⟨qq, zz, pb, sb, nn, data, rfl⟩ := hframe
    rw [taken_frame_iff, isRequest_frame_iff, misread_frame_iff, ← List.length_eq_zero_iff]
    rcases Nat.lt_or_ge nn.toNat maxDataLength with hnn | hnn
    · rw [clipNn, if_neg (Nat.not_le.mpr hnn)]
      omega
    · rw [clipNn, if_pos hnn]
      show (data.length = 0 ↔ _) ↔ _
      unfold maxDataLength at *
      omega
  · have htaken : ¬ Taken l := mt exists_frame_of_taken hframe
    have hrequest : ¬ IsRequest l := by
      rintro ⟨⟩
      exact hframe ⟨_, _, _, _, _, _, rfl⟩
    have hmisread : ¬ Misread l := by
      rintro (_ | _)
      · exact hframe ⟨_, _, _, _, _, _, rfl⟩
      · exact hframe ⟨_, _, _, _, _, _, rfl⟩
    exact iff_of_true (iff_of_false htaken hrequest) hmisread

/-! ### The receiver on a stretch of data -/

/-- A telegram that takes no request byte until the next SYN. -/
def Past (t : Telegram) : Prop :=
  t.state ≠ .waitForArbitration ∧ t.state ≠ .waitForRequestData

theorem past_setState (t : Telegram) {newState : TelegramState}
    (h₁ : newState ≠ .waitForArbitration) (h₂ : newState ≠ .waitForRequestData) :
    Past (t.setState newState) := ⟨h₁, h₂⟩

theorem past_new : Past .new := ⟨by decide, by decide⟩

theorem Past.refresh {t : Telegram} (h : Past t) : Past t.refresh := by
  unfold Telegram.refresh
  split
  · exact past_new
  · exact h

theorem Past.receive {t : Telegram} (h : Past t) {raw : Byte} (hraw : raw ≠ syn) (v : Byte) :
    Past (t.receive raw v) := by
  have hreceives := t.receives raw v
  generalize t.receive raw v = t' at hreceives
  cases hreceives with
  | rests => exact h
  | opens _ hsyn => exact absurd hsyn hraw
  | first hs => exact absurd hs h.1
  | request hs => exact absurd hs h.2
  | requestEnd hs => exact absurd hs h.2
  | acknowledged => exact past_setState _ (by decide) (by decide)
  | response => exact h
  | responseEnd => exact past_setState _ (by decide) (by decide)
  | @ends newState hends =>
    have hneg := hends.neg
    refine past_setState _ ?_ ?_
    · rintro rfl
      cases hneg
    · rintro rfl
      cases hneg

variable (queues : Bool) {t : Telegram}

/-- No data brings such a telegram back. -/
theorem Past.hears (h : Past t) (vs : List Byte) :
    Past (run (hear queues) t (vs.map wire.symbolOf)) := by
  induction vs generalizing t with
  | nil => exact h
  | cons v vs ih =>
    rw [List.map_cons, run_cons, hear_symbolOf]
    exact ih (h.refresh.receive (raw_symbolOf_ne_syn v) v)

/-- What an open receiver has made of the data `l`: a request that still grows, or one that is done
with. -/
theorem Open.stage (ho : Open t) (l : List Byte) :
    (l = [] ∧ run (hear queues) t (l.map wire.symbolOf) = t) ∨
      (Growing offsetData l ∧
        (run (hear queues) t (l.map wire.symbolOf)).state = .waitForRequestData ∧
        (run (hear queues) t (l.map wire.symbolOf)).Holds l []) ∨
      (¬ Growing offsetData l ∧ Past (run (hear queues) t (l.map wire.symbolOf))) := by
  induction l using List.reverseRecOn with
  | nil => exact .inl ⟨rfl, rfl⟩
  | append_singleton l v ih =>
    right
    rw [List.map_append, List.map_singleton, run_concat]
    rcases ih with ⟨rfl, hrun⟩ | ⟨hg, hs, ht⟩ | ⟨hg, hpast⟩
    · -- the first byte after the SYN
      left
      obtain ⟨t', ⟨hrun', -⟩, hs', ht'⟩ := ho.becomes_first queues v
      have hfirst : (hear queues t (wire.symbolOf v)).1 = t' := hrun'
      have hg : Growing offsetData [v] := by
        show 1 < 5 + announced offsetData [v] + 1
        omega
      rw [hrun, hfirst]
      exact ⟨hg, hs', ht'⟩
    · have hf := TelegramBase.isFinished_of_state hs (by decide)
      rw [hear_symbolOf_of_unfinished queues hf]
      rcases growing_concat offsetData_pos hg v with hg' | hc
      · left
        rw [ht.receive_request hs (raw_symbolOf_ne_syn v) hg hg']
        exact ⟨hg', hs, ht.pushReqData hg v⟩
      · right
        rw [ht.receive_requestEnd hs (raw_symbolOf_ne_syn v) hg hc]
        refine ⟨fun hg' => not_complete_of_growing hg' hc, ?_⟩
        split
        · exact past_setState _ (by decide) (by decide)
        · exact past_setState _ (by decide) (by decide)
    · right
      rw [hear_symbolOf]
      refine ⟨fun hg' => hg (hg'.of_append offsetData_pos), ?_⟩
      exact hpast.refresh.receive (raw_symbolOf_ne_syn v) v

/-- The symbol `v` after the data `l` makes a telegram leave `waitForRequestData` with a valid
request. -/
def Takes (t : Telegram) (l : List Byte) (v : Byte) : Prop :=
  (run (hear queues) t (l.map wire.symbolOf)).state = .waitForRequestData ∧
    (run (hear queues) t ((l ++ [v]).map wire.symbolOf)).state ≠ .waitForRequestData ∧
    (run (hear queues) t ((l ++ [v]).map wire.symbolOf)).isRequestValid = true

/-- The two states a request ends in. -/
theorem Telegram.Holds.ends_valid_iff {t : Telegram} {rq rs : List Byte} (ht : t.Holds rq rs)
    {newState : TelegramState} (hnew : newState = .waitForRequestAck ∨ newState = .endCompleted) :
    (t.setState newState).state ≠ .waitForRequestData ∧
      (t.setState newState).isRequestValid = true ↔ Taken rq := by
  have hne : (t.setState newState).state ≠ .waitForRequestData := by
    show newState ≠ .waitForRequestData
    rcases hnew with rfl | rfl
    · decide
    · decide
  have hu : (t.setState newState).Underway := by
    rcases hnew with rfl | rfl
    · exact .inl (show TelegramState.waitForRequestAck.toInt > _ by decide)
    · exact .inr rfl
  rw [and_iff_right hne]
  exact (ht.setState newState).isRequestValid_iff hu

/-- A telegram that is past its request takes none. -/
theorem Past.not_takes (h : Past t) (l : List Byte) (v : Byte) : ¬ Takes queues t l v :=
  fun htakes => (h.hears queues l).2 htakes.1

/-- **An open receiver takes the frames whose data is as long as `get_nn` says.** -/
theorem Open.takes_iff (ho : Open t) (l : List Byte) (v : Byte) :
    Takes queues t l v ↔ Taken (l ++ [v]) := by
  have hnext : run (hear queues) t ((l ++ [v]).map wire.symbolOf) =
      (hear queues (run (hear queues) t (l.map wire.symbolOf)) (wire.symbolOf v)).1 := by
    rw [List.map_append, List.map_singleton, run_concat]
  rw [Takes, hnext]
  rcases ho.stage queues l with ⟨rfl, hrun⟩ | ⟨hg, hs, ht⟩ | ⟨hg, hpast⟩
  · have hne : TelegramState.waitForArbitration ≠ .waitForRequestData := by decide
    rw [hrun, ho.state_eq]
    refine iff_of_false (fun h => hne h.1) fun h => ?_
    have hone : 1 = 5 + announced offsetData [v] + 1 := h.1
    omega
  · have hf := TelegramBase.isFinished_of_state hs (by decide)
    rw [hear_symbolOf_of_unfinished queues hf]
    rcases growing_concat offsetData_pos hg v with hg' | hc
    · rw [ht.receive_request hs (raw_symbolOf_ne_syn v) hg hg']
      exact iff_of_false (fun h => h.2.1 hs) fun h => not_complete_of_growing hg' h.1
    · rw [ht.receive_requestEnd hs (raw_symbolOf_ne_syn v) hg hc]
      rw [and_iff_right hs]
      apply (ht.pushReqData hg v).ends_valid_iff
      split
      · exact .inl rfl
      · exact .inr rfl
  · exact iff_of_false (fun h => hpast.2 h.1) fun h =>
      hg (growing_of_complete_concat offsetData_pos h.1)

/-! ### The driver -/

namespace Ebus

variable (s : Ebus)

/-- The bytes of `last`, after those of `before`, make the receiving telegram leave
`waitForRequestData` with a valid request. -/
def TakesRequest (before last : List Call) : Prop :=
  (s.after before).receivingTelegram.state = .waitForRequestData ∧
    (s.after (before ++ last)).receivingTelegram.state ≠ .waitForRequestData ∧
    (s.after (before ++ last)).receivingTelegram.isRequestValid = true

/-- The next SYN opens the receiver: it ends no escape pair, and no telegram is under way. -/
def SynOpens : Prop := s.inEsc = false ∧ Idle s.receivingTelegram

instance : Decidable s.SynOpens :=
  inferInstanceAs (Decidable (s.inEsc = false ∧ Idle s.receivingTelegram))

variable {s}

theorem takesRequest_iff (hesc : s.inEsc = false) {before last : List Call} {l : List Byte}
    {v : Byte} (hbefore : bytesOf before = wire.encodeAll l)
    (hlast : bytesOf last = wire.encode v) :
    s.TakesRequest before last ↔
      Takes s.config.queueReceivedTelegram s.receivingTelegram l v := by
  have hboth : bytesOf (before ++ last) = wire.encodeAll (l ++ [v]) := by
    rw [bytesOf, List.map_append, wire.encodeAll_append, ← hbefore, encodeAll_cons, encodeAll_nil,
      List.append_nil, ← hlast]
    rfl
  rw [TakesRequest, Takes, after_receivingTelegram, after_receivingTelegram, hesc, hbefore, hboth,
    wire.symbols_encodeAll, wire.symbols_encodeAll]

/-- A SYN leaves the receiver open, or past any request. -/
theorem open_or_past_after_syn {config : Config} (hs : Reachable config s) {first : Call}
    (hsyn : first.receivedByte = syn) :
    (s.after [first]).inEsc = false ∧
      if s.SynOpens then Open (s.after [first]).receivingTelegram
      else Past (s.after [first]).receivingTelegram := by
  obtain ⟨ss, hheard⟩ := hs.heard
  have hbytes : bytesOf [first] = [syn] := by rw [bytesOf, List.map_singleton, hsyn]
  rw [after_receivingTelegram, after_inEsc, hbytes]
  cases hesc : s.inEsc with
  | true =>
    refine ⟨rfl, ?_⟩
    rw [if_neg fun h => absurd (hesc.symm.trans h.1) (by decide)]
    exact past_new
  | false =>
    refine ⟨rfl, ?_⟩
    show if s.SynOpens then Open (hear _ s.receivingTelegram (.plain syn)).1 else
      Past (hear _ s.receivingTelegram (.plain syn)).1
    obtain ⟨hidle, ho⟩ | ⟨hidle, hf, -⟩ := hear_syn s.config.queueReceivedTelegram hheard
    · rw [if_pos ⟨hesc, hidle⟩]
      exact ho
    · rw [if_neg fun h => hidle h.2]
      constructor
      · intro h
        rw [TelegramBase.isFinished_of_state h (by decide)] at hf
        cases hf
      · intro h
        rw [TelegramBase.isFinished_of_state h (by decide)] at hf
        cases hf

/-- **The request parser against the grammar.**  In every run, after every SYN and for all data that
follows it: the symbol `v` makes the receiving telegram leave `waitForRequestData` with a valid
request exactly when the data up to it is a request of the grammar, if and only if the SYN opened
the receiver and the data is not a frame whose length is misread, or it did not and the data is no
request. -/
theorem request_grammar_iff (config : Config) (sofar : List Call) {first : Call}
    {before last : List Call} {l : List Byte} {v : Byte} (hsyn : first.receivedByte = syn)
    (hbefore : bytesOf before = wire.encodeAll l) (hlast : bytesOf last = wire.encode v) :
    let s := (init config).after sofar
    ((s.after [first]).TakesRequest before last ↔ IsRequest (l ++ [v])) ↔
      if s.SynOpens then ¬ Misread (l ++ [v]) else ¬ IsRequest (l ++ [v]) := by
  intro s
  obtain ⟨hesc, hstage⟩ := open_or_past_after_syn (reachable_after config sofar) hsyn
  rw [takesRequest_iff hesc hbefore hlast]
  by_cases hopens : s.SynOpens
  · rw [if_pos hopens] at hstage ⊢
    rw [hstage.takes_iff]
    exact taken_iff_isRequest_iff (l ++ [v])
  · rw [if_neg hopens] at hstage ⊢
    have hnot := hstage.not_takes (s.after [first]).config.queueReceivedTelegram l v
    rw [iff_false_left hnot]

/-- A request with one data byte, which is a SYN and comes as an escape pair. -/
theorem request_grammar_iff_escaped :
    let s := (init (defaultConfig 0x30#8)).after []
    ((s.after [⟨syn, none, []⟩]).TakesRequest
        (quiet [0x10#8, 0x08#8, 0x07#8, 0x04#8, 0x01#8, 0xA9#8, 0x01#8]) (quiet [0xF4#8]) ↔
      IsRequest ([0x10#8, 0x08#8, 0x07#8, 0x04#8, 0x01#8, 0xAA#8] ++ [0xF4#8])) ↔
      if s.SynOpens then ¬ Misread ([0x10#8, 0x08#8, 0x07#8, 0x04#8, 0x01#8, 0xAA#8] ++ [0xF4#8])
      else ¬ IsRequest ([0x10#8, 0x08#8, 0x07#8, 0x04#8, 0x01#8, 0xAA#8] ++ [0xF4#8]) :=
  request_grammar_iff (defaultConfig 0x30#8) [] rfl (by decide +kernel) (by decide +kernel)

/-- After a SYN, the node 0x10 takes and answers a request to it that announces 32 data bytes and
has none; and it does not take one that announces 16 and has them. -/
theorem length_misread :
    let s := ((init (defaultConfig 0x10#8)).after []).after [⟨syn, none, []⟩]
    let header : List Byte := [0x30#8, 0x15#8, 0x07#8, 0x04#8, 0x20#8]
    let longest : List Byte := [0x30#8, 0x15#8, 0x07#8, 0x04#8, 0x10#8] ++ List.replicate 16 0x00#8
    (s.TakesRequest (quiet header) (quiet [0x24#8]) ∧ ¬ IsRequest (header ++ [0x24#8]) ∧
      ((s.after (quiet header)).processReceivedChar ⟨0x24#8, none, [fun _ => [0x12#8]]⟩).2.answer =
        [ack, 0x01#8, 0x12#8, 0x89#8]) ∧
    ¬ s.TakesRequest (quiet longest) (quiet [0x28#8]) ∧ IsRequest (longest ++ [0x28#8]) := by
  intro s header longest
  have hoversized : header ++ [0x24#8] = frame 0x30#8 0x15#8 0x07#8 0x04#8 0x20#8 [] := by
    decide +kernel
  have hlongest : longest ++ [0x28#8] =
      frame 0x30#8 0x15#8 0x07#8 0x04#8 0x10#8 (List.replicate 16 0x00#8) := by
    decide +kernel
  have htaken : s.TakesRequest (quiet header) (quiet [0x24#8]) := by
    unfold TakesRequest
    decide +kernel
  have hanswer : ((s.after (quiet header)).processReceivedChar
      ⟨0x24#8, none, [fun _ => [0x12#8]]⟩).2.answer = [ack, 0x01#8, 0x12#8, 0x89#8] := by
    decide +kernel
  have hmissed : ¬ s.TakesRequest (quiet longest) (quiet [0x28#8]) := by
    unfold TakesRequest
    decide +kernel
  rw [hoversized, hlongest, isRequest_frame_iff, isRequest_frame_iff]
  exact ⟨⟨htaken, by decide, hanswer⟩, hmissed, by decide⟩

end Ebus

end EsphomeEbus
