import EsphomeEbus.Content
import EsphomeEbus.Zebus.Port

/-!
# No index outside the buffers

Neither implementation checks the position it writes at.  What keeps it inside is that the state
that takes bytes is left by the byte that fills the announced length, and that a length too large
for the buffer is read as zero.  The length is a cell of the buffer that is being written.

Both telegrams are looked at through what they have in common, their `Buffers`: the state, the two
buffers, and whether an escape pair is open in them.  The component decodes pairs before it pushes.

* `RollingBuffer.InBounds`: the cells that pushes and getters touch are there;
* `Room`, `Full`, `Writes`: a frame takes one more write, or is complete; `Room.write`: one of the
  two is true after a write;
* `Buffers.Step`: all that a symbol does to them; `step_receive` of both implementations;
* `Buffers.Fits`: the invariant; `never_out_of_bounds`: over whole runs.
-/

namespace EsphomeEbus

open Transducer

/-! ### Frames in a buffer -/

namespace RollingBuffer

variable {size : ℕ}

/-- The number of data bytes that the last cell of a header of `h` bytes announces. -/
def announces (h : ℕ) (b : RollingBuffer size) : ℕ := (clipNn (b.get (h - 1))).toNat

/-- The cell that `get_request_crc` and `get_response_crc` read. -/
def crcCell (h : ℕ) (b : RollingBuffer size) : ℕ := h + b.announces h

/-- The cell that `get_request_byte` and `get_response_byte` read, if they read one. -/
def byteCell (h : ℕ) (b : RollingBuffer size) (pos : Byte) : Option ℕ :=
  if clipNn (b.get (h - 1)) < pos ∨ maxDataLength ≤ pos.toNat then none else some (h + pos.toNat)

/-- What these getters return, with `invalid` where they read no cell. -/
def readByte (h : ℕ) (invalid : ℤ) (b : RollingBuffer size) (pos : Byte) : ℤ :=
  (b.byteCell h pos).elim invalid fun i => (b.get i).toNat

theorem readByte_eq (h : ℕ) (invalid : ℤ) (b : RollingBuffer size) (pos : Byte) :
    b.readByte h invalid pos =
      if clipNn (b.get (h - 1)) < pos ∨ maxDataLength ≤ pos.toNat then invalid
      else (b.get (h + pos.toNat)).toNat := by
  unfold readByte byteCell
  split
  · rfl
  · rfl

/-- Every cell that a push or a getter touches is one of the buffer. -/
structure InBounds (h : ℕ) (b : RollingBuffer size) : Prop where
  /-- A push writes at the position. -/
  write : b.pos < size
  crc : b.crcCell h < size
  byte : ∀ pos, ∀ i ∈ b.byteCell h pos, i < size

theorem announces_lt (h : ℕ) (b : RollingBuffer size) : b.announces h < maxDataLength := clipNn_lt _

/-- What the getters read is always there. -/
theorem byteCell_lt {h i : ℕ} {b : RollingBuffer size} {pos : Byte}
    (hsize : h + maxDataLength < size) (hi : i ∈ b.byteCell h pos) : i < size := by
  unfold byteCell at hi
  split at hi
  · cases hi
  · obtain rfl := Option.some.inj hi
    omega

theorem inBounds_of_pos {h : ℕ} {b : RollingBuffer size} (hsize : h + maxDataLength < size)
    (hpos : b.pos < size) : b.InBounds h where
  write := hpos
  crc := by
    have hlt := b.announces_lt h
    show h + b.announces h < size
    omega
  byte _ _ hi := byteCell_lt hsize hi

/-- A frame with a header of `h` bytes takes one more write: the position is at most that of the
checksum, or one further with an escape pair open. -/
def Room (h : ℕ) (b : RollingBuffer size) (pending : Bool) : Prop :=
  b.pos ≤ h + b.announces h + pending.toNat

/-- The frame is complete. -/
def Full (h : ℕ) (b : RollingBuffer size) (pending : Bool) : Prop :=
  b.pos = h + b.announces h + 1 ∧ pending = false

/-- The completeness test of both implementations, in a state that takes bytes. -/
theorem complete_iff_full {h : ℕ} {b : RollingBuffer size} {state : TelegramState} {pending : Bool}
    (hs : state.toInt > TelegramState.waitForSyn.toInt) :
    ((state.toInt > TelegramState.waitForSyn.toInt || state = .endCompleted) && b.pos > h &&
      b.pos = h + b.announces h + 1 && !pending) = true ↔ b.Full h pending := by
  simp only [Bool.and_eq_true, Bool.or_eq_true, decide_eq_true_eq, Bool.not_eq_true']
  constructor
  · intro hc
    exact ⟨hc.1.2, hc.2⟩
  · intro hfull
    have hpos := hfull.1
    exact ⟨⟨⟨.inl hs, by omega⟩, hpos⟩, hfull.2⟩

/-- A push: it writes at the position.  A byte moves the position on; the second byte of an escape
pair leaves it, and closes the pair. -/
structure Writes (b : RollingBuffer size) (pending : Bool) (b' : RollingBuffer size)
    (pending' : Bool) : Prop where
  buffer : ∃ x, b'.buffer = b.buffer.setIfInBounds b.pos x
  pos : pending = false ∧ b'.pos = b.pos + 1 ∨ pending' = false ∧ b'.pos = b.pos

variable {h : ℕ} {b b' : RollingBuffer size} {pending pending' : Bool}

theorem writes_pushBuffer (cr : Byte) (b : RollingBuffer size) (maxPos : ℕ) :
    b.Writes false (pushBuffer cr b maxPos) false :=
  ⟨⟨cr, rfl⟩, .inl ⟨rfl, rfl⟩⟩

theorem writes_zebusPushBuffer (pending : Bool) (cr : Byte) (b : RollingBuffer size) (maxPos : ℕ) :
    b.Writes pending (Zebus.pushBuffer pending cr b maxPos).1
      (Zebus.pushBuffer pending cr b maxPos).2 := by
  cases pending with
  | false => exact ⟨⟨cr, rfl⟩, .inl ⟨rfl, rfl⟩⟩
  | true => exact ⟨⟨_, rfl⟩, .inr ⟨rfl, rfl⟩⟩

/-- Past its header, a write leaves the length of a frame alone. -/
theorem Writes.announces_eq (hw : b.Writes pending b' pending') (hh : 0 < h) (hpos : h ≤ b.pos) :
    b'.announces h = b.announces h := by
  obtain ⟨x, hbuffer⟩ := hw.buffer
  have hne : b.pos ≠ h - 1 := by omega
  unfold announces get
  rw [hbuffer, Vector.toList_setIfInBounds, List.getD_eq_getElem?_getD, List.getElem?_set_ne hne,
    ← List.getD_eq_getElem?_getD]

/-- **A write fills the frame or leaves room.** -/
theorem Room.write (hb : b.Room h pending) (hh : 0 < h) (hw : b.Writes pending b' pending') :
    b'.Room h pending' ∨ b'.Full h pending' := by
  unfold Room Full at *
  rcases Nat.lt_or_ge b.pos h with hlt | hge
  · -- inside the header the length may change, but the position is still no further than the header
    left
    rcases hw.pos with ⟨-, hpos⟩ | ⟨-, hpos⟩ <;> omega
  · rw [hw.announces_eq hh hge]
    rcases hw.pos with ⟨rfl, hpos⟩ | ⟨rfl, hpos⟩
    · rw [Bool.toNat_false] at hb
      cases pending' with
      | false =>
        rcases Nat.lt_or_ge b.pos (h + b.announces h) with hdata | hcrc
        · left
          omega
        · exact .inr ⟨by omega, rfl⟩
      | true =>
        left
        rw [Bool.toNat_true]
        omega
    · have hle := pending.toNat_le
      rcases Nat.lt_or_ge (h + b.announces h) b.pos with hpast | hdata
      · exact .inr ⟨by omega, rfl⟩
      · left
        omega

theorem Room.pos_le (hb : b.Room h pending) : b.pos ≤ h + maxDataLength := by
  have hlt := b.announces_lt h
  have hle := pending.toNat_le
  unfold Room at hb
  omega

theorem Full.pos_le (hb : b.Full h pending) : b.pos ≤ h + maxDataLength := by
  have hlt := b.announces_lt h
  have hpos := hb.1
  omega

end RollingBuffer

/-! ### The buffers of a telegram -/

/-- What a receiving telegram of either implementation keeps. -/
structure Buffers where
  state : TelegramState
  request : RollingBuffer requestBufferSize
  response : RollingBuffer responseBufferSize
  pending : Bool

namespace Buffers

/-- The buffers of a new telegram. -/
def new : Buffers := ⟨.waitForSyn, .fresh [esc, esc], .fresh [], false⟩

/-- Every index that a push or a getter uses is inside its buffer. -/
structure InBounds (m : Buffers) : Prop where
  request : m.request.InBounds offsetData
  response : m.response.InBounds responseOffset
  requestPos : m.request.pos ≤ 21
  responsePos : m.response.pos ≤ 17

/-- Everything that a symbol does to the buffers of a telegram. -/
inductive Step (m : Buffers) : Buffers → Prop
  | rests : Step m m
  | opens : m.state = .waitForSyn → Step m { m with state := .waitForArbitration }
  | first {b : RollingBuffer requestBufferSize} {pending : Bool} :
      m.state = .waitForArbitration → m.request.Writes m.pending b pending →
      Step m { m with state := .waitForRequestData, request := b, pending := pending }
  | request {b : RollingBuffer requestBufferSize} {pending : Bool} :
      m.state = .waitForRequestData → m.request.Writes m.pending b pending →
      ¬ b.Full offsetData pending → Step m { m with request := b, pending := pending }
  | requestEnd {b : RollingBuffer requestBufferSize} {pending : Bool} {newState : TelegramState} :
      m.state = .waitForRequestData → m.request.Writes m.pending b pending →
      b.Full offsetData pending → newState = .waitForRequestAck ∨ newState = .endCompleted →
      Step m { m with state := newState, request := b, pending := pending }
  | acknowledged : m.state = .waitForRequestAck → Step m { m with state := .waitForResponseData }
  | response {b : RollingBuffer responseBufferSize} {pending : Bool} :
      m.state = .waitForResponseData → m.response.Writes m.pending b pending →
      ¬ b.Full responseOffset pending → Step m { m with response := b, pending := pending }
  | responseEnd {b : RollingBuffer responseBufferSize} {pending : Bool} :
      m.state = .waitForResponseData → m.response.Writes m.pending b pending →
      b.Full responseOffset pending →
      Step m { m with state := .waitForResponseAck, response := b, pending := pending }
  | ends {newState : TelegramState} : newState.toInt < 0 → Step m { m with state := newState }

/-- What the state of a telegram says about its buffers. -/
def Fits (m : Buffers) : Prop :=
  m.request.pos ≤ offsetData + maxDataLength ∧ m.response.pos ≤ responseOffset + maxDataLength ∧
    match m.state with
    | .waitForSyn | .waitForArbitration =>
      m.request.pos = 0 ∧ m.response.pos = 0 ∧ m.pending = false
    | .waitForRequestData => m.request.Room offsetData m.pending ∧ m.response.pos = 0
    | .waitForRequestAck => m.response.pos = 0 ∧ m.pending = false
    | .waitForResponseData => m.response.Room responseOffset m.pending
    | _ => True

theorem fits_new : new.Fits := ⟨Nat.zero_le _, Nat.zero_le _, rfl, rfl, rfl⟩

/-- The invariant keeps every index inside. -/
theorem Fits.inBounds {m : Buffers} (hm : m.Fits) : m.InBounds where
  request := RollingBuffer.inBounds_of_pos (by decide) (Nat.lt_succ_of_le hm.1)
  response := RollingBuffer.inBounds_of_pos (by decide) (Nat.lt_succ_of_le hm.2.1)
  requestPos := hm.1
  responsePos := hm.2.1

/-- Nothing has been pushed into a buffer at 0, so there is room. -/
theorem room_of_pos_zero {size h : ℕ} {b : RollingBuffer size} {pending : Bool} (hb : b.pos = 0) :
    b.Room h pending := by
  show b.pos ≤ _
  omega

/-- The end of a telegram asks nothing of its buffers but their bounds. -/
theorem fits_of_end {m : Buffers} (hs : m.state.toInt < 0)
    (hrequest : m.request.pos ≤ offsetData + maxDataLength)
    (hresponse : m.response.pos ≤ responseOffset + maxDataLength) : m.Fits := by
  refine ⟨hrequest, hresponse, ?_⟩
  cases hstate : m.state <;> first | trivial | (rw [hstate] at hs; cases hs)

/-- **One symbol keeps the invariant.** -/
theorem Step.fits {m m' : Buffers} (hstep : Step m m') (hm : m.Fits) : m'.Fits := by
  obtain ⟨state, request, response, pending⟩ := m
  obtain ⟨hrequest, hresponse, hstage⟩ := hm
  cases hstep with
  | rests => exact ⟨hrequest, hresponse, hstage⟩
  | opens hs =>
    obtain rfl : state = .waitForSyn := hs
    exact ⟨hrequest, hresponse, hstage⟩
  | @first b pending hs hw =>
    obtain rfl : state = .waitForArbitration := hs
    obtain ⟨hzero, hempty, hplain⟩ := hstage
    have hroom : b.Room offsetData pending := by
      rcases (room_of_pos_zero hzero).write offsetData_pos hw with hroom | hfull
      · exact hroom
      · -- one byte fills no frame
        have hpos := hfull.1
        have hdata := offsetData_pos
        rcases hw.pos with ⟨-, hnext⟩ | ⟨-, hnext⟩ <;> omega
    exact ⟨hroom.pos_le, hresponse, hroom, hempty⟩
  | @request b pending hs hw hn =>
    obtain rfl : state = .waitForRequestData := hs
    have hroom := (hstage.1.write offsetData_pos hw).resolve_right hn
    exact ⟨hroom.pos_le, hresponse, hroom, hstage.2⟩
  | @requestEnd b pending newState hs hw hfull hnew =>
    obtain rfl : state = .waitForRequestData := hs
    rcases hnew with rfl | rfl
    · exact ⟨hfull.pos_le, hresponse, hstage.2, hfull.2⟩
    · have hend : TelegramState.endCompleted.toInt < 0 := by decide
      exact fits_of_end hend hfull.pos_le hresponse
  | acknowledged hs =>
    obtain rfl : state = .waitForRequestAck := hs
    exact ⟨hrequest, hresponse, room_of_pos_zero hstage.1⟩
  | @response b pending hs hw hn =>
    obtain rfl : state = .waitForResponseData := hs
    have hroom := (RollingBuffer.Room.write hstage responseOffset_pos hw).resolve_right hn
    exact ⟨hrequest, hroom.pos_le, hroom⟩
  | responseEnd hs hw hfull => exact ⟨hrequest, hfull.pos_le, trivial⟩
  | ends hend => exact fits_of_end hend hrequest hresponse

end Buffers

/-! ### The component -/

namespace Telegram

/-- The buffers of a telegram; its escape flag is never set. -/
def buffers (t : Telegram) : Buffers := ⟨t.state, t.request, t.response, t.waitForEscapedChar⟩

/-- The getters read the cells that `crcCell` and `byteCell` name. -/
theorem getters_read (t : Telegram) :
    t.getRequestCrc = t.request.get (t.request.crcCell offsetData) ∧
      t.getResponseCrc = t.response.get (t.response.crcCell responseOffset) ∧
      (∀ pos, t.getRequestByte pos = t.request.readByte offsetData (-1) pos) ∧
      ∀ pos, t.getResponseByte pos =
        t.response.readByte responseOffset invalidResponseByte.toNat pos := by
  refine ⟨rfl, rfl, ?_, ?_⟩
  · intro pos
    rw [RollingBuffer.readByte_eq]
    rfl
  · intro pos
    rw [RollingBuffer.readByte_eq]
    rfl

/-- The switch of the component does no more to the buffers. -/
theorem step_receive {t : Telegram} (ht : t.waitForEscapedChar = false) (raw v : Byte) :
    t.buffers.Step (t.receive raw v).buffers := by
  have hwrites : ∀ {size : ℕ} (b : RollingBuffer size) (maxPos : ℕ),
      b.Writes t.buffers.pending (pushBuffer v b maxPos) t.buffers.pending := by
    intro size b maxPos
    rw [show t.buffers.pending = false from ht]
    exact RollingBuffer.writes_pushBuffer v b maxPos
  have hrequest : t.state = .waitForRequestData →
      ((t.pushReqData v).isRequestComplete = true ↔
        (t.pushReqData v).request.Full offsetData t.waitForEscapedChar) := fun hs =>
    RollingBuffer.complete_iff_full (show t.state.toInt > _ by rw [hs]; decide)
  have hresponse : t.state = .waitForResponseData →
      ((t.pushResponseData v).isResponseComplete = true ↔
        (t.pushResponseData v).response.Full responseOffset t.waitForEscapedChar) := fun hs =>
    RollingBuffer.complete_iff_full (show t.state.toInt > _ by rw [hs]; decide)
  have hreceives := t.receives raw v
  generalize t.receive raw v = t' at hreceives
  cases hreceives with
  | rests => exact .rests
  | opens hs => exact .opens hs
  | first hs => exact .first hs (hwrites _ _)
  | request hs _ hc =>
    exact .request hs (hwrites _ _) (mt (hrequest hs).mpr (Bool.not_eq_true _ ▸ hc))
  | requestEnd hs _ hc hnew =>
    refine .requestEnd hs (hwrites _ _) ((hrequest hs).mp hc) ?_
    rw [hnew]
    cases (t.pushReqData v).isAckExpected with
    | true => exact .inl rfl
    | false => exact .inr rfl
  | acknowledged hs => exact .acknowledged hs
  | response hs _ hc =>
    exact .response hs (hwrites _ _) (mt (hresponse hs).mpr (Bool.not_eq_true _ ▸ hc))
  | responseEnd hs _ hc => exact .responseEnd hs (hwrites _ _) ((hresponse hs).mp hc)
  | ends hends => exact .ends hends.neg

/-- No symbol sets the escape flag of a telegram. -/
theorem receive_waitForEscapedChar (t : Telegram) (raw v : Byte) :
    (t.receive raw v).waitForEscapedChar = t.waitForEscapedChar := by
  have hreceives := t.receives raw v
  generalize t.receive raw v = t' at hreceives
  cases hreceives <;> rfl

/-- The escape flag is not set, and the buffers are as the state says. -/
def Fits (t : Telegram) : Prop := t.waitForEscapedChar = false ∧ t.buffers.Fits

theorem fits_new : new.Fits := ⟨rfl, Buffers.fits_new⟩

theorem Fits.refresh {t : Telegram} (ht : t.Fits) : t.refresh.Fits := by
  unfold Telegram.refresh
  split
  · exact fits_new
  · exact ht

theorem Fits.receive {t : Telegram} (ht : t.Fits) (raw v : Byte) : (t.receive raw v).Fits :=
  ⟨(t.receive_waitForEscapedChar raw v).trans ht.1, (step_receive ht.1 raw v).fits ht.2⟩

end Telegram

namespace Ebus

theorem fits_step (s : Ebus) (call : Call) (hs : s.receivingTelegram.Fits) :
    (s.processReceivedChar call).1.receivingTelegram.Fits := by
  obtain ⟨-, -, h⟩ | ⟨-, -, -, h⟩ | ⟨-, -, h⟩ | ⟨real, -, -, h⟩ := s.processReceivedChar_cases call
  · rw [h]
    exact hs
  · rw [h]
    exact Telegram.fits_new
  · rw [h, processSymbol_receivingTelegram]
    exact hs.refresh.receive _ _
  · rw [h, processSymbol_receivingTelegram]
    exact hs.refresh.receive _ _

theorem fits_after (config : Config) (calls : List Call) :
    ((init config).after calls).receivingTelegram.Fits :=
  Reachable.invariant processReceivedChar fits_step ⟨calls, rfl⟩ Telegram.fits_new

end Ebus

/-! ### The legacy implementation -/

namespace Zebus

namespace Telegram

/-- The buffers of a telegram. -/
def buffers (t : Telegram) : Buffers := ⟨t.state, t.request, t.response, t.waitForEscaped⟩

/-- A finished telegram makes room for a new one. -/
def refresh (t : Telegram) : Telegram := if t.isFinished then .new else t

/-- The getters read the cells that `crcCell` and `byteCell` name. -/
theorem getters_read (t : Telegram) :
    t.getRequestCRC = t.request.get (t.request.crcCell offsetData) ∧
      t.getResponseCRC = t.response.get (t.response.crcCell responseOffset) ∧
      (∀ pos, t.getRequestByte pos = t.request.readByte offsetData (-1) pos) ∧
      ∀ pos, t.getResponseByte pos =
        t.response.readByte responseOffset invalidResponseByte.toNat pos := by
  refine ⟨rfl, rfl, ?_, ?_⟩
  · intro pos
    rw [RollingBuffer.readByte_eq]
    rfl
  · intro pos
    rw [RollingBuffer.readByte_eq]
    rfl

/-- The switch of the legacy driver does no more to the buffers. -/
theorem step_receive (t : Telegram) (b : Byte) : t.buffers.Step (t.receive b).buffers := by
  have hends : ∀ newState : TelegramState, newState.toInt < 0 →
      t.buffers.Step (t.setState newState).buffers := fun _ h => .ends h
  have hwrites : ∀ {size : ℕ} (buffer : RollingBuffer size) (maxPos : ℕ),
      buffer.Writes t.buffers.pending (pushBuffer t.waitForEscaped b buffer maxPos).1
        (pushBuffer t.waitForEscaped b buffer maxPos).2 :=
    RollingBuffer.writes_zebusPushBuffer t.waitForEscaped b
  cases hs : t.state with
  | waitForSyn =>
    simp only [receive, hs]
    split
    · exact .opens hs
    · exact .rests
  | waitForArbitration =>
    simp only [receive, hs]
    split
    · exact .first hs (hwrites _ _)
    · exact .rests
  | waitForRequestData =>
    have hfull : (t.pushReqData b).isRequestComplete = true ↔ _ :=
      RollingBuffer.complete_iff_full (show t.state.toInt > _ by rw [hs]; decide)
    simp only [receive, hs]
    split
    · split
      · exact hends _ (by decide)
      · exact hends _ (by decide)
    · split
      · rename_i hc
        refine .requestEnd hs (hwrites _ _) (hfull.mp hc) ?_
        cases (t.pushReqData b).isAckExpected with
        | true => exact .inl rfl
        | false => exact .inr rfl
      · rename_i hc
        exact .request hs (hwrites _ _) (mt hfull.mpr hc)
  | waitForRequestAck =>
    simp only [receive, hs]
    split
    · cases t.isResponseExpected with
      | true => exact .acknowledged hs
      | false => exact hends _ (by decide)
    · split
      · exact hends _ (by decide)
      · exact hends _ (by decide)
  | waitForResponseData =>
    have hfull : (t.pushRespData b).isResponseComplete = true ↔ _ :=
      RollingBuffer.complete_iff_full (show t.state.toInt > _ by rw [hs]; decide)
    simp only [receive, hs]
    split
    · exact hends _ (by decide)
    · split
      · rename_i hc
        exact .responseEnd hs (hwrites _ _) (hfull.mp hc)
      · rename_i hc
        exact .response hs (hwrites _ _) (mt hfull.mpr hc)
  | waitForResponseAck =>
    simp only [receive, hs]
    split
    · exact hends _ (by decide)
    · split
      · exact hends _ (by decide)
      · exact hends _ (by decide)
  | _ =>
    simp only [receive, hs]
    exact .rests

theorem fits_refresh {t : Telegram} (ht : t.buffers.Fits) : t.refresh.buffers.Fits := by
  unfold refresh
  split
  · exact Buffers.fits_new
  · exact ht

end Telegram

namespace Ebus

/-- A call has its switch work on the telegram it finds, or on a new one. -/
theorem processReceivedChar_receivingTelegram (s : Ebus) (call : Call) :
    (s.processReceivedChar call).1.receivingTelegram =
      s.receivingTelegram.refresh.receive call.receivedByte := by
  rw [processReceivedChar_fst]
  show (((s.countSyn call.receivedByte).queueFinished.1.dequeue
    call.dequeued).1.receivingTelegram.receive call.receivedByte) = _
  rw [dequeue_receivingTelegram, queueFinished, Telegram.refresh, countSyn_receivingTelegram]
  split
  · rfl
  · rw [countSyn_receivingTelegram]

theorem fits_step (s : Ebus) (call : Call) (hs : s.receivingTelegram.buffers.Fits) :
    (s.processReceivedChar call).1.receivingTelegram.buffers.Fits := by
  rw [processReceivedChar_receivingTelegram]
  exact (Telegram.step_receive _ _).fits (Telegram.fits_refresh hs)

theorem fits_run (config : Config) (calls : List Call) :
    (run processReceivedChar (init config) calls).receivingTelegram.buffers.Fits :=
  Reachable.invariant processReceivedChar fits_step ⟨calls, rfl⟩ Buffers.fits_new

end Ebus

end Zebus

/-! ### Whole runs -/

/-- **The receiver never indexes outside its buffers.**  In both implementations, after any calls
with any bytes, the positions and every index that a getter uses are inside the buffers of the
receiving telegram, and of the one that the next call pushes into, which may be new; and so are the
indexes at which the request of the active command is read. -/
theorem never_out_of_bounds :
    (∀ (config : Config) (sofar : List Call),
      let s := (Ebus.init config).after sofar
      s.receivingTelegram.buffers.InBounds ∧ s.receivingTelegram.refresh.buffers.InBounds ∧
        ∀ pos, ∀ i ∈ s.activeCommand.request.byteCell offsetData pos, i < requestBufferSize) ∧
    ∀ (config : Zebus.Config) (sofar : List Zebus.Call),
      let s := run Zebus.Ebus.processReceivedChar (Zebus.Ebus.init config) sofar
      s.receivingTelegram.buffers.InBounds ∧ s.receivingTelegram.refresh.buffers.InBounds ∧
        ∀ pos, ∀ i ∈ s.activeCommand.request.byteCell offsetData pos, i < requestBufferSize := by
  have hbyte : ∀ (b : RollingBuffer requestBufferSize) (pos : Byte),
      ∀ i ∈ b.byteCell offsetData pos, i < requestBufferSize :=
    fun b pos i hi => RollingBuffer.byteCell_lt (by decide) hi
  constructor
  · intro config sofar s
    have hfits : s.receivingTelegram.Fits := Ebus.fits_after config sofar
    exact ⟨hfits.2.inBounds, hfits.refresh.2.inBounds, hbyte _⟩
  · intro config sofar s
    have hfits : s.receivingTelegram.buffers.Fits := Zebus.Ebus.fits_run config sofar
    exact ⟨hfits.inBounds, (Zebus.Telegram.fits_refresh hfits).inBounds, hbyte _⟩

end EsphomeEbus
