import EsphomeEbus.Zebus.Ebus
import EsphomeEbus.Message

/-!
# The component is a port of the legacy driver

On a byte stream without ESC the two drivers are in lockstep.  `port` reads a legacy state as one of
the component: it drops `waitForEscaped`, which no such stream sets in the receiving telegram.  The
active command may have it set, when its checksum is ESC, and nothing asks for it there.

* `TelegramBase.port_…`, `Telegram.port_…`: getters, predicates and pushes agree;
* `Ebus.port_…`: so do the parts of a call;
* `lockstep`: one call of both drivers;
* `faithful_port`: any number of them.
-/

namespace EsphomeEbus.Zebus

open Transducer

/-! ### Telegrams -/

def TelegramType.port : TelegramType → EsphomeEbus.TelegramType
  | unknown => .unknown
  | broadcast => .broadcast
  | masterMaster => .primaryPrimary
  | masterSlave => .primarySecondary

namespace TelegramBase

/-- A legacy telegram as one of the component. -/
def port (t : TelegramBase) : EsphomeEbus.TelegramBase := { state := t.state, request := t.request }

variable (t : TelegramBase)

theorem port_getType : t.port.getType = t.getType.port := by
  have hmaster : EsphomeEbus.Elf.isPrimary t.port.getZz = Elf.isMaster t.getZZ := rfl
  unfold getType EsphomeEbus.TelegramBase.getType
  rw [hmaster, show t.port.getZz = t.getZZ from rfl]
  split
  · rfl
  · split
    · rfl
    · split <;> rfl

theorem port_isAckExpected : t.port.isAckExpected = t.isAckExpected := by
  rw [EsphomeEbus.TelegramBase.isAckExpected, port_getType, isAckExpected]
  cases t.getType <;> rfl

theorem port_isResponseExpected : t.port.isResponseExpected = t.isResponseExpected := by
  rw [EsphomeEbus.TelegramBase.isResponseExpected, port_getType, isResponseExpected]
  cases t.getType <;> rfl

/-- With no escape pair open, a push is that of the component, and only an ESC opens a pair. -/
theorem pushReqData_of_plain {t : TelegramBase} (ht : t.waitForEscaped = false) (cr : Byte) :
    (t.pushReqData cr).port = t.port.pushReqData cr ∧
      (t.pushReqData cr).waitForEscaped = decide (cr = esc) := by
  rw [pushReqData, ht]
  exact ⟨rfl, rfl⟩

/-- A list of pushes without ESC. -/
theorem foldl_pushReqData_of_plain {l : List Byte} (hl : ∀ b ∈ l, b ≠ esc) {t : TelegramBase}
    (ht : t.waitForEscaped = false) :
    (l.foldl pushReqData t).port = l.foldl EsphomeEbus.TelegramBase.pushReqData t.port ∧
      (l.foldl pushReqData t).waitForEscaped = false := by
  induction l generalizing t with
  | nil => exact ⟨rfl, ht⟩
  | cons b l ih =>
    obtain ⟨hport, hplain⟩ := pushReqData_of_plain ht b
    rw [decide_eq_false (hl b (by simp))] at hplain
    have hrest := ih (fun c hc => hl c (by simp [hc])) hplain
    rw [hport] at hrest
    exact hrest

end TelegramBase

namespace Telegram

/-- A legacy telegram as one of the component. -/
def port (t : Telegram) : EsphomeEbus.Telegram :=
  { toTelegramBase := t.toTelegramBase.port, response := t.response }

/-- No escape pair is open. -/
def Plain (t : Telegram) : Prop := t.waitForEscaped = false

variable {t : Telegram}

theorem plain_new : new.Plain := rfl

theorem Plain.setState (ht : t.Plain) (newState : TelegramState) : (t.setState newState).Plain := ht

theorem port_setState (newState : TelegramState) :
    (t.setState newState).port = t.port.setState newState := rfl

theorem Plain.pushReqData (ht : t.Plain) {cr : Byte} (hcr : cr ≠ esc) :
    (t.pushReqData cr).Plain ∧ (t.pushReqData cr).port = t.port.pushReqData cr := by
  obtain ⟨hport, hplain⟩ := TelegramBase.pushReqData_of_plain ht cr
  constructor
  · exact hplain.trans (decide_eq_false hcr)
  · unfold port Telegram.pushReqData EsphomeEbus.Telegram.pushReqData
    rw [hport]

theorem Plain.pushRespData (ht : t.Plain) {cr : Byte} (hcr : cr ≠ esc) :
    (t.pushRespData cr).Plain ∧ (t.pushRespData cr).port = t.port.pushResponseData cr := by
  unfold Plain at *
  rw [Telegram.pushRespData, ht]
  exact ⟨decide_eq_false hcr, rfl⟩

theorem Plain.isRequestComplete (ht : t.Plain) :
    t.isRequestComplete = t.port.isRequestComplete := by
  unfold Plain at ht
  rw [Telegram.isRequestComplete, ht]
  rfl

theorem Plain.isResponseComplete (ht : t.Plain) :
    t.isResponseComplete = t.port.isResponseComplete := by
  unfold Plain at ht
  rw [Telegram.isResponseComplete, ht]
  rfl

theorem Plain.isRequestValid (ht : t.Plain) : t.isRequestValid = t.port.isRequestValid := by
  rw [Telegram.isRequestValid, ht.isRequestComplete]
  rfl

theorem Plain.isResponseValid (ht : t.Plain) : t.isResponseValid = t.port.isResponseValid := by
  rw [Telegram.isResponseValid, ht.isResponseComplete]
  rfl

/-- The switch over the receiving telegram. -/
theorem Plain.receive (ht : t.Plain) {b : Byte} (hb : b ≠ esc) :
    (t.receive b).Plain ∧ (t.receive b).port = t.port.receive b b := by
  have hstate : t.port.state = t.state := rfl
  unfold Telegram.receive EsphomeEbus.Telegram.receive
  rw [hstate]
  cases hs : t.state with
  | waitForSyn =>
    dsimp only
    split
    · exact ⟨ht, rfl⟩
    · exact ⟨ht, rfl⟩
  | waitForArbitration =>
    obtain ⟨hplain, hport⟩ := ht.pushReqData hb
    dsimp only
    split
    · exact ⟨hplain, by rw [port_setState, hport]⟩
    · exact ⟨ht, rfl⟩
  | waitForRequestData =>
    obtain ⟨hplain, hport⟩ := ht.pushReqData hb
    have hack : (t.port.pushReqData b).isAckExpected = (t.pushReqData b).isAckExpected := by
      rw [← hport]
      exact TelegramBase.port_isAckExpected _
    have hzz : t.port.getZz = t.getZZ := rfl
    dsimp only
    rw [hplain.isRequestComplete, hport, hack, hzz]
    split
    · split
      · exact ⟨ht, rfl⟩
      · exact ⟨ht, rfl⟩
    · split
      · exact ⟨hplain, by rw [port_setState, hport]⟩
      · exact ⟨hplain, hport⟩
  | waitForRequestAck =>
    have hresponse : t.port.isResponseExpected = t.isResponseExpected :=
      TelegramBase.port_isResponseExpected _
    dsimp only
    rw [hresponse]
    split
    · exact ⟨ht, rfl⟩
    · split
      · exact ⟨ht, rfl⟩
      · exact ⟨ht, rfl⟩
  | waitForResponseData =>
    obtain ⟨hplain, hport⟩ := ht.pushRespData hb
    dsimp only
    rw [hplain.isResponseComplete, hport]
    split
    · exact ⟨ht, rfl⟩
    · split
      · exact ⟨hplain, by rw [port_setState, hport]⟩
      · exact ⟨hplain, hport⟩
  | waitForResponseAck =>
    dsimp only
    split
    · exact ⟨ht, rfl⟩
    · split
      · exact ⟨ht, rfl⟩
      · exact ⟨ht, rfl⟩
  | _ => exact ⟨ht, rfl⟩

end Telegram

namespace SendCommand

/-- A legacy command as one of the component. -/
def port (c : SendCommand) : EsphomeEbus.SendCommand :=
  { toTelegramBase := c.toTelegramBase.port, triesCount := c.numTries }

variable (c : SendCommand)

theorem port_isAckExpected : c.port.isAckExpected = c.isAckExpected :=
  TelegramBase.port_isAckExpected _

/-- The loop of the constructor pushes the data in order. -/
theorem foldl_range_eq {data : List Byte} {n : ℕ} (hn : data.length = n) (t : TelegramBase) :
    (List.range n).foldl (fun t i => t.pushReqData (data.getD i 0)) t =
      data.foldl TelegramBase.pushReqData t := by
  have hdata := map_range_eq (f := fun i => data.getD i 0) hn fun _ _ => rfl
  rw [← List.foldl_map (f := fun i => data.getD i 0) (g := TelegramBase.pushReqData), hdata]

/-- The request of a new command, before its CRC is pushed. -/
def unsealed (qq zz pb sb nn : Byte) (data : List Byte) : TelegramBase :=
  ([qq, zz, pb, sb, nn] ++ data).foldl TelegramBase.pushReqData { state := .waitForSend }

theorem new_eq {qq zz pb sb nn : Byte} {data : List Byte} (hnn : data.length = nn.toNat) :
    (new qq zz pb sb nn data).toTelegramBase =
      (unsealed qq zz pb sb nn data).pushReqData (unsealed qq zz pb sb nn data).request.crc := by
  simp only [new, unsealed, foldl_range_eq hnn, List.cons_append, List.nil_append,
    List.foldl_cons]

/-- PB and SB as the 16 bit command word of the component. -/
def commandWord (pb sb : Byte) : BitVec 16 := pb.setWidth 16 <<< 8 ||| sb.setWidth 16

theorem commandWord_high (pb sb : Byte) : (commandWord pb sb >>> 8).setWidth 8 = pb := by
  unfold commandWord
  ext i hi
  simp
  grind

theorem commandWord_low (pb sb : Byte) : (commandWord pb sb).setWidth 8 = sb := by
  unfold commandWord
  ext i hi
  simp

/-- **The two constructors build the same command.**  The last push is that of the checksum, which
may be an ESC. -/
theorem port_new {qq zz pb sb : Byte} {data : List Byte} (hlen : data.length ≤ maxDataLength)
    (hplain : ∀ b ∈ qq :: zz :: pb :: sb :: data, b ≠ esc) :
    (new qq zz pb sb (BitVec.ofNat 8 data.length) data).port =
      .new qq zz (commandWord pb sb) data := by
  have hnn : data.length = (BitVec.ofNat 8 data.length).toNat :=
    (toNat_byte (Nat.lt_of_le_of_lt hlen (by decide))).symm
  have hnnesc : BitVec.ofNat 8 data.length ≠ esc := by
    intro h
    rw [h] at hnn
    rw [hnn] at hlen
    exact absurd hlen (by decide)
  have hbytes : requestBytes qq zz (commandWord pb sb) data =
      [qq, zz, pb, sb, BitVec.ofNat 8 data.length] ++ data := by
    rw [requestBytes, commandWord_high, commandWord_low]
  have hall : ∀ b ∈ [qq, zz, pb, sb, BitVec.ofNat 8 data.length] ++ data, b ≠ esc := by
    intro b hb
    simp only [List.cons_append, List.nil_append, List.mem_cons] at hb hplain
    rcases hb with h | h | h | h | rfl | h
    · exact hplain b (.inl h)
    · exact hplain b (.inr (.inl h))
    · exact hplain b (.inr (.inr (.inl h)))
    · exact hplain b (.inr (.inr (.inr (.inl h))))
    · exact hnnesc
    · exact hplain b (.inr (.inr (.inr (.inr h))))
  obtain ⟨hport, hopen⟩ := TelegramBase.foldl_pushReqData_of_plain hall
    (t := { state := .waitForSend }) rfl
  have hunsealed : (unsealed qq zz pb sb (BitVec.ofNat 8 data.length) data).port =
      EsphomeEbus.SendCommand.unsealed qq zz (commandWord pb sb) data := by
    rw [EsphomeEbus.SendCommand.unsealed, hbytes]
    exact hport
  have hbase : (new qq zz pb sb (BitVec.ofNat 8 data.length) data).toTelegramBase.port =
      (EsphomeEbus.SendCommand.new qq zz (commandWord pb sb) data).toTelegramBase := by
    rw [new_eq hnn, EsphomeEbus.SendCommand.new_eq, ← hunsealed]
    exact (TelegramBase.pushReqData_of_plain hopen _).1
  rw [port, hbase]
  rfl

end SendCommand

/-! ### Replies -/

theorem uartSendCharCrc_eq (cr : Byte) (escape runCrc : Bool) (crcInit : Byte) :
    uartSendCharCrc cr escape runCrc crcInit =
      EsphomeEbus.uartSendCharCrc cr escape runCrc crcInit := rfl

/-- The two handlers have the same reply, which fits the buffer, to every telegram. -/
def SameReply (handler : Handler) (handler' : EsphomeEbus.Telegram → List Byte) : Prop :=
  ∀ t buf, t.Plain → (handler' t.port).length ≤ responseBufferSize ∧
    (handler t buf).1 = BitVec.ofNat 8 (handler' t.port).length ∧
    (handler t buf).2.toList.take (handler' t.port).length = handler' t.port

theorem ofNat_length_toNat {reply : List Byte} (h : reply.length ≤ responseBufferSize) :
    (BitVec.ofNat 8 reply.length).toNat = reply.length :=
  toNat_byte (Nat.lt_of_le_of_lt h (by decide))

/-- The two loops over the handlers end with the same reply. -/
theorem findReply_eq {handlers : List Handler}
    {handlers' : List (EsphomeEbus.Telegram → List Byte)}
    (hh : List.Forall₂ SameReply handlers handlers') {t : Telegram} (ht : t.Plain)
    (buf : ReplyBuffer) :
    (EsphomeEbus.findReply handlers' t.port).length ≤ responseBufferSize ∧
      (findReply handlers t buf).1 =
        BitVec.ofNat 8 (EsphomeEbus.findReply handlers' t.port).length ∧
      (findReply handlers t buf).2.toList.take (EsphomeEbus.findReply handlers' t.port).length =
        EsphomeEbus.findReply handlers' t.port := by
  induction hh generalizing buf with
  | nil => exact ⟨Nat.zero_le _, rfl, rfl⟩
  | @cons handler handler' handlers handlers' hsame _ ih =>
    obtain ⟨hlen, hreturn, hbytes⟩ := hsame t buf ht
    have hzero : (handler t buf).1 ≠ 0 ↔ (handler' t.port).length ≠ 0 := by
      rw [hreturn, ne_eq, ← BitVec.toNat_inj, ofNat_length_toNat hlen]
      exact Iff.rfl
    unfold findReply EsphomeEbus.findReply
    dsimp only
    by_cases h : (handler' t.port).length ≠ 0
    · rw [if_pos h, if_pos (hzero.mpr h)]
      exact ⟨hlen, hreturn, hbytes⟩
    · rw [if_neg h, if_neg fun h' => h (hzero.mp h')]
      exact ih _

/-- The loop over the buffer is the loop over the bytes it holds. -/
theorem sendReplyFrom_eq (buf : ReplyBuffer) {n i : ℕ} (hn : i + n ≤ responseBufferSize)
    (crc : Byte) : sendReplyFrom buf n i crc =
      EsphomeEbus.sendReply ((buf.toList.drop i).take n) crc := by
  induction n generalizing i crc with
  | zero => rfl
  | succ n ih =>
    have hi : i < buf.toList.length := by
      rw [Vector.length_toList]
      omega
    rw [List.drop_eq_getElem_cons hi, List.take_succ_cons, sendReplyFrom, EsphomeEbus.sendReply,
      ih (by omega), uartSendCharCrc_eq, List.getD_eq_getElem _ _ hi]

/-- `handle_response`. -/
theorem handleResponse_eq {handlers : List Handler}
    {handlers' : List (EsphomeEbus.Telegram → List Byte)}
    (hh : List.Forall₂ SameReply handlers handlers') {t : Telegram} (ht : t.Plain)
    (masterAddress : Byte) : handleResponse masterAddress handlers t =
      EsphomeEbus.handleResponse masterAddress handlers' t.port := by
  obtain ⟨hlen, hreturn, hbytes⟩ := findReply_eq hh ht (Vector.replicate responseBufferSize 0)
  have hzero : (findReply handlers t (Vector.replicate responseBufferSize 0)).1 = 0 ↔
      (EsphomeEbus.findReply handlers' t.port).length = 0 ∨
        (EsphomeEbus.findReply handlers' t.port).length > responseBufferSize := by
    rw [or_iff_left (by omega), hreturn, ← BitVec.toNat_inj, ofNat_length_toNat hlen]
    exact Iff.rfl
  have hsend := sendReplyFrom_eq (findReply handlers t (Vector.replicate responseBufferSize 0)).2
    (n := (EsphomeEbus.findReply handlers' t.port).length) (i := 0) (by omega)
    (Elf.crc8Calc (BitVec.ofNat 8 (EsphomeEbus.findReply handlers' t.port).length) 0)
  rw [List.drop_zero, hbytes] at hsend
  have hstate : t.port.state = t.state := rfl
  have hzz : t.port.getZz = t.getZZ := rfl
  have hslave : Elf.toSlave masterAddress = EsphomeEbus.Elf.toSecondary masterAddress := rfl
  unfold handleResponse EsphomeEbus.handleResponse
  rw [ht.isRequestValid, hstate, hzz, hslave]
  dsimp only
  split
  · rfl
  · split
    · rfl
    · simp only [hzero]
      split
      · rfl
      · rw [hreturn, ofNat_length_toNat hlen, hsend]
        rfl

/-! ### One call -/

/-- The two dequeue functions hand over nothing, or commands built from the same bytes, none of them
ESC. -/
inductive SameCommand : Option SendCommand → Option EsphomeEbus.SendCommand → Prop
  | none : SameCommand none none
  | some {qq zz pb sb : Byte} {data : List Byte} : data.length ≤ maxDataLength →
      (∀ b ∈ qq :: zz :: pb :: sb :: data, b ≠ esc) →
      SameCommand (some (.new qq zz pb sb (BitVec.ofNat 8 data.length) data))
        (some (.new qq zz (SendCommand.commandWord pb sb) data))

/-- The two drivers are called with the same byte, which is not ESC, and the functions installed
answer alike. -/
structure SameCall (call : Call) (call' : EsphomeEbus.Call) : Prop where
  receivedByte : call'.receivedByte = call.receivedByte
  ne_esc : call.receivedByte ≠ esc
  dequeued : SameCommand call.dequeued call'.dequeued
  sendResponseHandlers : List.Forall₂ SameReply call.sendResponseHandlers call'.sendResponseHandlers

theorem SameCommand.port_eq {c : Option SendCommand} {c' : Option EsphomeEbus.SendCommand}
    (h : SameCommand c c') : c' = c.map SendCommand.port := by
  cases h with
  | none => rfl
  | some hlen hplain => rw [Option.map_some, SendCommand.port_new hlen hplain]

/-- A legacy configuration as one of the component. -/
def Config.port (c : Config) : EsphomeEbus.Config :=
  { primaryAddress := c.masterAddress
    maxTries := c.maxTries
    maxLockCounter := c.maxLockCounter
    queueReceivedTelegram := c.queueReceivedTelegram
    dequeueCommand := c.dequeueCommand }

namespace Ebus

/-- A legacy driver as the component's, outside any escape pair. -/
def port (s : Ebus) : EsphomeEbus.Ebus :=
  { config := s.config.port
    lockCounter := s.lockCounter
    charCountSinceLastSyn := s.charCountSinceLastSyn
    inEsc := false
    state := s.state
    receivingTelegram := s.receivingTelegram.port
    activeCommand := s.activeCommand.port }

variable (s : Ebus)

theorem port_countSyn (b : Byte) : s.port.countSyn b = (s.countSyn b).port := by
  unfold countSyn EsphomeEbus.Ebus.countSyn
  split <;> rfl

theorem port_queueFinished : s.port.queueFinished =
    (s.queueFinished.1.port, s.queueFinished.2.map Telegram.port) := by
  have hfinished : s.port.receivingTelegram.isFinished = s.receivingTelegram.isFinished := rfl
  have hinstalled : s.port.config.queueReceivedTelegram = s.config.queueReceivedTelegram := rfl
  unfold queueFinished EsphomeEbus.Ebus.queueFinished
  rw [hfinished, hinstalled]
  split
  · split <;> rfl
  · rfl

theorem port_dequeue (dequeued : Option SendCommand) :
    s.port.dequeue (dequeued.map SendCommand.port) =
      ((s.dequeue dequeued).1.port, (s.dequeue dequeued).2) := by
  have hfinished : s.port.activeCommand.isFinished = s.activeCommand.isFinished := rfl
  have hinstalled : s.port.config.dequeueCommand = s.config.dequeueCommand := rfl
  unfold dequeue EsphomeEbus.Ebus.dequeue
  rw [hfinished, hinstalled]
  split
  · cases dequeued <;> rfl
  · rfl

/-- The two switches over the active command end alike. -/
structure SameDriven (d : Driven) (d' : EsphomeEbus.Ebus.Driven) : Prop where
  activeCommand : d'.activeCommand = d.activeCommand.port
  lockCounter : d'.lockCounter = d.lockCounter
  sent : d'.qq ++ d'.request = d.sent

theorem sameDriven_startRequest : SameDriven s.startRequest s.port.startRequest := by
  have hack : s.port.activeCommand.isAckExpected = s.activeCommand.isAckExpected :=
    s.activeCommand.port_isAckExpected
  unfold startRequest EsphomeEbus.Ebus.startRequest
  rw [hack]
  split
  · exact ⟨rfl, rfl, rfl⟩
  · exact ⟨rfl, rfl, rfl⟩

theorem sameDriven_retryOrFail : SameDriven s.retryOrFail s.port.retryOrFail :=
  ⟨rfl, rfl, rfl⟩

theorem sameDriven_driveCommand (b : Byte) :
    SameDriven (s.driveCommand b) (s.port.driveCommand b) := by
  have hcommand : s.port.activeCommand.state = s.activeCommand.state := rfl
  have hqq : s.port.activeCommand.getQq = s.activeCommand.getQQ := rfl
  have hstate : s.port.state = s.state := rfl
  have hlock : s.port.lockCounter = s.lockCounter := rfl
  have hclass : EsphomeEbus.Elf.getPriorityClass = Elf.getPriorityClass := rfl
  unfold driveCommand EsphomeEbus.Ebus.driveCommand
  rw [hcommand, hqq, hstate, hlock, hclass]
  cases hs : s.activeCommand.state with
  | waitForSend =>
    dsimp only
    split
    · exact ⟨rfl, rfl, List.append_nil _⟩
    · exact ⟨rfl, rfl, rfl⟩
  | waitForArbitration =>
    dsimp only
    split
    · exact s.sameDriven_startRequest
    · split
      · exact ⟨rfl, rfl, rfl⟩
      · exact s.sameDriven_retryOrFail
  | waitForArbitration2nd =>
    dsimp only
    split
    · exact ⟨rfl, rfl, List.append_nil _⟩
    · split
      · exact s.sameDriven_startRequest
      · exact s.sameDriven_retryOrFail
  | waitForCommandAck =>
    dsimp only
    split
    · exact ⟨rfl, rfl, rfl⟩
    · split
      · exact s.sameDriven_retryOrFail
      · exact ⟨rfl, rfl, rfl⟩
  | _ => exact ⟨rfl, rfl, rfl⟩

theorem port_acknowledgeResponse {s : Ebus} (hs : s.receivingTelegram.Plain) :
    s.port.acknowledgeResponse = s.acknowledgeResponse := by
  unfold acknowledgeResponse EsphomeEbus.Ebus.acknowledgeResponse
  rw [hs.isResponseValid]
  rfl

theorem countSyn_receivingTelegram (b : Byte) :
    (s.countSyn b).receivingTelegram = s.receivingTelegram := by
  rw [countSyn]
  split <;> rfl

theorem dequeue_receivingTelegram (dequeued : Option SendCommand) :
    (s.dequeue dequeued).1.receivingTelegram = s.receivingTelegram := by
  unfold dequeue
  split
  · cases dequeued <;> rfl
  · rfl

theorem plain_queueFinished {s : Ebus} (hs : s.receivingTelegram.Plain) :
    s.queueFinished.1.receivingTelegram.Plain := by
  unfold queueFinished
  split
  · exact Telegram.plain_new
  · exact hs

/-- The switch over the receiving telegram. -/
theorem port_receive {s : Ebus} (hs : s.receivingTelegram.Plain) {b : Byte} (hb : b ≠ esc) :
    ({ s.port with receivingTelegram := s.port.receivingTelegram.receive b b } :
        EsphomeEbus.Ebus) =
      port { s with receivingTelegram := s.receivingTelegram.receive b } := by
  rw [port, ← (hs.receive hb).2]
  rfl

/-- The state in which `driveCommand` is entered. -/
def beforeDrive (call : Call) : Ebus :=
  let dequeued := ((s.countSyn call.receivedByte).queueFinished.1.dequeue call.dequeued).1
  { dequeued with
    receivingTelegram := dequeued.receivingTelegram.receive call.receivedByte }

theorem processReceivedChar_fst (call : Call) : (s.processReceivedChar call).1 =
    { s.beforeDrive call with
      activeCommand := ((s.beforeDrive call).driveCommand call.receivedByte).activeCommand
      lockCounter := ((s.beforeDrive call).driveCommand call.receivedByte).lockCounter } := rfl

theorem processReceivedChar_snd (call : Call) : (s.processReceivedChar call).2 =
    { queued := (s.countSyn call.receivedByte).queueFinished.2
      dequeueCalled :=
        ((s.countSyn call.receivedByte).queueFinished.1.dequeue call.dequeued).2
      sent := ((s.beforeDrive call).driveCommand call.receivedByte).sent ++
        (s.processReceivedChar call).1.acknowledgeResponse ++
        handleResponse (s.processReceivedChar call).1.config.masterAddress
          call.sendResponseHandlers (s.processReceivedChar call).1.receivingTelegram } := rfl

variable {s} {call : Call} {call' : EsphomeEbus.Call}

/-- **Both drivers reach the switch over the active command in the same state.** -/
theorem port_beforeDrive (hs : s.receivingTelegram.Plain) (hcall : SameCall call call') :
    (s.beforeDrive call).receivingTelegram.Plain ∧
      s.port.beforeDrive call' call.receivedByte = (s.beforeDrive call).port := by
  have hplain : ((s.countSyn call.receivedByte).queueFinished.1.dequeue
      call.dequeued).1.receivingTelegram.Plain := by
    rw [dequeue_receivingTelegram]
    apply plain_queueFinished
    rwa [countSyn_receivingTelegram]
  have hdequeue : ((s.countSyn call.receivedByte).queueFinished.1.dequeue call.dequeued).1.port =
      ((s.port.countSyn call'.receivedByte).queueFinished.1.dequeue call'.dequeued).1 := by
    rw [hcall.receivedByte, hcall.dequeued.port_eq, port_countSyn, port_queueFinished,
      port_dequeue]
  refine ⟨(hplain.receive hcall.ne_esc).1, ?_⟩
  rw [EsphomeEbus.Ebus.beforeDrive_eq, ← hdequeue, hcall.receivedByte]
  exact port_receive hplain hcall.ne_esc

end Ebus

/-- The states of the two drivers are the same: lock, counters, the state of the bus, the receiving
telegram and the active command with all their buffers, positions and checksums; no escape pair is
open on either side. -/
structure SameState (s : Ebus) (s' : EsphomeEbus.Ebus) : Prop where
  config : s'.config = s.config.port
  lockCounter : s'.lockCounter = s.lockCounter
  charCountSinceLastSyn : s'.charCountSinceLastSyn = s.charCountSinceLastSyn
  state : s'.state = s.state
  receivingTelegram : s'.receivingTelegram = s.receivingTelegram.port
  activeCommand : s'.activeCommand = s.activeCommand.port
  plain : s.receivingTelegram.Plain
  inEsc : s'.inEsc = false

/-- Both drivers send the same bytes, make the same dequeue calls, and queue the same telegrams. -/
structure SameOutput (o : Output) (o' : EsphomeEbus.Output) : Prop where
  sent : o'.sent = o.sent
  dequeueCalled : o'.dequeueCalled = o.dequeueCalled
  queued : o'.queued = o.queued.map Telegram.port

theorem SameState.eq_port {s : Ebus} {s' : EsphomeEbus.Ebus} (h : SameState s s') :
    s' = s.port := by
  cases s'
  obtain ⟨rfl, rfl, rfl, rfl, rfl, rfl, -, rfl⟩ := h
  rfl

theorem sameState_port {s : Ebus} (hs : s.receivingTelegram.Plain) : SameState s s.port :=
  ⟨rfl, rfl, rfl, rfl, rfl, rfl, hs, rfl⟩

/-- **One call of both drivers.** -/
theorem lockstep : Lockstep SameState SameCall SameOutput Ebus.processReceivedChar
    EsphomeEbus.Ebus.processReceivedChar := by
  intro s s' call call' hs hcall
  obtain rfl := hs.eq_port
  obtain ⟨hplain, hbefore⟩ := Ebus.port_beforeDrive hs.plain hcall
  have hdriven := (s.beforeDrive call).sameDriven_driveCommand call.receivedByte
  have hdrivenBy : s.port.drivenBy call' call.receivedByte =
      (s.beforeDrive call).port.driveCommand call.receivedByte := by
    rw [EsphomeEbus.Ebus.drivenBy, hbefore, hcall.receivedByte]
  rw [← hdrivenBy] at hdriven
  have hsymbol : s.port.processReceivedChar call' =
      s.port.processSymbol call' call.receivedByte := by
    have hinEsc : s.port.inEsc = false := rfl
    simp [EsphomeEbus.Ebus.processReceivedChar, hinEsc, hcall.receivedByte, hcall.ne_esc]
  have hstate : (s.port.processReceivedChar call').1 = (s.processReceivedChar call).1.port := by
    rw [hsymbol, EsphomeEbus.Ebus.processSymbol_fst, hdriven.activeCommand, hdriven.lockCounter,
      hbefore]
    rfl
  have hqueued : (s.port.countSyn call'.receivedByte).queueFinished =
      ((s.countSyn call.receivedByte).queueFinished.1.port,
        (s.countSyn call.receivedByte).queueFinished.2.map Telegram.port) := by
    rw [hcall.receivedByte, Ebus.port_countSyn, Ebus.port_queueFinished]
  have hplain' : (s.processReceivedChar call).1.receivingTelegram.Plain := hplain
  refine ⟨hstate ▸ sameState_port hplain', ?_, ?_, ?_⟩
  · have hconfig : (s.processReceivedChar call).1.config.masterAddress =
        s.config.masterAddress := by
      have h := s.port.processReceivedChar_config call'
      rw [hstate] at h
      exact congrArg EsphomeEbus.Config.primaryAddress h
    have hanswer := handleResponse_eq hcall.sendResponseHandlers hplain' s.config.masterAddress
    have hack := Ebus.port_acknowledgeResponse hplain'
    have hout := s.port.processSymbol_snd call' call.receivedByte
    rw [← hsymbol, hstate, hack] at hout
    rw [hout, EsphomeEbus.Output.sent, Ebus.processReceivedChar_snd]
    rw [hconfig, hanswer, ← hdriven.sent]
    rfl
  · rw [hsymbol]
    show ((s.port.countSyn call'.receivedByte).queueFinished.1.dequeue call'.dequeued).2 = _
    rw [hqueued, hcall.dequeued.port_eq, Ebus.port_dequeue]
    rfl
  · rw [hsymbol]
    show (s.port.countSyn call'.receivedByte).queueFinished.2 = _
    rw [hqueued]
    rfl

/-- **Faithful port.**  On a byte stream without ESC, with the same configuration and with dequeue
functions and reply handlers that answer alike, both drivers send the same bytes, make the same
dequeue calls and queue the same telegrams at every step, and are in the same state after every
step. -/
theorem faithful_port (config : Config) {calls : List Call} {calls' : List EsphomeEbus.Call}
    (h : List.Forall₂ SameCall calls calls') :
    List.Forall₂ SameOutput (outputs Ebus.processReceivedChar (Ebus.init config) calls)
        (outputs EsphomeEbus.Ebus.processReceivedChar (EsphomeEbus.Ebus.init config.port) calls') ∧
      ∀ n, SameState (run Ebus.processReceivedChar (Ebus.init config) (calls.take n))
        ((EsphomeEbus.Ebus.init config.port).after (calls'.take n)) := by
  have hinit : SameState (Ebus.init config) (EsphomeEbus.Ebus.init config.port) :=
    sameState_port Telegram.plain_new
  constructor
  · exact lockstep.outputs_related hinit h
  · intro n
    exact lockstep.run_related hinit (List.forall₂_take n h)

/-- A handler that writes `reply` over the buffer, whatever the request. -/
def writes (reply : List Byte) : Handler := fun _ buf =>
  (BitVec.ofNat 8 reply.length, Vector.ofFn fun i => reply.getD i (buf.toList.getD i 0))

theorem sameReply_writes {reply : List Byte} (h : reply.length ≤ responseBufferSize) :
    SameReply (writes reply) fun _ => reply := by
  intro t buf _
  refine ⟨h, rfl, ?_⟩
  show (Vector.ofFn fun i : Fin responseBufferSize =>
    reply.getD i (buf.toList.getD i 0)).toList.take reply.length = reply
  rw [Vector.toList_ofFn]
  apply List.ext_getElem
  · simp [h]
  · intro i h1 h2
    simp [List.getD_eq_getElem?_getD, h2]

/-- A node with a command in its queue hears a request to its slave address and answers. -/
theorem faithful_port_answer :
    let heard : List Byte := [0x30#8, 0x15#8, 0x07#8, 0x04#8, 0x00#8, 0x04#8]
    let command := SendCommand.new 0x10#8 0x08#8 0xB5#8 0x09#8 1 [0x0D#8]
    let command' := EsphomeEbus.SendCommand.new 0x10#8 0x08#8
      (SendCommand.commandWord 0xB5#8 0x09#8) [0x0D#8]
    let calls : List Call := ⟨syn, some command, [writes [0x12#8]]⟩ ::
      heard.map fun b => ⟨b, none, [writes [0x12#8]]⟩
    let calls' : List EsphomeEbus.Call := ⟨syn, some command', [fun _ => [0x12#8]]⟩ ::
      heard.map fun b => ⟨b, none, [fun _ => [0x12#8]]⟩
    List.Forall₂ SameOutput
        (outputs Ebus.processReceivedChar (Ebus.init ⟨0x10#8, 2, 4, true, true⟩) calls)
        (outputs EsphomeEbus.Ebus.processReceivedChar
          (EsphomeEbus.Ebus.init (Config.port ⟨0x10#8, 2, 4, true, true⟩)) calls') ∧
      ∀ n, SameState
        (run Ebus.processReceivedChar (Ebus.init ⟨0x10#8, 2, 4, true, true⟩) (calls.take n))
        ((EsphomeEbus.Ebus.init (Config.port ⟨0x10#8, 2, 4, true, true⟩)).after
          (calls'.take n)) := by
  have hreply : List.Forall₂ SameReply [writes [0x12#8]] [fun _ => [0x12#8]] :=
    .cons (sameReply_writes (by decide)) .nil
  have hcommand : SameCommand
      (some (.new 0x10#8 0x08#8 0xB5#8 0x09#8 (BitVec.ofNat 8 [0x0D#8].length) [0x0D#8]))
      (some (.new 0x10#8 0x08#8 (SendCommand.commandWord 0xB5#8 0x09#8) [0x0D#8])) :=
    .some (by decide) (by decide)
  apply faithful_port
  refine .cons ⟨rfl, by decide, hcommand, hreply⟩ ?_
  rw [List.forall₂_map_left_iff, List.forall₂_map_right_iff, List.forall₂_same]
  intro b hb
  exact ⟨rfl, by revert b; decide, .none, hreply⟩

end EsphomeEbus.Zebus
