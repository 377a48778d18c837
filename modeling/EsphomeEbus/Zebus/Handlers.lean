import EsphomeEbus.Zebus.Application

/-!
# Items in place of the legacy handlers

One item for each sensor of the legacy application publishes what its handlers publish, and the two
reply alike to what they are asked for.

* `Channel.item`: the items; `publications_eq`: what they publish for a telegram;
* `handleResponse_alike`: when the two reply alike;
* `lockstep_alike`: one call of both drivers, whatever their handlers.
-/

namespace EsphomeEbus.Zebus

open Transducer EbusComponent

/-! ### Words -/

theorem bytesToWord_toNat (high low : Byte) :
    bytesToWord high.toNat low.toNat = SendCommand.commandWord high low := by
  rw [bytesToWord, BitVec.ofInt_natCast, BitVec.ofInt_natCast, BitVec.ofNat_toNat,
    BitVec.ofNat_toNat]
  rfl

/-- A byte, or the -1 that stands for none. -/
def IsRequestByte (value : ℤ) : Prop := value = -1 ∨ ∃ b : Byte, value = b.toNat

theorem isRequestByte_getRequestByte (t : TelegramBase) (pos : Byte) :
    IsRequestByte (t.getRequestByte pos) := by
  rw [TelegramBase.getRequestByte]
  split
  · exact .inl rfl
  · exact .inr ⟨_, rfl⟩

/-- A byte that is not there leaves its mark in the high byte of the word. -/
theorem bytesToWord_eq_iff {h l : ℤ} (hh : IsRequestByte h) (hl : IsRequestByte l)
    {high : Byte} (hhigh : high ≠ 0xFF#8) (low : Byte) :
    bytesToWord h l = SendCommand.commandWord high low ↔ h = high.toNat ∧ l = low.toNat := by
  have hminus : ∀ w : BitVec 16, (w >>> 8).setWidth 8 = 0xFF#8 →
      w ≠ SendCommand.commandWord high low := by
    rintro _ hw rfl
    rw [SendCommand.commandWord_high] at hw
    exact hhigh hw
  have hnone : ∀ b : Byte, (-1 : ℤ) ≠ b.toNat := fun b => by omega
  have hones : BitVec.ofInt 16 (-1) = BitVec.allOnes 16 := rfl
  obtain rfl | ⟨b, rfl⟩ := hh
  · refine iff_of_false (hminus _ ?_) fun heq => hnone _ heq.1
    rw [bytesToWord, hones, show (0xFF#8 : Byte) = BitVec.allOnes 8 from rfl]
    ext i hi
    have hroom : i < 16 ∧ 8 + i < 16 := by omega
    rw [BitVec.getElem_setWidth, BitVec.getLsbD_ushiftRight, BitVec.getLsbD_or,
      BitVec.getLsbD_shiftLeft, BitVec.getLsbD_allOnes, BitVec.getElem_allOnes]
    simp [hroom]
  · obtain rfl | ⟨b', rfl⟩ := hl
    · refine iff_of_false (hminus _ ?_) fun heq => hnone _ heq.2
      rw [bytesToWord, hones, BitVec.or_allOnes]
      rfl
    · rw [bytesToWord_toNat]
      constructor
      · intro heq
        have hhigh' := congrArg (fun w : BitVec 16 => (w >>> 8).setWidth 8) heq
        have hlow := congrArg (fun w : BitVec 16 => w.setWidth 8) heq
        simp only [SendCommand.commandWord_high, SendCommand.commandWord_low] at hhigh' hlow
        rw [hhigh', hlow]
        exact ⟨rfl, rfl⟩
      · rintro ⟨h1, h2⟩
        rw [BitVec.eq_of_toNat_eq (Int.ofNat.inj h1), BitVec.eq_of_toNat_eq (Int.ofNat.inj h2)]

/-! ### Items in place of handlers -/

/-- The item of a sensor, without what it reads; `ebus-test.yaml` has them all but the last. -/
def Channel.ebusItem : Channel → EbusItem
  | waterPressure =>
    { address := EsphomeEbus.Elf.toSecondary masterHeater, sendPoll := true,
      command := cmdDeviceConfig,
      payload := [deviceConfigSubcommandRead, 0x02#8, 0x00#8], responsePosition := 0 }
  | dispRoomTemp =>
    { address := EsphomeEbus.Elf.toSecondary masterExa, sendPoll := true,
      command := cmdDeviceConfig,
      payload := [deviceConfigSubcommandRead, 0x3E#8, 0x00#8], responsePosition := 0 }
  | flowTemp =>
    { sendPoll := false, command := 0xB511#16, payload := [0x01#8], responsePosition := 0 }
  | returnTemp =>
    { sendPoll := false, command := 0xB511#16, payload := [0x01#8], responsePosition := 1 }
  | storageTemp =>
    { sendPoll := false, command := 0xB511#16, payload := [0x01#8], responsePosition := 5 }
  | hotWaterHeating =>
    { sendPoll := false, command := 0xB511#16, payload := [0x01#8], responsePosition := 6 }

section Items

variable {F : Type*} [NatCast F]

/-- The item of a sensor. -/
def Channel.item (channel : Channel) : Item F :=
  match channel with
  | waterPressure => .sensor
      { channel.ebusItem with responseBytes := 2, responseDivider := ((1000 : ℕ) : F) }
  | dispRoomTemp => .sensor
      { channel.ebusItem with responseBytes := 2, responseDivider := ((16 : ℕ) : F) }
  | hotWaterHeating => .binarySensor { channel.ebusItem with mask := 0xFF#8 }
  | _ => .sensor { channel.ebusItem with responseBytes := 1, responseDivider := ((2 : ℕ) : F) }

/-- The sensors, in the order of the handlers. -/
def channels : List Channel :=
  [.waterPressure, .dispRoomTemp, .flowTemp, .returnTemp, .storageTemp, .hotWaterHeating]

variable (divide : BitVec 32 → F → F) (t : Telegram)

/-- What the application publishes on a sensor, if it does. -/
def Channel.value : Channel → F
  | waterPressure => toFloat divide t 0 2 ((1000 : ℕ) : F)
  | dispRoomTemp => toFloat divide t 0 2 ((16 : ℕ) : F)
  | flowTemp => toFloat divide t 0 1 ((2 : ℕ) : F)
  | returnTemp => toFloat divide t 1 1 ((2 : ℕ) : F)
  | storageTemp => toFloat divide t 5 1 ((2 : ℕ) : F)
  | hotWaterHeating => (((t.getResponseByte 6 != 0).toNat : ℕ) : F)

/-- A publication as a number; the application publishes no other. -/
def numberOf : Publication F → F
  | .number value => value
  | .state value => (value.toNat : F)

/-- What the items publish, as numbers. -/
def numbers (published : List (Item F × Publication F)) : List (Item F × F) :=
  published.map fun p => (p.1, numberOf p.2)

/-- What the application publishes for telegrams to the address of the item, if it has one. -/
def addressed (published : List (Telegram × Channel × F)) : List (Item F × F) :=
  (published.filter fun p => p.2.1.ebusItem.ForAddress p.1.getZZ).map fun p => (p.2.1.item, p.2.2)

/-! ### What is published for a telegram -/

variable {divide t}

/-- The item without its address. -/
def anywhere (item : EbusItem) : EbusItem := { item with address := syn }

theorem isMine_anywhere (item : EbusItem) : item.isMine t.port = true ↔
    item.ForAddress t.getZZ ∧ (anywhere item).isMine t.port = true := by
  rw [EbusItem.isMine_iff, EbusItem.isMine_iff]
  have hzz : t.port.getZz = t.getZZ := rfl
  have hall : (anywhere item).ForAddress t.port.getZz := .inl rfl
  rw [hzz] at hall ⊢
  exact ⟨fun h => ⟨h.1, hall, h.2⟩, fun h => ⟨h.1, h.2.2⟩⟩

theorem getResponseBytes_port (start length : Byte) :
    EsphomeEbus.getResponseBytes t.port start length = getResponseBytes t start length := by
  have hloop : ∀ n i result, EsphomeEbus.getResponseBytesFrom t.port start n i result =
      getResponseBytesFrom t start n i result := by
    intro n
    induction n with
    | zero => exact fun _ _ => rfl
    | succ n ih => exact fun i result => ih (i + 1) _
  exact hloop _ _ _

theorem getCommand_port : t.port.getCommand = bytesToWord t.getPB.toNat t.getSB.toNat :=
  (bytesToWord_toNat _ _).symm

theorem isMine_anywhere_iff (item : EbusItem) : (anywhere item).isMine t.port = true ↔
    bytesToWord t.getPB.toNat t.getSB.toNat = item.command ∧
      EbusItem.payloadMatches t.port item.payload 0 = true := by
  rw [EbusItem.isMine, getCommand_port, if_neg (fun h => h.1 rfl)]
  show (if ¬ _ = item.command then false else EbusItem.payloadMatches t.port item.payload 0) = _ ↔ _
  split
  · rename_i h
    exact iff_of_false Bool.false_ne_true fun h' => h h'.1
  · rename_i h
    exact ⟨fun h' => ⟨not_not.mp h, h'⟩, fun h' => h'.2⟩

theorem payloadMatches_cons (b : Byte) (payload : List Byte) (i : ℕ) :
    EbusItem.payloadMatches t.port (b :: payload) i = true ↔
      t.getRequestByte (BitVec.ofNat 8 i) = b.toNat ∧
        EbusItem.payloadMatches t.port payload (i + 1) = true := by
  show (if (b.toNat : ℤ) ≠ t.getRequestByte (BitVec.ofNat 8 i) then false
    else EbusItem.payloadMatches t.port payload (i + 1)) = true ↔ _
  split
  · rename_i h
    exact iff_of_false Bool.false_ne_true fun h' => h h'.1.symm
  · rename_i h
    exact ⟨fun h' => ⟨(not_not.mp h).symm, h'⟩, fun h' => h'.2⟩

omit [NatCast F] in
/-- A handler for an element of the configuration looks for a payload of three bytes. -/
theorem readConfigHandler_eq {channel : Channel} (high low : Byte) (hhigh : high ≠ 0xFF#8)
    (hcommand : channel.ebusItem.command = cmdDeviceConfig)
    (hpayload : channel.ebusItem.payload = [deviceConfigSubcommandRead, high, low]) (divider : F) :
    readConfigHandler divide (SendCommand.commandWord high low) channel divider t =
      if (anywhere channel.ebusItem).isMine t.port then [(channel, toFloat divide t 0 2 divider)]
      else [] := by
  have hword := bytesToWord_eq_iff (isRequestByte_getRequestByte t.toTelegramBase 1)
    (isRequestByte_getRequestByte t.toTelegramBase 2) hhigh low
  have hmine : (anywhere channel.ebusItem).isMine t.port = true ↔
      bytesToWord t.getPB.toNat t.getSB.toNat = cmdDeviceConfig ∧
        t.getRequestByte 0 = deviceConfigSubcommandRead.toNat ∧
        bytesToWord (t.getRequestByte 1) (t.getRequestByte 2) =
          SendCommand.commandWord high low := by
    rw [isMine_anywhere_iff, hcommand, hpayload, payloadMatches_cons, payloadMatches_cons,
      payloadMatches_cons, hword]
    exact ⟨fun h => ⟨h.1, h.2.1, h.2.2.1, h.2.2.2.1⟩, fun h => ⟨h.1, h.2.1, h.2.2.1, h.2.2.2, rfl⟩⟩
  simp only [hmine, readConfigHandler]
  split
  · rename_i h
    rw [if_neg fun h' => h h'.1]
  · rename_i h1
    split
    · rename_i h
      rw [if_neg fun h' => h h'.2.1]
    · rename_i h2
      split
      · rename_i h
        rw [if_neg fun h' => h h'.2.2]
      · rename_i h3
        rw [if_pos ⟨not_not.mp h1, not_not.mp h2, not_not.mp h3⟩]

/-- The handler of the heating. -/
theorem heatingHandler_eq : heatingHandler divide t =
    if (anywhere Channel.flowTemp.ebusItem).isMine t.port then
      [.flowTemp, .returnTemp, .storageTemp, .hotWaterHeating].map
        fun channel => (channel, channel.value divide t)
    else [] := by
  have hmine : (anywhere Channel.flowTemp.ebusItem).isMine t.port = true ↔
      bytesToWord t.getPB.toNat t.getSB.toNat = 0xB511#16 ∧ t.getRequestByte 0 = 0x01 := by
    rw [isMine_anywhere_iff]
    show _ ∧ EbusItem.payloadMatches t.port [0x01#8] 0 = true ↔ _
    rw [payloadMatches_cons]
    exact ⟨fun h => ⟨h.1, h.2.1⟩, fun h => ⟨h.1, h.2, rfl⟩⟩
  simp only [hmine, heatingHandler]
  split
  · rename_i h
    rw [if_neg fun h' => h h'.1]
  · rename_i h1
    split
    · rename_i h
      rw [if_neg fun h' => h h'.2]
    · rename_i h2
      rw [if_pos ⟨not_not.mp h1, not_not.mp h2⟩]
      rfl

/-- **The handlers look for the telegrams of the items**, whatever the address. -/
theorem handleMessage_eq (hs : t.state = .endCompleted) : handleMessage divide t =
    channels.filterMap fun channel => if (anywhere channel.ebusItem).isMine t.port then
      some (channel, channel.value divide t) else none := by
  have hwater : waterPressureHandler divide t =
      if (anywhere Channel.waterPressure.ebusItem).isMine t.port then
        [(.waterPressure, Channel.waterPressure.value divide t)] else [] :=
    readConfigHandler_eq 0x02#8 0x00#8 (by decide) rfl rfl _
  have hroom : dispRoomTempHandler divide t =
      if (anywhere Channel.dispRoomTemp.ebusItem).isMine t.port then
        [(.dispRoomTemp, Channel.dispRoomTemp.value divide t)] else [] :=
    readConfigHandler_eq 0x3E#8 0x00#8 (by decide) rfl rfl _
  -- the four items of the heating look for the same message
  have hreturn : (anywhere Channel.returnTemp.ebusItem).isMine t.port =
      (anywhere Channel.flowTemp.ebusItem).isMine t.port := rfl
  have hstorage : (anywhere Channel.storageTemp.ebusItem).isMine t.port =
      (anywhere Channel.flowTemp.ebusItem).isMine t.port := rfl
  have hhot : (anywhere Channel.hotWaterHeating.ebusItem).isMine t.port =
      (anywhere Channel.flowTemp.ebusItem).isMine t.port := rfl
  rw [handleMessage, if_neg (not_not.mpr hs), messageHandlers]
  simp only [channels, List.flatMap_cons, List.flatMap_nil, List.filterMap_cons,
    List.filterMap_nil, hwater, hroom, heatingHandler_eq, hreturn, hstorage, hhot]
  cases (anywhere Channel.waterPressure.ebusItem).isMine t.port <;>
    cases (anywhere Channel.dispRoomTemp.ebusItem).isMine t.port <;>
    cases (anywhere Channel.flowTemp.ebusItem).isMine t.port <;> rfl

theorem processReceived_sensor (sensor : EbusSensor F) :
    ((Item.sensor sensor).processReceived divide t.port).map numberOf =
      if sensor.isMine t.port then some (toFloat divide t sensor.responsePosition
        sensor.responseBytes sensor.responseDivider) else none := by
  rw [Item.processReceived, EbusSensor.processReceived, EbusSensor.toFloat, getResponseBytes_port,
    toFloat]
  cases sensor.isMine t.port <;> rfl

theorem exists_getResponseByte (t : Telegram) (pos : Byte) :
    ∃ b : Byte, t.getResponseByte pos = b.toNat := by
  rw [Telegram.getResponseByte]
  split
  · exact ⟨_, rfl⟩
  · exact ⟨_, rfl⟩

/-- The byte under a full mask. -/
theorem getResponseBytes_one (pos : Byte) :
    ((getResponseBytes t pos 1).setWidth 8 &&& 0xFF#8 != 0) = (t.getResponseByte pos != 0) := by
  obtain ⟨b, hb⟩ := exists_getResponseByte t (pos + 0#8)
  have hbytes : getResponseBytes t pos 1 = b.setWidth 32 := by
    show 0#32 ||| BitVec.ofInt 32 (t.getResponseByte (pos + 0#8)) <<< 0 = _
    rw [hb, BitVec.ofInt_natCast, BitVec.ofNat_toNat, BitVec.shiftLeft_zero, BitVec.zero_or]
  rw [BitVec.add_zero] at hb
  have hmask : (b.setWidth 32).setWidth 8 &&& 0xFF#8 = b := by
    rw [show (0xFF#8 : Byte) = BitVec.allOnes 8 from rfl, BitVec.and_allOnes]
    simp
  have hzero : (b.toNat : ℤ) = 0 ↔ b = 0 := by
    rw [Int.natCast_eq_zero]
    exact ⟨fun h => BitVec.eq_of_toNat_eq h, fun h => by rw [h]; rfl⟩
  rw [hbytes, hmask, hb, Bool.eq_iff_iff, bne_iff_ne, bne_iff_ne, ne_eq, ne_eq, hzero]

/-- An item publishes the value of its sensor. -/
theorem processReceived_item (channel : Channel) :
    (channel.item.processReceived divide t.port).map numberOf =
      if channel.ebusItem.isMine t.port then some (channel.value divide t) else none := by
  cases channel with
  | hotWaterHeating =>
    show (Option.map _ (EbusBinarySensor.processReceived _ t.port)).map numberOf = _
    rw [EbusBinarySensor.processReceived_eq, getResponseBytes_port, getResponseBytes_one]
    show Option.map _ (Option.map _
      (if Channel.hotWaterHeating.ebusItem.isMine t.port then _ else none)) = _
    cases Channel.hotWaterHeating.ebusItem.isMine t.port <;> rfl
  | _ => exact processReceived_sensor _

/-- **What a component with these items publishes**: what the application does for telegrams to the
address of the item. -/
theorem publications_eq {Q : QueueApi Byte} {P : EsphomeEbus.Platform Q F} {c : EbusComponent Q F}
    (hc : c.items = channels.map Channel.item) (hdivide : P.divide = divide) :
    numbers (c.publications P t.port) =
      addressed ((handleMessage divide t).map (Prod.mk t)) := by
  subst hdivide
  rw [addressed, List.filter_map, List.map_map, numbers]
  by_cases hs : t.state = .endCompleted
  · have hs' : t.port.state = .endCompleted := hs
    rw [handleMessage_eq hs, publications, EsphomeEbus.handleMessage, if_neg (not_not.mpr hs'), hc]
    induction channels with
    | nil => rfl
    | cons channel channels ih =>
      have hvalue := @processReceived_item F _ P.divide t channel
      rw [List.map_cons, List.map_cons, List.flatMap_cons, List.map_append, ih,
        List.filterMap_cons]
      by_cases hanywhere : (anywhere channel.ebusItem).isMine t.port = true
      · rw [if_pos hanywhere]
        by_cases hzz : channel.ebusItem.ForAddress t.getZZ
        · rw [if_pos ((isMine_anywhere _).mpr ⟨hzz, hanywhere⟩)] at hvalue
          obtain ⟨v, hv, hnumber⟩ := Option.map_eq_some_iff.mp hvalue
          rw [hv, List.filter_cons_of_pos (by simpa using hzz), List.map_cons, ← hnumber]
          rfl
        · rw [if_neg fun h => hzz ((isMine_anywhere _).mp h).1, Option.map_eq_none_iff] at hvalue
          rw [hvalue, List.filter_cons_of_neg (by simpa using hzz)]
          rfl
      · rw [if_neg fun h => hanywhere ((isMine_anywhere _).mp h).2,
          Option.map_eq_none_iff] at hvalue
        rw [hvalue, if_neg hanywhere]
        rfl
  · have hs' : t.port.state ≠ .endCompleted := hs
    rw [handleMessage, publications, EsphomeEbus.handleMessage, if_pos hs, if_pos hs']
    rfl

end Items

/-! ### Replies -/

/-- One handler on each side, with the same reply to this telegram if they are asked for it. -/
theorem handleResponse_alike {t : Telegram} (ht : t.Plain) {masterAddress : Byte}
    {handler : Handler} {handler' : EsphomeEbus.Telegram → List Byte}
    (h : t.state = .waitForRequestAck → t.getZZ = Elf.toSlave masterAddress →
      t.isRequestValid = true → SameReply (fun _ buf => handler t buf) fun _ => handler' t.port) :
    EsphomeEbus.handleResponse masterAddress [handler'] t.port =
      handleResponse masterAddress [handler] t := by
  have hnone := handleResponse_eq .nil ht masterAddress
  by_cases hasked : t.state = .waitForRequestAck ∧ t.getZZ = Elf.toSlave masterAddress ∧
      t.isRequestValid = true
  · exact (handleResponse_eq (.cons (h hasked.1 hasked.2.1 hasked.2.2) .nil) ht
      masterAddress).symm
  · -- the handlers are not asked
    have hleft : handleResponse masterAddress [handler] t = handleResponse masterAddress [] t := by
      unfold handleResponse
      split
      · rfl
      · rename_i hto
        rw [not_or, not_not, not_not] at hto
        have hvalid : t.isRequestValid = false := by
          rw [← Bool.not_eq_true]
          exact fun hvalid => hasked ⟨hto.1, hto.2, hvalid⟩
        rw [hvalid]
        rfl
    have hright : EsphomeEbus.handleResponse masterAddress [handler'] t.port =
        EsphomeEbus.handleResponse masterAddress [] t.port := by
      unfold EsphomeEbus.handleResponse
      split
      · rfl
      · rename_i hto
        rw [not_or, not_not, not_not] at hto
        have hvalid : t.port.isRequestValid = false := by
          rw [← ht.isRequestValid, ← Bool.not_eq_true]
          exact fun hvalid => hasked ⟨hto.1, hto.2, hvalid⟩
        rw [hvalid]
        rfl
    rw [hleft, hright, hnone]

/-- What the component's driver sends, the reply last. -/
theorem processSymbol_sent (s : EsphomeEbus.Ebus) (call : EsphomeEbus.Call) (real : Byte) :
    (s.processSymbol call real).2.sent = (s.drivenBy call real).qq ++
      (s.drivenBy call real).request ++ (s.processSymbol call real).1.acknowledgeResponse ++
        EsphomeEbus.handleResponse s.config.primaryAddress call.sendResponseHandlers
          (s.processSymbol call real).1.receivingTelegram := by
  rw [EsphomeEbus.Output.sent, EsphomeEbus.Ebus.processSymbol_snd]

/-- What the legacy driver sends, the reply last. -/
theorem processReceivedChar_sent (s : Ebus) (call : Call) : (s.processReceivedChar call).2.sent =
    ((s.beforeDrive call).driveCommand call.receivedByte).sent ++
      (s.processReceivedChar call).1.acknowledgeResponse ++
        handleResponse (s.processReceivedChar call).1.config.masterAddress
          call.sendResponseHandlers (s.processReceivedChar call).1.receivingTelegram := by
  rw [Ebus.processReceivedChar_snd]

/-- **One call of both drivers, whatever their handlers.**  Replies have no part in the state, and
come last in what is sent. -/
theorem lockstep_alike {s : Ebus} {s' : EsphomeEbus.Ebus} {call : Call} {call' : EsphomeEbus.Call}
    (hs : SameState s s') (hbyte : call'.receivedByte = call.receivedByte)
    (hne : call.receivedByte ≠ esc) (hdequeued : SameCommand call.dequeued call'.dequeued) :
    SameState (s.processReceivedChar call).1 (s'.processReceivedChar call').1 ∧
      (s'.processReceivedChar call').2.dequeueCalled =
        (s.processReceivedChar call).2.dequeueCalled ∧
      (s'.processReceivedChar call').2.queued =
        (s.processReceivedChar call).2.queued.map Telegram.port ∧
      (EsphomeEbus.handleResponse s'.config.primaryAddress call'.sendResponseHandlers
          (s.processReceivedChar call).1.receivingTelegram.port =
        handleResponse s'.config.primaryAddress call.sendResponseHandlers
          (s.processReceivedChar call).1.receivingTelegram →
        (s'.processReceivedChar call').2.sent = (s.processReceivedChar call).2.sent) := by
  let quiet : Call := { call with sendResponseHandlers := [] }
  let quiet' : EsphomeEbus.Call := { call' with sendResponseHandlers := [] }
  have hquiet : SameCall quiet quiet' := ⟨hbyte, hne, hdequeued, .nil⟩
  obtain ⟨hstate, hout⟩ := lockstep s s' quiet quiet' hs hquiet
  have hsymbol : ∀ c : EsphomeEbus.Call, c.receivedByte = call.receivedByte →
      s'.processReceivedChar c = s'.processSymbol c c.receivedByte := by
    intro c hc
    simp [EsphomeEbus.Ebus.processReceivedChar, hs.inEsc, hc, hne]
  have hstate' : (s'.processReceivedChar call').1 = (s'.processReceivedChar quiet').1 := by
    rw [hsymbol call' hbyte, hsymbol quiet' hbyte]
    rfl
  refine ⟨hstate' ▸ hstate, ?_, ?_, ?_⟩
  · rw [hsymbol call' hbyte]
    have hdequeue := hout.dequeueCalled
    rw [hsymbol quiet' hbyte] at hdequeue
    exact hdequeue
  · rw [hsymbol call' hbyte]
    have hqueued := hout.queued
    rw [hsymbol quiet' hbyte] at hqueued
    exact hqueued
  · intro hreply
    have hplain : (s.processReceivedChar call).1.receivingTelegram.Plain := hstate.plain
    have hconfig : (s.processReceivedChar call).1.config.masterAddress =
        s'.config.primaryAddress := by
      have h := s'.processReceivedChar_config quiet'
      rw [hstate.config] at h
      exact congrArg EsphomeEbus.Config.primaryAddress h
    have hreceiving := hstate.receivingTelegram
    have hsent := hout.sent
    rw [hsymbol quiet' hbyte] at hreceiving hsent
    rw [processSymbol_sent, hreceiving, processReceivedChar_sent] at hsent
    rw [hsymbol call' hbyte, processSymbol_sent, processReceivedChar_sent, hconfig]
    -- without handlers both replies are the same, and so is what is sent before them
    have hnone := handleResponse_eq .nil hplain s'.config.primaryAddress
    have hbefore := List.append_cancel_right (hsent.trans
      (congrArg (_ ++ ·) ((congrArg (handleResponse · [] _) hconfig).trans hnone)))
    exact congrArg₂ (· ++ ·) hbefore ((congrArg _ hreceiving).trans hreply)

end EsphomeEbus.Zebus
