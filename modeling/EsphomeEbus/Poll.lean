import EsphomeEbus.Configured
import EsphomeEbus.Exchange

/-!
# A poll and its answer

An item polls, the driver sends the request, a device that is not of this code answers, and the item
publishes what it reads off the response.

* `Item.reading`, `Item.Fits`: what an item makes of a response;
* `Asks`, `Concerns`: the messages that an item asks for and looks for;
  `Concerns.processReceived`: what the item publishes for a telegram that carries one;
* `poll_answered`: from the command in the driver to the publication.
-/

namespace EsphomeEbus

open Elf Transducer

/-! ### The message an item asks for -/

/-- The message is a request as the item's poll, from this address. -/
structure Message.Asks (m : Message) (item : EbusItem) (primaryAddress : Byte) : Prop where
  qq : m.qq = primaryAddress
  zz : m.zz = item.address
  command : m.command = item.command
  data : m.data = item.payload

section Asks

variable {t : Telegram} {m : Message} {item : EbusItem} {primaryAddress : Byte}

theorem Message.Asks.prepareCommand (h : m.Asks item primaryAddress)
    (hpoll : item.sendPoll = true) : item.prepareCommand primaryAddress = some m.sendCommand := by
  rw [EbusItem.prepareCommand, if_pos hpoll, ← h.qq, ← h.zz, ← h.command, ← h.data]
  rfl

/-- The data of a telegram that carries a message. -/
theorem Carries.requestData_eq (h : Carries t m) : t.requestData = m.data := by
  refine map_range_eq h.nn.symm fun i hi => ?_
  have hbyte := h.data i (h.nn ▸ hi)
  rw [t.getRequestByte_eq (Nat.le_succ_of_le hi.le), if_pos hi.le] at hbyte
  rw [List.getD_eq_getElem _ _ (h.nn ▸ hi)]
  exact BitVec.eq_of_toNat_eq (Int.ofNat.inj hbyte)

/-- The message is one that the item looks for. -/
structure Message.Concerns (m : Message) (item : EbusItem) : Prop where
  zz : item.ForAddress m.zz
  command : m.command = item.command
  data : item.payload <+: m.data

theorem Message.Asks.concerns (h : m.Asks item primaryAddress) : m.Concerns item :=
  ⟨.inr h.zz.symm, h.command, h.data ▸ List.prefix_rfl⟩

/-- A telegram that carries the message is the item's own. -/
theorem Message.Concerns.isMine (h : m.Concerns item) (ht : Carries t m) :
    item.isMine t = true := by
  rw [EbusItem.isMine_iff, ht.requestData_eq, ht.zz]
  exact ⟨h.zz, ht.command.trans h.command, h.data.trans (List.prefix_append _ _)⟩

end Asks

/-! ### What an item makes of a response -/

namespace Item

variable {F : Type*}

/-- What the item reads off a response. -/
def reading (divide : BitVec 32 → F → F) (response : List Byte) : Item F → Publication F
  | sensor s => .number (divide (BitVec.ofNat 32 (littleEndian
      ((response.drop s.responsePosition.toNat).take (min 4 s.responseBytes.toNat))))
      s.responseDivider)
  | binarySensor s => .state (response.getD s.responsePosition.toNat 0 &&& s.mask != 0)

/-- The response has the bytes that the item reads. -/
def Fits (response : List Byte) : Item F → Prop
  | sensor s => s.responsePosition.toNat + min 4 s.responseBytes.toNat ≤ response.length
  | binarySensor s => s.responsePosition.toNat < response.length

end Item

section Reading

variable {F : Type*} {divide : BitVec 32 → F → F} {t : Telegram} {m : Message} {item : Item F}

/-- One byte of the response of a message. -/
theorem Carries.getResponseBytes_one (h : Carries t m)
    (htype : m.sendCommand.getType = .primarySecondary) {start : Byte}
    (hlen : start.toNat < m.response.length) :
    (getResponseBytes t start 1).setWidth 8 = m.response.getD start.toNat 0 := by
  have hfits : start.toNat + min 4 (1 : Byte).toNat ≤ m.response.length := by
    show start.toNat + 1 ≤ _
    omega
  have hbytes := h.getResponseBytes_eq htype hfits
  have hone : (m.response.drop start.toNat).take 1 = [m.response[start.toNat]] := by
    rw [List.take_one, List.head?_drop, List.getElem?_eq_getElem hlen]
    rfl
  apply BitVec.eq_of_toNat_eq
  rw [BitVec.toNat_setWidth, hbytes, List.getD_eq_getElem _ _ hlen]
  show littleEndian ((m.response.drop start.toNat).take 1) % 256 = _
  rw [hone]
  show (m.response[start.toNat].toNat + 256 * 0) % 256 = _
  omega

/-- **What an item publishes** for a telegram that carries a message it looks for. -/
theorem Message.Concerns.processReceived (h : m.Concerns item.toEbusItem)
    (ht : Carries t m) (htype : m.sendCommand.getType = .primarySecondary)
    (hfits : item.Fits m.response) :
    item.processReceived divide t = some (item.reading divide m.response) := by
  have hmine := h.isMine ht
  cases item with
  | sensor s =>
    have hmine' : s.isMine t = true := hmine
    have hbytes := ht.getResponseBytes_eq htype hfits
    rw [Item.processReceived, EbusSensor.processReceived, hmine', EbusSensor.toFloat, Item.reading,
      ← hbytes, BitVec.ofNat_toNat, BitVec.setWidth_eq]
    rfl
  | binarySensor s =>
    have hmine' : s.isMine t = true := hmine
    rw [Item.processReceived, EbusBinarySensor.processReceived_eq, hmine',
      ht.getResponseBytes_one htype hfits]
    rfl

end Reading

/-! ### The driver -/

namespace Ebus

/-- The driver is about to send the request of a message, on a clean bus. -/
structure Ready (s : Ebus) (m : Message) : Prop where
  inEsc : s.inEsc = false
  idle : Idle s.receivingTelegram
  charCount : s.charCountSinceLastSyn ≠ 1
  unlocked : s.lockCounter ≤ 1
  state : s.activeCommand.state = .waitForSend
  request : s.activeCommand.request = m.sendCommand.request

/-- **An answered request**, as one run of the driver: it sends the request and acknowledges the
response, completes its command, and queues the telegram last. -/
theorem Ready.answered {s : Ebus} {m : Message} {config : Config} (h : s.Ready m)
    (hs : Reachable config s) (hq : config.queueReceivedTelegram = true)
    (hself : m.qq = config.primaryAddress) (htype : m.sendCommand.getType = .primarySecondary)
    (hzz : m.zz ≠ toSecondary config.primaryAddress) {calls : List Call}
    (hcalls : bytesOf calls = syn :: (m.wireForm ++ [syn])) (hd : ∀ call ∈ calls, HandsOver call) :
    wire.encodeAll m.request ++ [ack, syn] <+:
        (outputs processReceivedChar s calls).flatMap Output.sent ∧
      (∃ done rest, calls = done ++ rest ∧ (s.after done).activeCommand.state = .endCompleted ∧
        (s.after done).activeCommand.request = m.sendCommand.request) ∧
      ∃ earlier t, s.queuedDuring calls = earlier ++ [t] ∧ Carries t m := by
  obtain ⟨first, calls, rfl, hfirst, hrest⟩ := List.map_eq_cons_iff.mp hcalls
  obtain ⟨calls, last, rfl, hmessage, hlast⟩ := List.map_eq_append_iff.mp hrest
  obtain ⟨final, rfl, hfinal⟩ := List.map_eq_singleton_iff.mp hlast
  obtain ⟨hstarted, hsent⟩ := started hs h.inEsc h.idle h.charCount h.unlocked h.state h.request
    hself htype hzz hfirst
  have hconfig : (s.processReceivedChar first).1.config = config := by
    rw [processReceivedChar_config, hs.config]
  have hnosyn : NoSyn calls := by
    intro call hcall
    refine ⟨fun hsyn => ?_, hd call (by simp [hcall])⟩
    have hmem : call.receivedByte ∈ m.wireForm := hmessage ▸ List.mem_map_of_mem hcall
    rw [hsyn, m.wireForm_eq] at hmem
    exact syn_not_mem_encodeAll _ hmem
  refine ⟨?_, ?_, ?_⟩
  · have hmiddle : (outputs processReceivedChar (s.processReceivedChar first).1 calls).flatMap
        Output.sent = uartSendRemainingRequestPart m.sendCommand ++ [ack, syn] := by
      rw [List.flatMap_def, hstarted.transmissions hmessage hnosyn]
      simp
    rw [outputs_cons, outputs_append, List.flatMap_cons, List.flatMap_append, hsent, hmiddle,
      Bus.encodeAll_request, ← List.append_assoc]
    exact List.prefix_append _ _
  · obtain ⟨done, rest, rfl, hcompleted, hrequest, -⟩ := hstarted.completes hmessage hnosyn
    exact ⟨first :: done, rest ++ [final], by simp, hcompleted, hrequest⟩
  · obtain ⟨t, hnone, hqueued, hcarries⟩ :=
      hstarted.queues (by rw [hconfig]; exact hq) hmessage hfinal
    refine ⟨(s.processReceivedChar first).2.queued, t, ?_, hcarries⟩
    have hrest : (s.processReceivedChar first).1.queuedDuring (calls ++ [final]) = [t] := by
      rw [queuedDuring_concat, hnone, hqueued]
      rfl
    rw [← hrest]
    rfl

end Ebus

namespace EbusComponent

variable {Q : QueueApi Byte} {F : Type*} {P : Platform Q F} {c : EbusComponent Q F}
  {settings : ComponentSettings F}

/-! ### From the command to the publication -/

section Answered

variable (hQ : Q.Lawful) (hP : P.memory.Spares)

include hQ hP

theorem length_called_le (h : c.Sized) (a : ComponentStep) :
    (c.step P a).2.called.length ≤ 1 := by
  cases a with
  | byte b =>
    rw [step_byte hQ hP h]
    exact Nat.le_refl 1
  | task t =>
    obtain ⟨-, -, hcalled, -⟩ := (c.turn_taskStep P t).frame
    show (c.taskStep P t).2.called.length ≤ 1
    rw [hcalled]
    exact Nat.zero_le 1

/-- Where every telegram found room and the message task has caught up, all that were queued have
been handled. -/
theorem handled_run (h : c.Kept settings) {as : List ComponentStep}
    (hroom : Along (step P) (HasRoom P) c as) (hempty : (run (step P) c as).history = []) :
    (outputs (step P) c as).flatMap ComponentOutput.handled =
      c.history ++ c.ebus.queuedDuring (callsOf P c as) := by
  have hflow : (outputs (step P) c as).flatMap ComponentOutput.handled ++
      (run (step P) c as).history = _ := run_accepted hQ hP h as
  rw [hempty, List.append_nil, (accepted_eq_queued_iff hQ hP h.sized as).mpr hroom] at hflow
  exact hflow

/-- **A poll that is answered ends in a publication.**  In any run of a configured component that
has got to where its driver is about to send what a polling item asks another node for, let a SYN,
the message with its response and another SYN be received, whatever the other tasks do in between.
Then the driver sends the request and acknowledges the response, the command is completed, and if no
telegram finds the history queue full, and the message task catches up, then the last telegram
handled carries the message, and the item publishes what it reads off the response. -/
theorem poll_answered (hc : setup Q settings = some c) (hconf : settings.Configured)
    {before as : List ComponentStep} {item : Item F} {m : Message}
    (hready : (run (step P) c before).ebus.Ready m)
    (hitem : item ∈ settings.items) (hasks : m.Asks item.toEbusItem settings.primaryAddress)
    (htype : m.sendCommand.getType = .primarySecondary)
    (hother : m.zz ≠ toSecondary settings.primaryAddress)
    (hbytes : as.flatMap ComponentStep.bytes = syn :: (m.wireForm ++ [syn])) :
    let c' := run (step P) c before
    let os := outputs (step P) c' as
    wire.encodeAll m.request ++ [ack, syn] <+: os.flatMap ComponentOutput.sent ∧
      (∃ sofar, sofar <+: as ∧
        (run (step P) c' sofar).ebus.activeCommand.state = .endCompleted ∧
        (run (step P) c' sofar).ebus.activeCommand.request = m.sendCommand.request) ∧
      (item.Fits m.response → Along (step P) (HasRoom P) c' as →
        (run (step P) c' as).history = [] →
        ∃ earlier t, os.flatMap ComponentOutput.handled = earlier ++ [t] ∧ Carries t m ∧
          (item, item.reading P.divide m.response) ∈ os.flatMap ComponentOutput.published) := by
  intro c' os
  have hstart : c.Sound settings := sound_setup hQ hc
  have hsound : c'.Sound settings := hstart.run hQ hconf hP before
  have hreach : Ebus.Reachable settings.config c'.ebus := by
    rw [show c'.ebus = c.ebus.after _ from ebus_run hQ hP hstart.sized before,
      (setup_eq_some hc).2.2.2.1]
    exact Ebus.reachable_after _ _
  obtain ⟨hsent, ⟨done, rest, hsplit, hcompleted, hrequest⟩, earlier, t, hqueued, hcarries⟩ :=
    hready.answered hreach rfl hasks.qq htype hother
      ((bytesOf_callsOf hQ hP hsound.sized as).trans hbytes)
      fun _ hc => hsound.handsOver_callsOf hQ hconf hP as hc
  refine ⟨?_, ?_, fun hfits hroom hempty => ?_⟩
  · rw [show os.flatMap ComponentOutput.sent = _ from sent_run hQ hP hsound.sized as]
    exact hsent
  · obtain ⟨sofar, hprefix, hsofar⟩ := prefix_unrolled (unrolls hQ hP)
      (fun _ a h => length_called_le hQ hP h a) c' hsound.sized as hsplit
    refine ⟨sofar, hprefix, ?_⟩
    rw [ebus_run hQ hP hsound.sized, show callsOf P c' sofar = done from hsofar]
    exact ⟨hcompleted, hrequest⟩
  · have hhandled : os.flatMap ComponentOutput.handled = c'.history ++ earlier ++ [t] := by
      rw [List.append_assoc, ← hqueued]
      exact handled_run hQ hP hsound.toKept hroom hempty
    refine ⟨_, t, hhandled, hcarries, ?_⟩
    rw [show os.flatMap ComponentOutput.published = _ from published_run hQ hP hsound.sized as,
      hhandled, List.mem_flatMap]
    refine ⟨t, List.mem_append_right _ (List.mem_singleton_self t), mem_publications.mpr ?_⟩
    exact ⟨hcarries.completed, hsound.sameSettings ▸ hitem,
      hasks.concerns.processReceived hcarries htype hfits⟩

end Answered

theorem configured_asking : askingSettings.Configured := by
  refine ⟨by decide, fun item hitem _ => ?_⟩
  obtain rfl := List.mem_singleton.mp hitem
  exact ⟨by decide, by decide⟩

/-- The sensor publishes the byte of the response. -/
theorem asking_publishes : (asking, Publication.number 0xA9) ∈
    (outputs (step dividing) (run (step dividing) (bounded askingSettings) asked)
      answered).flatMap ComponentOutput.published := by
  have hready : (run (step dividing) (bounded askingSettings) asked).ebus.Ready
      Ebus.sampleMessage :=
    ⟨by decide +kernel, by decide +kernel, by decide +kernel, by decide +kernel,
      by decide +kernel, by decide +kernel⟩
  have hbytes : answered.flatMap ComponentStep.bytes =
      syn :: (Ebus.sampleMessage.wireForm ++ [syn]) := by decide +kernel
  obtain ⟨-, -, hpublished⟩ := poll_answered lawful_bounded spares_dividing setup_asking
    configured_asking hready (List.mem_singleton_self asking) ⟨rfl, rfl, rfl, rfl⟩ (by decide)
    (by decide) hbytes
  obtain ⟨-, -, -, -, h⟩ := hpublished (Nat.le_refl 1) (by decide +kernel) (by decide +kernel)
  exact h

end EbusComponent

end EsphomeEbus
