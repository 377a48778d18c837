import EsphomeEbus.Command

/-!
# The acknowledge of an own command

After the arbitration the active command waits for an ACK byte, while the bus echoes the request the
node has just sent.  The switch looks at the raw byte alone, so the echo of a zero byte, plain or as
the second byte of an escape pair, is taken for the acknowledge.

* `waits_along`: the command waits through every byte that is neither ACK nor SYN;
* `completes_only_on_ack_iff`: the echo leaves the command alone exactly when the request has
  neither a zero nor an ESC among its values.
-/

namespace EsphomeEbus

open Elf Transducer Stuffing

/-! ### Bytes on the wire -/

/-- What is sent for a value is never a SYN, and a zero only for the values zero and ESC. -/
theorem mem_encode {v b : Byte} (hb : b ∈ wire.encode v) :
    b ≠ syn ∧ (b = ack → v = 0x00#8 ∨ v = 0xA9#8) := by
  by_cases hesc : v = esc
  · subst hesc
    have hcase : b = esc ∨ b = 0x00#8 := by simpa [encode, wire] using hb
    refine ⟨?_, fun _ => .inr rfl⟩
    rcases hcase with rfl | rfl <;> decide
  · by_cases hsyn : v = syn
    · subst hsyn
      have hcase : b = esc ∨ b = 0x01#8 := by
        simpa [encode, wire, show syn ≠ esc by decide] using hb
      rcases hcase with rfl | rfl <;> decide
    · have hcase : b = v := by simpa [encode, wire, hesc, hsyn] using hb
      subst hcase
      exact ⟨hsyn, fun h => .inl h⟩

theorem ack_mem_encode {v : Byte} (hv : v = 0x00#8 ∨ v = 0xA9#8) : ack ∈ wire.encode v := by
  rcases hv with rfl | rfl <;> decide

theorem syn_not_mem_encodeAll (l : List Byte) : syn ∉ wire.encodeAll l := by
  intro h
  obtain ⟨v, -, hb⟩ := List.mem_flatMap.mp h
  exact (mem_encode hb).1 rfl

theorem ack_mem_encodeAll_iff {l : List Byte} :
    ack ∈ wire.encodeAll l ↔ ∃ v ∈ l, v = 0x00#8 ∨ v = 0xA9#8 := by
  constructor
  · intro h
    obtain ⟨v, hv, hb⟩ := List.mem_flatMap.mp h
    exact ⟨v, hv, (mem_encode hb).2 rfl⟩
  · rintro ⟨v, hv, hcase⟩
    exact List.mem_flatMap.mpr ⟨v, hv, ack_mem_encode hcase⟩

namespace Ebus

variable {s : Ebus} {call : Call}

/-! ### A command that waits -/

/-- A zero is never the byte of an early return. -/
theorem processed_of_ack (hb : call.receivedByte = ack) : ∃ real, Processed s call real := by
  apply exists_processed
  · intro _
    rw [hb]
    decide
  · intro _
    exact .inl hb

theorem beforeDrive_activeCommand_of_waiting (hs : s.activeCommand.state = .waitForCommandAck)
    (real : Byte) : (s.beforeDrive call real).activeCommand = s.activeCommand :=
  nextCommand_of_unfinished (TelegramBase.isFinished_of_state hs (by decide)) _

/-- The switch on a command that waits. -/
theorem drivenBy_waiting (hs : s.activeCommand.state = .waitForCommandAck) (real : Byte) :
    s.drivenBy call real =
      if call.receivedByte = ack then (s.beforeDrive call real).completeCommand
      else if call.receivedByte = syn then (s.beforeDrive call real).retryOrFail
      else (s.beforeDrive call real).stay := by
  apply driveCommand_waitForCommandAck
  rw [beforeDrive_activeCommand_of_waiting hs, hs]

/-- **The command waits** through a byte that is neither ACK nor SYN. -/
theorem waits (hs : s.activeCommand.state = .waitForCommandAck) (hack : call.receivedByte ≠ ack)
    (hsyn : call.receivedByte ≠ syn) :
    (s.processReceivedChar call).1.activeCommand = s.activeCommand := by
  obtain ⟨pending, t, heq, -⟩ | ⟨real, hp, -⟩ := s.silent_or_processed call
  · rw [heq]
  · rw [hp.activeCommand, drivenBy_waiting hs, if_neg hack, if_neg hsyn]
    exact beforeDrive_activeCommand_of_waiting hs real

/-- **An ACK byte completes the command**, wherever it comes from. -/
theorem completes (hs : s.activeCommand.state = .waitForCommandAck)
    (hack : call.receivedByte = ack) :
    (s.processReceivedChar call).1.activeCommand = s.activeCommand.setState .endCompleted := by
  obtain ⟨real, hp⟩ := processed_of_ack (s := s) hack
  rw [hp.activeCommand, drivenBy_waiting hs, if_pos hack]
  show ((s.beforeDrive call real).activeCommand).setState .endCompleted = _
  rw [beforeDrive_activeCommand_of_waiting hs]

/-- Nothing else completes a command that waits. -/
theorem ack_of_completes (hs : s.activeCommand.state = .waitForCommandAck)
    (hc : (s.processReceivedChar call).1.activeCommand.state = .endCompleted) :
    call.receivedByte = ack := by
  by_contra hack
  by_cases hsyn : call.receivedByte = syn
  · obtain ⟨pending, t, heq, -⟩ | ⟨real, hp, -⟩ := s.silent_or_processed call
    · rw [heq, hs] at hc
      cases hc
    · rw [hp.activeCommand, drivenBy_waiting hs, if_neg hack, if_pos hsyn] at hc
      rcases retryOrFail_state (s := s.beforeDrive call real) with h | h
      · rw [h] at hc
        cases hc
      · rw [h] at hc
        cases hc
  · rw [waits hs hack hsyn, hs] at hc
    cases hc

/-- The command waits through bytes that are neither ACK nor SYN. -/
theorem waits_along (calls : List Call) (hs : s.activeCommand.state = .waitForCommandAck)
    (h : ∀ call ∈ calls, call.receivedByte ≠ ack ∧ call.receivedByte ≠ syn) :
    (s.after calls).activeCommand = s.activeCommand := by
  apply run_keeps processReceivedChar (I := fun s' => s'.activeCommand = s.activeCommand)
    (C := fun _ call => call.receivedByte ≠ ack ∧ call.receivedByte ≠ syn)
  · intro s' call hsame hbyte
    rw [waits (by rw [hsame, hs]) hbyte.1 hbyte.2, hsame]
  · rfl
  · exact along_of_forall processReceivedChar s calls h

/-! ### The echo of the request -/

/-- The command is not completed before the echo of `request` has been received, and after it only
an ACK byte completes it. -/
structure AwaitsAcknowledge (s : Ebus) (request : List Byte) : Prop where
  duringEcho : ∀ echo, bytesOf echo <+: request →
    (s.after echo).activeCommand.state = .waitForCommandAck
  afterEcho : ∀ echo more call, bytesOf echo = request →
    (s.after (echo ++ more)).activeCommand.state = .waitForCommandAck →
    (s.after (echo ++ more ++ [call])).activeCommand.state = .endCompleted →
    call.receivedByte = ack

/-- A command that waits for its acknowledge waits through the echo of the values sent if and only
if the echo has no ACK byte. -/
theorem awaitsAcknowledge_iff (hs : s.activeCommand.state = .waitForCommandAck) (vs : List Byte) :
    AwaitsAcknowledge s (wire.encodeAll vs) ↔ ∀ b ∈ vs, b ≠ 0x00#8 ∧ b ≠ 0xA9#8 := by
  constructor
  · intro h b hb
    by_contra hcase
    rw [not_and_or, not_not, not_not] at hcase
    -- up to the zero the command waits, and the zero completes it
    obtain ⟨pre, post, hsplit⟩ := List.append_of_mem (ack_mem_encodeAll_iff.mpr ⟨b, hb, hcase⟩)
    have hbefore := h.duringEcho (quiet pre) (by
      rw [bytesOf_quiet, hsplit]
      exact List.prefix_append pre _)
    have hafter := h.duringEcho (quiet pre ++ [⟨ack, none, []⟩]) (by
      have hbytes : bytesOf (quiet pre ++ [⟨ack, none, []⟩]) = pre ++ [ack] := by
        rw [bytesOf, List.map_append]
        exact congrArg (· ++ [ack]) (bytesOf_quiet pre)
      rw [hbytes, hsplit]
      exact ⟨post, by simp⟩)
    rw [after_concat, completes hbefore rfl] at hafter
    cases hafter
  · intro h
    refine ⟨fun echo hecho => ?_, fun echo more call _ hwait hc => ?_⟩
    · rw [waits_along echo hs, hs]
      intro call hcall
      have hmem : call.receivedByte ∈ wire.encodeAll vs :=
        hecho.subset (List.mem_map_of_mem hcall)
      refine ⟨fun hack => ?_, fun hsyn => ?_⟩
      · rw [hack, ack_mem_encodeAll_iff] at hmem
        obtain ⟨v, hv, hcase⟩ := hmem
        obtain ⟨h0, h9⟩ := h v hv
        rcases hcase with h' | h'
        · exact h0 h'
        · exact h9 h'
      · rw [hsyn] at hmem
        exact syn_not_mem_encodeAll _ hmem
    · rw [after_concat] at hc
      exact ack_of_completes hwait hc

/-- **A command completes only on the addressee's acknowledge**, for a call that wins the
arbitration for a command with an acknowledge, if and only if no value of the request after QQ is a
zero or an ESC. -/
theorem completes_only_on_ack_iff (qq zz : Byte) (command : BitVec 16) {data : List Byte}
    (hlen : data.length < maxDataLength) (hzz : zz ≠ broadcastAddress) {win : Call}
    (hwin : (s.processReceivedChar win).2.request ≠ [])
    (hcmd : (s.processReceivedChar win).1.activeCommand.request =
      (SendCommand.new qq zz command data).request) :
    AwaitsAcknowledge (s.processReceivedChar win).1 (s.processReceivedChar win).2.request ↔
      ∀ b ∈ (withCrc (requestBytes qq zz command data)).tail, b ≠ 0x00#8 ∧ b ≠ 0xA9#8 := by
  obtain ⟨-, -, hrequest, hactive⟩ := request_sent hwin
  have hnext : (s.nextCommand win.dequeued).request =
      (SendCommand.new qq zz command data).request := by
    rw [← hcmd, hactive]
    rfl
  have hexpected : (s.nextCommand win.dequeued).isAckExpected = true := by
    have hsame : (s.nextCommand win.dequeued).getZz = zz := by
      rw [← SendCommand.getZz_new qq zz command hlen, TelegramBase.getZz, hnext]
      rfl
    rw [TelegramBase.isAckExpected_iff, hsame]
    exact hzz
  rw [hexpected, if_pos rfl] at hactive
  have hs : (s.processReceivedChar win).1.activeCommand.state = .waitForCommandAck := by
    rw [hactive]
    rfl
  rw [hrequest, uartSendRemainingRequestPart_congr hnext,
    uartSendRemainingRequestPart_new _ _ _ hlen]
  exact awaitsAcknowledge_iff hs _

/-- The node 0x10 has dequeued a command and sent its QQ. -/
def contender (command : SendCommand) : Ebus :=
  (init (defaultConfig 0x10#8)).after [⟨syn, some command, []⟩]

/-- A request without zeros wins, and waits through its own echo. -/
theorem echo_without_zero :
    let step := (contender (.new 0x10#8 0x08#8 0x0704#16 [0x12#8])).processReceivedChar
      ⟨0x10#8, none, []⟩
    AwaitsAcknowledge step.1 step.2.request ↔
      ∀ b ∈ (withCrc (requestBytes 0x10#8 0x08#8 0x0704#16 [0x12#8])).tail,
        b ≠ 0x00#8 ∧ b ≠ 0xA9#8 :=
  completes_only_on_ack_iff 0x10#8 0x08#8 0x0704#16 (by decide) (by decide) (by decide +kernel)
    (by decide +kernel)

/-- A request without data has the zero of its length in its echo, which completes the command. -/
theorem echo_of_length_completes :
    let step := (contender (.new 0x10#8 0x08#8 0x0704#16 [])).processReceivedChar
      ⟨0x10#8, none, []⟩
    step.2.request ≠ [] ∧
      step.1.activeCommand.request = (SendCommand.new 0x10#8 0x08#8 0x0704#16 []).request ∧
      ¬ AwaitsAcknowledge step.1 step.2.request := by
  refine ⟨by decide +kernel, by decide +kernel, fun h => ?_⟩
  have hwait := h.duringEcho (quiet [0x08#8, 0x07#8, 0x04#8, 0x00#8]) (by decide +kernel)
  revert hwait
  decide +kernel

end Ebus

end EsphomeEbus
