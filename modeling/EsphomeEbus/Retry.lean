import EsphomeEbus.Lock

/-!
# How often a command sends its QQ

Every way out of an attempt counts a try, except the way back into the second round: there each
further SYN sends the QQ again.  `allowance` is the number of QQs a command may still send when that
does not happen, and every call spends what it sends.

* `allowance`: the potential; `spends`: one call;
* `qq_bounded`: from the call that dequeues a command until it is finished;
* `resends`: the second round on a bus with nothing but SYNs.
-/

namespace EsphomeEbus

open Elf Transducer

/-! ### Tries -/

namespace SendCommand

variable (maxTries : Byte) (c : SendCommand)

/-- The number of tries left; the limit is read as an `int8_t`. -/
def triesLeft : ℕ := (maxTries.toInt - c.triesCount.toNat).toNat

variable {maxTries c}

/-- A try that is granted is one less. -/
theorem triesLeft_canRetry (h : (c.canRetry maxTries).1 = true) :
    (c.canRetry maxTries).2.triesLeft maxTries + 1 = c.triesLeft maxTries := by
  have hlt : (c.triesCount.toNat : ℤ) < maxTries.toInt := by
    rw [canRetry, decide_eq_true_eq] at h
    exact h
  have hmax : maxTries.toInt < 128 := BitVec.toInt_lt
  have hnext : (c.triesCount + 1).toNat = c.triesCount.toNat + 1 := by
    rw [BitVec.toNat_add]
    exact Nat.mod_eq_of_lt (by show c.triesCount.toNat + 1 < 256; omega)
  show (maxTries.toInt - ((c.triesCount + 1).toNat : ℤ)).toNat + 1 = _
  rw [hnext, triesLeft]
  omega

theorem triesLeft_le (h : c.triesCount = 0) : c.triesLeft maxTries ≤ maxTries.toNat := by
  rw [triesLeft, h]
  have hle : maxTries.toInt ≤ maxTries.toNat := by
    rw [BitVec.toInt_eq_toNat_cond]
    split <;> omega
  show (maxTries.toInt - 0).toNat ≤ _
  omega

end SendCommand

/-- The number of QQs a command may still send: two for each try, less what the running attempt has
sent.  In the second round it may send one, until a SYN is the last that was heard. -/
def allowance (maxTries charCount : Byte) (c : SendCommand) : ℕ :=
  match c.state with
  | .waitForSend => 2 * (c.triesLeft maxTries + 1)
  | .waitForArbitration => 2 * c.triesLeft maxTries + 1
  | .waitForArbitration2nd =>
    if charCount = 0 then 2 * c.triesLeft maxTries else 2 * c.triesLeft maxTries + 1
  | .waitForCommandAck => 2 * c.triesLeft maxTries
  | _ => 0

theorem allowance_of_started {c : SendCommand} (h : c.Started) (maxTries charCount : Byte) :
    2 * c.triesLeft maxTries ≤ allowance maxTries charCount c := by
  unfold allowance
  rcases h with (hs | hs) | hs
  · rw [hs]
    exact Nat.le_succ _
  · rw [hs]
    dsimp only
    split
    · exact Nat.le_refl _
    · exact Nat.le_succ _
  · rw [hs]

theorem allowance_of_not_arbitrating {c : SendCommand} (h : ¬ Arbitrating c.toTelegramBase)
    (maxTries charCount charCount' : Byte) :
    allowance maxTries charCount c = allowance maxTries charCount' c := by
  unfold Arbitrating at h
  unfold allowance
  cases hs : c.state with
  | waitForArbitration => exact absurd (.inl hs) h
  | waitForArbitration2nd => exact absurd (.inr hs) h
  | _ => rfl

namespace Ebus

variable {s : Ebus} {call : Call} {b real : Byte} {d : Driven}

/-- The number of calls that send a QQ. -/
def qqCount (s : Ebus) (calls : List Call) : ℕ :=
  total processReceivedChar (fun s call => if (s.processReceivedChar call).2.qq ≠ [] then 1 else 0)
    s calls

/-- A command that waits for the second round is not offered another SYN directly after a SYN. -/
def SingleSecondSyn (s : Ebus) (call : Call) : Prop :=
  s.activeCommand.state = .waitForArbitration2nd → s.inEsc = false → call.receivedByte = syn →
    s.charCountSinceLastSyn ≠ 0

instance (s : Ebus) (call : Call) : Decidable (SingleSecondSyn s call) :=
  inferInstanceAs (Decidable (_ → _ → _ → _))

/-! ### One call -/

/-- A try that fails costs a try, or the command. -/
theorem allowance_retryOrFail (hs : s.activeCommand.Started) (charCount charCount' : Byte) :
    allowance s.config.maxTries charCount' s.retryOrFail.activeCommand ≤
      allowance s.config.maxTries charCount s.activeCommand := by
  have hbefore := allowance_of_started hs s.config.maxTries charCount
  cases hretry : (s.activeCommand.canRetry s.config.maxTries).1 with
  | false =>
    have hafter : s.retryOrFail.activeCommand.state = .endSendFailed := by
      simp [retryOrFail, SendCommand.setState, hretry]
    rw [allowance, hafter]
    exact Nat.zero_le _
  | true =>
    have hafter : s.retryOrFail.activeCommand =
        (s.activeCommand.canRetry s.config.maxTries).2.setState .waitForSend := by
      simp [retryOrFail, hretry]
    have hleft := SendCommand.triesLeft_canRetry hretry
    rw [hafter]
    show 2 * ((s.activeCommand.canRetry s.config.maxTries).2.triesLeft s.config.maxTries + 1) ≤ _
    omega

/-- **What the switch sends it spends.** -/
theorem Drives.spends {charCount charCount' : Byte} (h : Drives s b d)
    (hcond : s.activeCommand.state = .waitForArbitration2nd → b = syn →
      charCount ≠ 0 ∧ charCount' = 0) :
    (if d.qq ≠ [] then 1 else 0) + allowance s.config.maxTries charCount' d.activeCommand ≤
      allowance s.config.maxTries charCount s.activeCommand := by
  cases h with
  | stays harb =>
    rw [if_neg (fun h => h rfl), Nat.zero_add]
    exact Nat.le_of_eq (allowance_of_not_arbitrating harb _ _ _)
  | sendsQq hs _ _ _ =>
    rw [if_pos (uartSendChar_ne_nil _)]
    show 1 + (2 * s.activeCommand.triesLeft s.config.maxTries + 1) ≤ _
    rw [allowance, hs]
    dsimp only
    omega
  | secondRound hs =>
    have hbefore : allowance s.config.maxTries charCount s.activeCommand =
        2 * s.activeCommand.triesLeft s.config.maxTries + 1 := by
      rw [allowance, hs]
    rw [if_neg (fun h => h rfl), Nat.zero_add, hbefore]
    show (if charCount' = 0 then _ else _) ≤ _
    split
    · exact Nat.le_succ _
    · exact Nat.le_refl _
  | sendsQqAgain hs hb =>
    obtain ⟨hcount, hcount'⟩ := hcond hs hb
    rw [if_pos (uartSendChar_ne_nil _)]
    show 1 + allowance s.config.maxTries charCount' s.activeCommand ≤ _
    simp only [allowance, hs, hcount, hcount', if_true, if_false]
    omega
  | wins harb _ =>
    have hbefore := allowance_of_started (.inl harb) s.config.maxTries charCount
    have hqq : s.startRequest.qq = [] := by
      unfold startRequest
      split <;> rfl
    have hafter : allowance s.config.maxTries charCount' s.startRequest.activeCommand ≤
        2 * s.activeCommand.triesLeft s.config.maxTries := by
      rw [startRequest_activeCommand]
      split
      · exact Nat.le_refl _
      · exact Nat.zero_le _
    rw [if_neg (fun h => h hqq)]
    omega
  | acknowledged hs _ =>
    rw [if_neg (fun h => h rfl), Nat.zero_add]
    exact Nat.zero_le _
  | givesUp hs =>
    rw [if_neg (fun h => h rfl), Nat.zero_add]
    exact allowance_retryOrFail hs _ _

/-- **What a call sends it spends.** -/
theorem Processed.spends (hp : Processed s call real)
    (hcond : (s.nextCommand call.dequeued).state = .waitForArbitration2nd →
      call.receivedByte = syn → s.charCountSinceLastSyn ≠ 0) :
    (if (s.processReceivedChar call).2.qq ≠ [] then 1 else 0) +
        allowance s.config.maxTries (s.processReceivedChar call).1.charCountSinceLastSyn
          (s.processReceivedChar call).1.activeCommand ≤
      allowance s.config.maxTries s.charCountSinceLastSyn (s.nextCommand call.dequeued) := by
  have hconfig : (s.beforeDrive call real).config = s.config := s.countSyn_config _
  have hcounts : (s.nextCommand call.dequeued).state = .waitForArbitration2nd →
      call.receivedByte = syn → s.charCountSinceLastSyn ≠ 0 ∧
        (s.countSyn call.receivedByte).charCountSinceLastSyn = 0 := by
    intro hs hb
    exact ⟨hcond hs hb, by rw [hb, countSyn_syn]⟩
  have hspends := (s.drives_drivenBy call real).spends hcounts
  rw [hconfig] at hspends
  rw [hp.qq, hp.charCount, hp.activeCommand]
  exact hspends

/-! ### Whole runs -/

/-- The allowance of the active command. -/
def budget (s : Ebus) : ℕ := allowance s.config.maxTries s.charCountSinceLastSyn s.activeCommand

/-- A call spends from the allowance of a command that is not finished. -/
theorem budget_step (hactive : s.activeCommand.isFinished = false)
    (hcond : SingleSecondSyn s call) :
    (if (s.processReceivedChar call).2.qq ≠ [] then 1 else 0) +
      (s.processReceivedChar call).1.budget ≤ s.budget := by
  obtain ⟨pending, t, heq, -⟩ | ⟨real, hp, hcase⟩ := s.silent_or_processed call
  · rw [heq, if_neg (fun h => h rfl), Nat.zero_add]
    exact Nat.le_refl _
  · have hnext := nextCommand_of_unfinished hactive call.dequeued
    have hspends := hp.spends fun hs hb =>
      hcond (by rwa [hnext] at hs) (inEsc_of_syn hcase hb) hb
    rw [hnext] at hspends
    rw [budget, s.processReceivedChar_config call]
    exact hspends

/-- The call asks the queue for a command, and gets one as its constructor leaves it. -/
structure Dequeues (s : Ebus) (call : Call) (c : SendCommand) : Prop where
  called : (s.processReceivedChar call).2.dequeueCalled = true
  dequeued : call.dequeued = some c
  state : c.state = .waitForSend
  triesCount : c.triesCount = 0

/-- A call that asks for a command processes a symbol, and works on the command it gets. -/
theorem Dequeues.processed {c : SendCommand} (h : s.Dequeues call c) :
    s.nextCommand call.dequeued = c ∧ ∃ real, Processed s call real := by
  have hcalled := h.called
  have hnext : (s.activeCommand.isFinished && s.config.dequeueCommand) = true →
      s.nextCommand call.dequeued = c := by
    intro hask
    rw [Bool.and_eq_true] at hask
    rw [nextCommand, if_pos hask, h.dequeued]
    rfl
  obtain ⟨-, -, heq⟩ | ⟨-, -, -, heq⟩ | ⟨hesc, hb, heq⟩ | ⟨real, -, -, heq⟩ :=
    s.processReceivedChar_cases call
  · rw [heq] at hcalled
    cases hcalled
  · rw [heq] at hcalled
    cases hcalled
  · rw [heq, processSymbol_snd] at hcalled
    exact ⟨hnext hcalled, _, processed_plain call hesc hb⟩
  · rw [heq, processSymbol_snd] at hcalled
    exact ⟨hnext hcalled, real, processed_of_eq heq⟩

/-- **The retry budget.**  From the call that dequeues a command for as long as the command is not
finished, in a run in which it is never offered a second SYN in its second round, the node sends its
QQ at most twice for each of the `max_tries_ + 1` tries. -/
theorem qq_bounded (config : Config) {sofar rest : List Call} {first : Call} {c : SendCommand}
    (hfirst : ((init config).after sofar).Dequeues first c)
    (hactive : Along processReceivedChar (fun s _ => s.activeCommand.isFinished = false)
      ((init config).after (sofar ++ [first])) rest)
    (hcond : Along processReceivedChar SingleSecondSyn ((init config).after (sofar ++ [first]))
      rest) :
    ((init config).after sofar).qqCount (first :: rest) ≤ 2 * (config.maxTries.toNat + 1) := by
  obtain ⟨hnext, real, hp⟩ := hfirst.processed
  rw [after_concat] at hactive hcond
  have hconfig : ((init config).after sofar).config = config := after_config _ _
  generalize (init config).after sofar = s at *
  have hspends := hp.spends fun hs _ => by
    rw [hnext, hfirst.state] at hs
    cases hs
  have hstart : allowance s.config.maxTries s.charCountSinceLastSyn c ≤
      2 * (config.maxTries.toNat + 1) := by
    have htries : c.triesLeft s.config.maxTries ≤ s.config.maxTries.toNat :=
      SendCommand.triesLeft_le hfirst.triesCount
    rw [allowance, hfirst.state, ← hconfig]
    dsimp only
    omega
  have hbudget : (s.processReceivedChar first).1.budget = allowance s.config.maxTries
      (s.processReceivedChar first).1.charCountSinceLastSyn
      (s.processReceivedChar first).1.activeCommand := by
    rw [budget, s.processReceivedChar_config first]
  have hrest := total_le_potential processReceivedChar (Φ := budget)
    (w := fun s call => if (s.processReceivedChar call).2.qq ≠ [] then 1 else 0)
    (fun s call h => budget_step h.1 h.2) _ rest (along_and processReceivedChar hactive hcond)
  rw [hnext] at hspends
  show (if (s.processReceivedChar first).2.qq ≠ [] then 1 else 0) + total _ _ _ rest ≤ _
  omega

/-! ### The second round -/

/-- A SYN in the second round sends the QQ and leaves the command as it was. -/
theorem resends_step (call : Call) (hesc : s.inEsc = false)
    (hs : s.activeCommand.state = .waitForArbitration2nd) (hb : call.receivedByte = syn) :
    (s.processReceivedChar call).1.inEsc = false ∧
      (s.processReceivedChar call).1.activeCommand = s.activeCommand ∧
      (s.processReceivedChar call).2.qq ≠ [] := by
  have hp := processed_plain call hesc (by rw [hb]; decide)
  have hnext := nextCommand_of_unfinished (TelegramBase.isFinished_of_state hs (by decide))
    call.dequeued
  have hactive : (s.beforeDrive call call.receivedByte).activeCommand = s.activeCommand := hnext
  have hdriven : s.drivenBy call call.receivedByte = _ :=
    driveCommand_waitForArbitration2nd (s := s.beforeDrive call call.receivedByte) _
      (by rw [hactive, hs])
  rw [if_pos hb] at hdriven
  refine ⟨hp.inEsc, ?_, ?_⟩
  · rw [hp.activeCommand, hdriven]
    exact hactive
  · rw [hp.qq, hdriven]
    exact uartSendChar_ne_nil _

/-- **On a bus with nothing but SYNs the second round never ends**: the command sends its QQ on
each. -/
theorem resends (hesc : s.inEsc = false) (hs : s.activeCommand.state = .waitForArbitration2nd)
    (n : ℕ) : s.qqCount (quiet (List.replicate n syn)) = n := by
  induction n generalizing s with
  | zero => rfl
  | succ n ih =>
    obtain ⟨hesc', hsame, hqq⟩ := resends_step ⟨syn, none, []⟩ hesc hs rfl
    show (if (s.processReceivedChar ⟨syn, none, []⟩).2.qq ≠ [] then 1 else 0) +
      (s.processReceivedChar ⟨syn, none, []⟩).1.qqCount (quiet (List.replicate n syn)) = n + 1
    rw [if_pos hqq, ih hesc' (by rw [hsame, hs]), Nat.add_comm]

/-- A command to 0x08 that the node 0x10 dequeues with the next SYN. -/
def synWithCommand : Call := ⟨syn, some (.new 0x10#8 0x08#8 0x0704#16 [0x12#8]), []⟩

/-- The first round is lost to 0x00, the second to silence; two QQs for the one try used. -/
theorem qq_bounded_two_rounds :
    ((init (defaultConfig 0x10#8)).after []).qqCount
      (synWithCommand :: quiet [0x00#8, syn, 0x03#8]) ≤ 2 * (2 + 1) :=
  @qq_bounded (defaultConfig 0x10#8) [] _ _ (.new 0x10#8 0x08#8 0x0704#16 [0x12#8])
    ⟨by decide +kernel, rfl, by decide +kernel, by decide +kernel⟩ (by decide +kernel)
    (by decide +kernel)

/-- Without retries two QQs are the limit; four SYNs and an echo of the same class make it four. -/
theorem qq_exceeds_budget :
    let config : Config := { defaultConfig 0x10#8 with maxTries := 0 }
    let s := (init config).after []
    let rest := quiet [0x00#8, syn, syn, syn]
    s.Dequeues synWithCommand (.new 0x10#8 0x08#8 0x0704#16 [0x12#8]) ∧
      Along processReceivedChar (fun s _ => s.activeCommand.isFinished = false)
        (s.processReceivedChar synWithCommand).1 rest ∧
      s.qqCount (synWithCommand :: rest) = 4 ∧ 2 * (config.maxTries.toNat + 1) = 2 := by
  refine ⟨⟨by decide +kernel, rfl, by decide +kernel, by decide +kernel⟩, by decide +kernel⟩

end Ebus

end EsphomeEbus
