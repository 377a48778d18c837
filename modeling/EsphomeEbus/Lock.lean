import EsphomeEbus.Command

/-!
# The bus lock

A command that completes arms the lock counter, every SYN of the normal kind counts it down, and a
QQ is sent only where it is zero.  The second round of the arbitration and the acknowledge do not
look at it; that it is zero there is an invariant.

* `Drives.lock`, `Drives.started`, `Drives.sends`: the switch over the active command and the lock;
* `unlocked_step`: a command that has started finds the bus unlocked, and every call keeps this;
* `lock_le_step`: a call takes at most one off the lock, and that for a normal SYN;
* `lock_respected`: between a completed command and the next QQ there are enough normal SYNs.
-/

namespace EsphomeEbus

open Elf Transducer

/-- The command has sent its QQ, and waits for the bus or for its acknowledge. -/
def SendCommand.Started (c : SendCommand) : Prop :=
  Arbitrating c.toTelegramBase ∨ c.state = .waitForCommandAck

theorem SendCommand.not_started_of_state {c : SendCommand} {state : TelegramState}
    (hs : c.state = state)
    (h : ¬ ((state = .waitForArbitration ∨ state = .waitForArbitration2nd) ∨
      state = .waitForCommandAck)) : ¬ c.Started := by
  unfold Started Arbitrating
  rw [hs]
  exact h

namespace Ebus

variable {s : Ebus} {call : Call} {b real : Byte} {d : Driven}

/-- The queue hands over commands that wait to be sent. -/
def Delivers (call : Call) : Prop := ∀ c ∈ call.dequeued, c.state = .waitForSend

instance (call : Call) : Decidable (Delivers call) :=
  inferInstanceAs (Decidable (∀ c ∈ call.dequeued, _))

/-- The call processes a SYN, and classifies it as normal. -/
def NormalSyn (s : Ebus) (call : Call) : Prop :=
  s.inEsc = false ∧ call.receivedByte = syn ∧ (s.processReceivedChar call).1.state = .normal

instance (s : Ebus) (call : Call) : Decidable (NormalSyn s call) :=
  inferInstanceAs (Decidable (_ ∧ _ ∧ _))

/-- The number of normal SYNs processed during some calls. -/
def normalSyns (s : Ebus) (calls : List Call) : ℕ :=
  total processReceivedChar (fun s call => if NormalSyn s call then 1 else 0) s calls

/-- A command that has started finds the bus unlocked. -/
def Unlocked (s : Ebus) : Prop := s.activeCommand.Started → s.lockCounter = 0

/-! ### The switch and the lock -/

/-- The switch leaves the lock alone, or it completes a command that has started and arms it. -/
theorem Drives.lock (h : Drives s b d) :
    d.lockCounter = s.lockCounter ∧
        (d.activeCommand.state = .endCompleted → s.activeCommand.state = .endCompleted) ∨
      s.activeCommand.Started ∧ d.lockCounter = s.config.maxLockCounter ∧
        d.activeCommand.state = .endCompleted := by
  cases h with
  | stays _ => exact .inl ⟨rfl, id⟩
  | sendsQq _ _ _ _ => exact .inl ⟨rfl, fun h => by cases h⟩
  | secondRound _ => exact .inl ⟨rfl, fun h => by cases h⟩
  | sendsQqAgain _ _ => exact .inl ⟨rfl, id⟩
  | wins harb _ =>
    unfold startRequest
    split
    · exact .inl ⟨rfl, fun h => by cases h⟩
    · exact .inr ⟨.inl harb, rfl, rfl⟩
  | acknowledged hs _ => exact .inr ⟨.inr hs, rfl, rfl⟩
  | givesUp _ =>
    refine .inl ⟨rfl, fun h => ?_⟩
    rcases s.retryOrFail_state with hs | hs
    · rw [hs] at h
      cases h
    · rw [hs] at h
      cases h

/-- A command starts where the bus is unlocked. -/
theorem Drives.started (h : Drives s b d) (hd : d.activeCommand.Started) :
    s.activeCommand.Started ∨ s.lockCounter = 0 := by
  cases h with
  | stays _ => exact .inl hd
  | sendsQq _ _ _ hlock => exact .inr hlock
  | secondRound hs => exact .inl (.inl (.inl hs))
  | sendsQqAgain hs _ => exact .inl (.inl (.inr hs))
  | wins harb _ => exact .inl (.inl harb)
  | acknowledged hs _ => exact .inl (.inr hs)
  | givesUp hs => exact .inl hs

/-- The QQ is sent on a SYN, with the bus unlocked or by a command that has started. -/
theorem Drives.sends (h : Drives s b d) (hd : d.qq ≠ []) :
    b = syn ∧ d.lockCounter = s.lockCounter ∧
      (s.activeCommand.Started ∨ s.lockCounter = 0) := by
  cases h with
  | sendsQq _ hb _ hlock => exact ⟨hb, rfl, .inr hlock⟩
  | sendsQqAgain hs hb => exact ⟨hb, rfl, .inl (.inl (.inr hs))⟩
  | wins _ _ =>
    unfold startRequest at hd
    split at hd <;> exact absurd rfl hd
  | _ => exact absurd rfl hd

/-! ### One call -/

variable (s call real) in
/-- What the switch does during a call. -/
theorem drives_drivenBy :
    Drives (s.beforeDrive call real) call.receivedByte (s.drivenBy call real) :=
  drives _ _

/-- A started command is the one that was active before the call. -/
theorem nextCommand_of_started (hd : Delivers call)
    (h : (s.nextCommand call.dequeued).Started) :
    s.nextCommand call.dequeued = s.activeCommand := by
  rcases s.nextCommand_cases call.dequeued with hsame | ⟨-, hmem⟩
  · exact hsame
  · exact absurd h (SendCommand.not_started_of_state (hd _ hmem) (by decide))

theorem countSyn_lock_of_zero (h : s.lockCounter = 0) : (s.countSyn b).lockCounter = 0 := by
  rw [countSyn]
  split
  · show (if _ then _ else s.lockCounter) = 0
    rw [h]
    rfl
  · exact h

/-- Before the switch, a started command still finds the bus unlocked. -/
theorem Unlocked.beforeDrive (h : s.Unlocked) (hd : Delivers call)
    (hstarted : (s.beforeDrive call real).activeCommand.Started) :
    s.lockCounter = 0 ∧ (s.beforeDrive call real).lockCounter = 0 := by
  have hnext := nextCommand_of_started (s := s) hd hstarted
  have hsame : (s.beforeDrive call real).activeCommand = s.activeCommand := hnext
  rw [hsame] at hstarted
  exact ⟨h hstarted, countSyn_lock_of_zero (h hstarted)⟩

/-- **A started command finds the bus unlocked**, after every call. -/
theorem unlocked_step (h : s.Unlocked) (hd : Delivers call) :
    (s.processReceivedChar call).1.Unlocked := by
  obtain ⟨pending, t, heq, -⟩ | ⟨real, hp, -⟩ := s.silent_or_processed call
  · rw [heq]
    exact h
  · intro hstarted
    have hdrives := s.drives_drivenBy call real
    rw [hp.activeCommand] at hstarted
    rw [hp.lockCounter]
    rcases hdrives.lock with ⟨hlock, -⟩ | ⟨-, -, hend⟩
    · rw [hlock]
      rcases hdrives.started hstarted with hbefore | hzero
      · exact (h.beforeDrive hd hbefore).2
      · exact hzero
    · exact absurd hstarted (SendCommand.not_started_of_state hend (by decide))

/-- A SYN outside an escape pair is normal, unless it is the second one of an arbitration. -/
theorem normalSyn_iff (hesc : s.inEsc = false) (hb : call.receivedByte = syn) :
    NormalSyn s call ↔ s.charCountSinceLastSyn ≠ 1 := by
  have hsymbol : s.processReceivedChar call = s.processSymbol call call.receivedByte := by
    simp [processReceivedChar, hesc, hb, show syn ≠ esc by decide]
  rw [NormalSyn, and_iff_right hesc, and_iff_right hb, hsymbol, processSymbol_fst, beforeDrive, hb,
    countSyn_syn]
  show (if s.charCountSinceLastSyn = 1 then EbusState.arbitration else .normal) = .normal ↔ _
  split
  · rename_i hcount
    exact iff_of_false (by decide) fun h => h hcount
  · rename_i hcount
    exact iff_of_true rfl hcount

/-- Counting takes at most one off the lock, and that for a normal SYN. -/
theorem lock_le_countSyn (hsyn : call.receivedByte = syn → s.inEsc = false) :
    s.lockCounter.toNat ≤ (if NormalSyn s call then 1 else 0) +
      (s.countSyn call.receivedByte).lockCounter.toNat := by
  by_cases hb : call.receivedByte = syn
  · rw [if_congr (normalSyn_iff (hsyn hb) hb) rfl rfl, hb, countSyn_syn]
    dsimp only
    by_cases hcount : s.charCountSinceLastSyn = 1
    · simp [hcount]
    · by_cases hlock : s.lockCounter > 0
      · have hsub : (s.lockCounter - 1).toNat = s.lockCounter.toNat - 1 := by bv_omega
        simp only [hcount, hlock, ne_eq, not_false_eq_true, and_self, if_true, hsub]
        omega
      · rw [if_neg (fun h : s.lockCounter > 0 ∧ _ => hlock h.1)]
        exact Nat.le_add_left _ _
  · rw [countSyn_of_ne_syn _ hb]
    exact Nat.le_add_left _ _

/-- A symbol that is processed is a SYN only outside an escape pair. -/
theorem inEsc_of_syn {P : Prop} (h : s.inEsc = false ∧ P ∨
      s.inEsc = true ∧ (call.receivedByte = 0x00#8 ∨ call.receivedByte = 0x01#8))
    (hb : call.receivedByte = syn) : s.inEsc = false := by
  rcases h with ⟨hesc, -⟩ | ⟨-, hpair⟩
  · exact hesc
  · rw [hb] at hpair
    exact absurd hpair (by decide)

/-- **What a call takes off the lock.** -/
theorem lock_le_step (h : s.Unlocked) (hd : Delivers call) :
    s.lockCounter.toNat ≤ (if NormalSyn s call then 1 else 0) +
      (s.processReceivedChar call).1.lockCounter.toNat := by
  obtain ⟨pending, t, heq, -⟩ | ⟨real, hp, hcase⟩ := s.silent_or_processed call
  · rw [heq]
    exact Nat.le_add_left _ _
  · rw [hp.lockCounter]
    rcases (s.drives_drivenBy call real).lock with ⟨hlock, -⟩ | ⟨hstarted, -, -⟩
    · rw [hlock]
      exact lock_le_countSyn (inEsc_of_syn hcase)
    · rw [(h.beforeDrive hd hstarted).1]
      exact Nat.zero_le _

/-- The lock is armed by the call that completes a command. -/
theorem lock_of_completed (hd : Delivers call) (hbefore : s.activeCommand.state ≠ .endCompleted)
    (hafter : (s.processReceivedChar call).1.activeCommand.state = .endCompleted) :
    (s.processReceivedChar call).1.lockCounter = s.config.maxLockCounter := by
  obtain ⟨pending, t, heq, -⟩ | ⟨real, hp, -⟩ := s.silent_or_processed call
  · rw [heq] at hafter
    exact absurd hafter hbefore
  · rw [hp.activeCommand] at hafter
    rw [hp.lockCounter]
    rcases (s.drives_drivenBy call real).lock with ⟨-, hsame⟩ | ⟨-, hlock, -⟩
    · have hnext : (s.nextCommand call.dequeued).state = .endCompleted := hsame hafter
      rcases s.nextCommand_cases call.dequeued with h | ⟨-, hmem⟩
      · rw [h] at hnext
        exact absurd hnext hbefore
      · rw [hd _ hmem] at hnext
        cases hnext
    · rw [hlock, beforeDrive]
      exact congrArg Config.maxLockCounter (s.countSyn_config _)

/-- A call that sends a QQ leaves the bus unlocked. -/
theorem unlocked_of_qq (h : s.Unlocked) (hd : Delivers call)
    (hqq : (s.processReceivedChar call).2.qq ≠ []) :
    (s.processReceivedChar call).1.lockCounter = 0 := by
  obtain ⟨pending, t, heq, -⟩ | ⟨real, hp, -⟩ := s.silent_or_processed call
  · rw [heq] at hqq
    exact absurd rfl hqq
  · rw [hp.qq] at hqq
    obtain ⟨-, hlock, hcase⟩ := (s.drives_drivenBy call real).sends hqq
    rw [hp.lockCounter, hlock]
    rcases hcase with hstarted | hzero
    · exact (h.beforeDrive hd hstarted).2
    · exact hzero

/-! ### Whole runs -/

theorem unlocked_init (config : Config) : (init config).Unlocked := fun _ => rfl

theorem unlocked_after (h : s.Unlocked) {calls : List Call} (hd : ∀ call ∈ calls, Delivers call) :
    (s.after calls).Unlocked :=
  run_keeps processReceivedChar (fun _ _ => unlocked_step) s calls h
    (along_of_forall processReceivedChar s calls hd)

/-- **The bus lock is respected.**  In every run, whatever bytes it brings and whenever the queue
hands over commands, a command that has started finds the bus unlocked; and from a call that
completes a command to any later call that sends a QQ, that one included, as many normal SYNs are
processed as the lock counter is set to. -/
theorem lock_respected (config : Config) {sofar mid : List Call} {done send : Call}
    (hd : ∀ call ∈ sofar ++ done :: (mid ++ [send]), Delivers call) :
    let s := (init config).after sofar
    let s' := (s.processReceivedChar done).1
    s.Unlocked ∧
      (s.activeCommand.state ≠ .endCompleted → s'.activeCommand.state = .endCompleted →
        ((s'.after mid).processReceivedChar send).2.qq ≠ [] →
        config.maxLockCounter.toNat ≤ s'.normalSyns (mid ++ [send])) := by
  intro s s'
  have hsofar : s.Unlocked := unlocked_after (unlocked_init config) fun call hcall =>
    hd call (List.mem_append_left _ hcall)
  have hdone : Delivers done := hd done (by simp)
  have hrest : ∀ call ∈ mid ++ [send], Delivers call := fun call hcall =>
    hd call (by simp only [List.mem_append, List.mem_cons] at hcall ⊢; tauto)
  have hunlocked : s'.Unlocked := unlocked_step hsofar hdone
  refine ⟨hsofar, fun hbefore hafter hqq => ?_⟩
  have hlock : s'.lockCounter = config.maxLockCounter := by
    rw [lock_of_completed hdone hbefore hafter]
    exact congrArg Config.maxLockCounter (after_config _ _)
  have halong := along_of_invariant processReceivedChar (fun _ _ => unlocked_step) s'
    (mid ++ [send]) hunlocked (along_of_forall processReceivedChar s' _ hrest)
  have htotal := potential_le_total processReceivedChar
    (w := fun s call => if NormalSyn s call then 1 else 0) (Φ := fun s => s.lockCounter.toNat)
    (fun s call h => lock_le_step h.1 h.2) s' (mid ++ [send]) halong
  have hzero : (s'.after (mid ++ [send])).lockCounter = 0 := by
    rw [after_concat]
    exact unlocked_of_qq (unlocked_after hunlocked fun call hcall =>
      hrest call (List.mem_append_left _ hcall)) (hrest send (by simp)) hqq
  have hend : (run processReceivedChar s' (mid ++ [send])).lockCounter = 0 := hzero
  simp only [hlock, hend] at htotal
  exact htotal

/-- A node with a lock of 2 that has sent its QQ for a broadcast. -/
def broadcaster : Ebus :=
  (init { defaultConfig 0x10#8 with maxLockCounter := 2 }).after
    [⟨syn, some (.new 0x10#8 0xFE#8 0x0704#16 []), []⟩]

/-- The broadcast completes with the QQ, and of three more SYNs, which bring in the next command and
send it, two are normal. -/
theorem lock_respected_two :
    2 ≤ ((broadcaster.processReceivedChar ⟨0x10#8, none, []⟩).1).normalSyns
      ([⟨syn, some (.new 0x10#8 0x08#8 0x0704#16 []), []⟩, ⟨syn, none, []⟩] ++
        [⟨syn, none, []⟩]) :=
  (@lock_respected { defaultConfig 0x10#8 with maxLockCounter := 2 }
    [⟨syn, some (.new 0x10#8 0xFE#8 0x0704#16 []), []⟩] _ _ _ (by decide +kernel)).2
    (by decide +kernel) (by decide +kernel) (by decide +kernel)

end Ebus

end EsphomeEbus
