import EsphomeEbus.Exchange
import EsphomeEbus.Retry

/-!
# How long a command takes

A command of a node alone can stay in the second round of the arbitration forever.  On a bus of
nodes it cannot: where a command is in the arbitration, no SYN is of the normal kind.  So every
normal SYN takes one off the lock, begins an attempt or ends one, and there are only so many of
each.

* `patience`: the number of normal SYNs a command may still see; `Processed.waits`: what a call
  takes off it;
* `waits_run`: a run that always has a command to work on;
* `Bus.not_normalSyn`: the arbitration on a bus;
* `commands_served`: the number of normal SYNs for each command.
-/

namespace EsphomeEbus

open Elf Transducer SharedMedium WiredAnd

/-- A command is finished, waits to be sent, or has started. -/
def SendCommand.Known (c : SendCommand) : Prop :=
  c.isFinished = true ∨ c.state = .waitForSend ∨ c.Started

/-- The number of normal SYNs that a command may still see: those that take down the lock, and two
for each try, one that begins it and one that ends it. -/
def patience (maxTries lockCounter : Byte) (c : SendCommand) : ℕ :=
  match c.state with
  | .waitForSend => lockCounter.toNat + 2 * (c.triesLeft maxTries + 1)
  | .waitForArbitration | .waitForArbitration2nd | .waitForCommandAck =>
    lockCounter.toNat + (2 * c.triesLeft maxTries + 1)
  | _ => 0

theorem patience_of_started {c : SendCommand} (h : c.Started) (maxTries lockCounter : Byte) :
    patience maxTries lockCounter c = lockCounter.toNat + (2 * c.triesLeft maxTries + 1) := by
  unfold patience
  rcases h with (hs | hs) | hs
  · rw [hs]
  · rw [hs]
  · rw [hs]

theorem patience_mono {lockCounter lockCounter' : Byte}
    (h : lockCounter.toNat ≤ lockCounter'.toNat) (maxTries : Byte) (c : SendCommand) :
    patience maxTries lockCounter c ≤ patience maxTries lockCounter' c := by
  unfold patience
  split
  · omega
  · omega
  · omega
  · omega
  · exact Nat.le_refl 0

/-- The number of normal SYNs that every command may see. -/
def Config.patience (config : Config) : ℕ :=
  config.maxLockCounter.toNat + 2 * (config.maxTries.toNat + 1)

namespace Ebus

variable {s : Ebus} {call : Call} {b real : Byte} {d : Driven}

/-! ### The switch -/

/-- A failed attempt leaves two SYNs for each try that is left. -/
theorem patience_retryOrFail (h : s.activeCommand.Started) (lockCounter : Byte) :
    1 + patience s.config.maxTries lockCounter s.retryOrFail.activeCommand ≤
      patience s.config.maxTries lockCounter s.activeCommand := by
  rw [patience_of_started h]
  cases hretry : (s.activeCommand.canRetry s.config.maxTries).1 with
  | false =>
    have hafter : s.retryOrFail.activeCommand.state = .endSendFailed := by
      simp [retryOrFail, SendCommand.setState, hretry]
    rw [patience, hafter]
    show 1 + 0 ≤ _
    omega
  | true =>
    have hafter : s.retryOrFail.activeCommand =
        (s.activeCommand.canRetry s.config.maxTries).2.setState .waitForSend := by
      simp [retryOrFail, hretry]
    have hleft := SendCommand.triesLeft_canRetry hretry
    rw [hafter]
    show 1 + (lockCounter.toNat +
      2 * ((s.activeCommand.canRetry s.config.maxTries).2.triesLeft s.config.maxTries + 1)) ≤ _
    omega

/-- The switch adds no patience. -/
theorem Drives.patience_le (h : Drives s b d) :
    patience s.config.maxTries d.lockCounter d.activeCommand ≤
      patience s.config.maxTries s.lockCounter s.activeCommand := by
  cases h with
  | stays _ => exact Nat.le_refl _
  | sendsQq hs _ _ _ =>
    show s.lockCounter.toNat + (2 * s.activeCommand.triesLeft s.config.maxTries + 1) ≤ _
    rw [patience, hs]
    dsimp only
    omega
  | secondRound hs =>
    rw [patience_of_started (.inl (.inl hs))]
    exact Nat.le_refl _
  | sendsQqAgain _ _ => exact Nat.le_refl _
  | wins harb _ =>
    rw [patience_of_started (c := s.activeCommand) (.inl harb)]
    unfold startRequest
    split
    · exact Nat.le_refl _
    · exact Nat.zero_le _
  | acknowledged _ _ => exact Nat.zero_le _
  | givesUp hs =>
    have hretry := patience_retryOrFail hs s.lockCounter
    have hlock : s.retryOrFail.lockCounter = s.lockCounter := rfl
    rw [hlock]
    omega

/-- What the switch leaves is known. -/
theorem Drives.known (h : Drives s b d) (hs : s.activeCommand.Known) : d.activeCommand.Known := by
  cases h with
  | stays _ => exact hs
  | sendsQq _ _ _ _ => exact .inr (.inr (.inl (.inl rfl)))
  | secondRound _ => exact .inr (.inr (.inl (.inr rfl)))
  | sendsQqAgain _ _ => exact hs
  | wins _ _ =>
    rw [startRequest_activeCommand]
    split
    · exact .inr (.inr (.inr rfl))
    · exact .inl rfl
  | acknowledged _ _ => exact .inl rfl
  | givesUp _ =>
    rcases s.retryOrFail_state with h | h
    · exact .inr (.inl h)
    · exact .inl (TelegramBase.isFinished_of_end h (by decide))

/-- **A normal SYN** takes one off the lock, begins an attempt or ends one. -/
theorem driveCommand_normalSyn {lockCounter : Byte} (hs : s.state = .normal)
    (hlock : s.lockCounter.toNat = lockCounter.toNat - 1) (hknown : s.activeCommand.Known)
    (hactive : s.activeCommand.isFinished = false)
    (harb : ¬ Arbitrating s.activeCommand.toTelegramBase) :
    1 + patience s.config.maxTries (s.driveCommand syn).lockCounter
        (s.driveCommand syn).activeCommand ≤
      patience s.config.maxTries lockCounter s.activeCommand := by
  rcases hknown with hfinished | hwait | hstarted
  · rw [hactive] at hfinished
    cases hfinished
  · have hbefore : patience s.config.maxTries lockCounter s.activeCommand =
        lockCounter.toNat + 2 * (s.activeCommand.triesLeft s.config.maxTries + 1) := by
      rw [patience, hwait]
    rw [driveCommand_waitForSend syn hwait, hbefore]
    split
    · rename_i h
      have hzero : s.lockCounter.toNat = 0 := by rw [h.2.2]; rfl
      show 1 + (s.lockCounter.toNat + (2 * s.activeCommand.triesLeft s.config.maxTries + 1)) ≤ _
      omega
    · rename_i h
      have hpos : s.lockCounter.toNat ≠ 0 := by
        intro hzero
        exact h ⟨rfl, hs, BitVec.eq_of_toNat_eq hzero⟩
      have hafter : patience s.config.maxTries s.lockCounter s.activeCommand =
          s.lockCounter.toNat + 2 * (s.activeCommand.triesLeft s.config.maxTries + 1) := by
        rw [patience, hwait]
      show 1 + patience s.config.maxTries s.lockCounter s.activeCommand ≤ _
      omega
  · have hack : s.activeCommand.state = .waitForCommandAck := hstarted.resolve_left harb
    rw [driveCommand_waitForCommandAck syn hack, if_neg (by decide), if_pos rfl]
    have hretry := patience_retryOrFail hstarted s.lockCounter
    have hle : s.lockCounter.toNat ≤ lockCounter.toNat := by omega
    have hmono := patience_mono hle s.config.maxTries s.activeCommand
    have hsame : s.retryOrFail.lockCounter = s.lockCounter := rfl
    rw [hsame]
    omega

/-! ### One call -/

theorem countSyn_lock_le : (s.countSyn b).lockCounter.toNat ≤ s.lockCounter.toNat := by
  by_cases hb : b = syn
  · rw [hb, countSyn_syn]
    dsimp only
    split
    · bv_omega
    · exact Nat.le_refl _
  · rw [countSyn_of_ne_syn _ hb]

/-- **What a call takes off the patience** of the command it works on. -/
theorem Processed.waits (hp : Processed s call real)
    (hknown : (s.nextCommand call.dequeued).Known)
    (hwork : (s.nextCommand call.dequeued).isFinished = false)
    (harb : Arbitrating (s.nextCommand call.dequeued).toTelegramBase → ¬ NormalSyn s call) :
    (if NormalSyn s call then 1 else 0) +
        patience s.config.maxTries (s.processReceivedChar call).1.lockCounter
          (s.processReceivedChar call).1.activeCommand ≤
      patience s.config.maxTries s.lockCounter (s.nextCommand call.dequeued) := by
  have hconfig : (s.beforeDrive call real).config = s.config := s.countSyn_config _
  rw [hp.lockCounter, hp.activeCommand, ← hconfig]
  by_cases hn : NormalSyn s call
  · have hcount : s.charCountSinceLastSyn ≠ 1 := (normalSyn_iff hn.1 hn.2.1).mp hn
    have hstate : (s.beforeDrive call real).state = .normal := by
      show (s.countSyn call.receivedByte).state = _
      rw [hn.2.1, countSyn_syn]
      exact if_neg hcount
    have hlock : (s.beforeDrive call real).lockCounter.toNat = s.lockCounter.toNat - 1 := by
      show (s.countSyn call.receivedByte).lockCounter.toNat = _
      rw [hn.2.1, countSyn_syn]
      dsimp only
      split
      · bv_omega
      · bv_omega
    rw [if_pos hn, drivenBy, hn.2.1]
    exact driveCommand_normalSyn hstate hlock hknown hwork fun h => harb h hn
  · rw [if_neg hn, Nat.zero_add]
    exact Nat.le_trans (s.drives_drivenBy call real).patience_le
      (patience_mono s.countSyn_lock_le _ _)

/-- The call takes a command off the queue. -/
def Takes (s : Ebus) (call : Call) : Prop :=
  (s.processReceivedChar call).2.dequeueCalled = true ∧ call.dequeued.isSome = true

instance (s : Ebus) (call : Call) : Decidable (Takes s call) :=
  inferInstanceAs (Decidable (_ ∧ _))

/-- The number of commands taken during some calls. -/
def taken (s : Ebus) (calls : List Call) : ℕ :=
  total processReceivedChar (fun s call => if Takes s call then 1 else 0) s calls

/-- The call finds a command that is not finished, or gets one. -/
def HasWork (s : Ebus) (call : Call) : Prop :=
  (s.nextCommand call.dequeued).isFinished = false

instance (s : Ebus) (call : Call) : Decidable (HasWork s call) :=
  inferInstanceAs (Decidable (_ = _))

/-- A call that processes a symbol asks for a command if it has none. -/
theorem dequeueCalled_of_processed
    (h : s.inEsc = false ∧ call.receivedByte ≠ esc ∧ real = call.receivedByte ∨
      s.inEsc = true ∧ (call.receivedByte = 0x00#8 ∨ call.receivedByte = 0x01#8)) :
    (s.processReceivedChar call).2.dequeueCalled =
      (s.activeCommand.isFinished && s.config.dequeueCommand) := by
  obtain ⟨hesc, hb, -⟩ | ⟨hesc, h0, h1, -⟩ | ⟨-, -, heq⟩ | ⟨real', -, -, heq⟩ :=
    s.processReceivedChar_cases call
  · simp [hesc, hb] at h
  · simp [hesc, h0, h1] at h
  · rw [heq, processSymbol_snd]
  · rw [heq, processSymbol_snd]

/-- What every call keeps: the lock is within its bound, and the command is known. -/
structure Serves (s : Ebus) : Prop where
  lock_le : s.lockCounter.toNat ≤ s.config.maxLockCounter.toNat
  known : s.activeCommand.Known

theorem serves_init (config : Config) : (init config).Serves :=
  ⟨Nat.zero_le _, .inl rfl⟩

theorem Serves.next (h : s.Serves) (hd : Delivers call) : (s.nextCommand call.dequeued).Known := by
  rcases s.nextCommand_cases call.dequeued with hsame | ⟨-, hmem⟩
  · rw [hsame]
    exact h.known
  · exact .inr (.inl (hd _ hmem))

theorem Serves.step (h : s.Serves) (hd : Delivers call) :
    (s.processReceivedChar call).1.Serves := by
  obtain ⟨pending, t, heq, -⟩ | ⟨real, hp, -⟩ := s.silent_or_processed call
  · rw [heq]
    exact ⟨h.lock_le, h.known⟩
  · have hdrives := s.drives_drivenBy call real
    have hconfig : (s.beforeDrive call real).config = s.config := s.countSyn_config _
    refine ⟨?_, ?_⟩
    · rw [hp.lockCounter, processReceivedChar_config]
      rcases hdrives.lock with ⟨hlock, -⟩ | ⟨-, hlock, -⟩
      · rw [hlock]
        exact Nat.le_trans s.countSyn_lock_le h.lock_le
      · rw [hlock, hconfig]
    · rw [hp.activeCommand]
      exact hdrives.known (h.next hd)

theorem serves_after (h : s.Serves) {calls : List Call} (hd : ∀ call ∈ calls, Delivers call) :
    (s.after calls).Serves :=
  run_keeps processReceivedChar (fun _ _ h hd => h.step hd) s calls h
    (along_of_forall processReceivedChar s calls hd)

theorem triesLeft_le_maxTries (maxTries : Byte) (c : SendCommand) :
    c.triesLeft maxTries ≤ maxTries.toNat := by
  unfold SendCommand.triesLeft
  rw [BitVec.toInt_eq_toNat_cond]
  split <;> omega

/-- A new command may see as many normal SYNs as every other. -/
theorem patience_le (c : SendCommand) {config : Config} {lockCounter : Byte}
    (hlock : lockCounter.toNat ≤ config.maxLockCounter.toNat) :
    patience config.maxTries lockCounter c ≤ config.patience := by
  have htries := triesLeft_le_maxTries config.maxTries c
  unfold patience Config.patience
  split
  · omega
  · omega
  · omega
  · omega
  · exact Nat.zero_le _

/-! ### Whole runs -/

/-- The call has a command to work on, which sees no normal SYN in the arbitration. -/
structure Orderly (config : Config) (s : Ebus) (call : Call) : Prop where
  config : s.config = config
  delivers : Delivers call
  hasWork : HasWork s call
  arbitration : Arbitrating s.activeCommand.toTelegramBase → ¬ NormalSyn s call

/-- **What a call takes off the patience** of the node; a command that it takes renews it. -/
theorem Serves.waits {config : Config} (h : s.Serves) (hc : Orderly config s call) :
    (if NormalSyn s call then 1 else 0) +
        patience config.maxTries (s.processReceivedChar call).1.lockCounter
          (s.processReceivedChar call).1.activeCommand ≤
      patience config.maxTries s.lockCounter s.activeCommand +
        config.patience * if Takes s call then 1 else 0 := by
  obtain rfl := hc.config
  obtain ⟨pending, t, heq, hcase⟩ | ⟨real, hp, hcase⟩ := s.silent_or_processed call
  · have hn : ¬ NormalSyn s call := by
      rintro ⟨hesc, hb, -⟩
      rw [hesc, hb] at hcase
      simp [syn, esc] at hcase
    rw [if_neg hn, heq, Nat.zero_add]
    exact Nat.le_add_right _ _
  · have harb : Arbitrating (s.nextCommand call.dequeued).toTelegramBase →
        ¬ NormalSyn s call := by
      intro harb
      rw [nextCommand_of_started hc.delivers (.inl harb)] at harb
      exact hc.arbitration harb
    have hwaits := hp.waits (h.next hc.delivers) hc.hasWork harb
    rcases s.nextCommand_cases call.dequeued with hsame | ⟨hfinished, hmem⟩
    · rw [hsame] at hwaits
      exact Nat.le_trans hwaits (Nat.le_add_right _ _)
    · have hq : s.config.dequeueCommand = true := by
        by_contra hq
        have hsame : s.nextCommand call.dequeued = s.activeCommand := by
          rw [nextCommand, if_neg (by simp [hq])]
        have hwork : (s.nextCommand call.dequeued).isFinished = false := hc.hasWork
        rw [hsame, hfinished] at hwork
        cases hwork
      have htakes : Takes s call := by
        refine ⟨?_, Option.isSome_iff_exists.mpr ⟨_, hmem⟩⟩
        rw [dequeueCalled_of_processed hcase, hfinished, hq]
        rfl
      have hle := patience_le (s.nextCommand call.dequeued) h.lock_le
      rw [if_pos htakes, Nat.mul_one]
      omega

/-- **A run that always has work**: so many normal SYNs for each command that it takes, and as many
for the one it begins with. -/
theorem waits_run {config : Config} (h : s.Serves) (hconfig : s.config = config)
    {calls : List Call} (hc : Along processReceivedChar (Orderly config) s calls) :
    s.normalSyns calls ≤ config.patience * (s.taken calls + 1) := by
  have hboth : Along processReceivedChar (fun s call => s.Serves ∧ Orderly config s call) s calls :=
    along_of_invariant processReceivedChar (fun _ _ h hc => h.step hc.delivers) s calls h hc
  have htotal := total_le_mul_total processReceivedChar
    (Φ := fun s => patience config.maxTries s.lockCounter s.activeCommand)
    (fun _ _ hc => hc.1.waits hc.2) s calls hboth
  have hstart := patience_le s.activeCommand (hconfig ▸ h.lock_le)
  rw [Nat.mul_add, Nat.mul_one, normalSyns, taken]
  omega

end Ebus

/-! ### On the bus -/

namespace Bus

variable {n : ℕ} {bus : Bus n} {x : BusSlot n} {i : Fin n}

/-- **A command in the arbitration sees no normal SYN**: the slot after a SYN carries a QQ. -/
theorem Regular.not_normalSyn (h : bus.Regular)
    (harb : Arbitrating (bus.command i).toTelegramBase) :
    ¬ Ebus.NormalSyn (bus i).state ((x.intake i).call (bus.step x).2) := by
  intro hn
  have hsyn : (bus.step x).2 = syn := hn.2.1
  cases h.turn with
  | quiet _ _ hcount => exact (Ebus.normalSyn_iff hn.1 hn.2.1).mp hn (hcount i harb)
  | contention _ hpending =>
    have hprimary := isPrimary_slot (x := x) h.addressed h.coherent hpending ⟨i, harb⟩
    rw [hsyn] at hprimary
    exact absurd hprimary (by decide)
  | talk htalks =>
    have hcarried : (bus.step x).2 = _ :=
      htalks.alone.carried_eq htalks.pending (andAll_singleton _) x.idle
    exact (htalks.leaves i harb).ne_syn (hcarried.symm.trans hsyn)

/-- The node has a command to work on, or finds one in its queue. -/
def HasWork (i : Fin n) (bus : Bus n) (x : BusSlot n) : Prop :=
  (bus i).state.HasWork ((x.intake i).call (bus.step x).2)

instance (bus : Bus n) (x : BusSlot n) : Decidable (HasWork i bus x) :=
  inferInstanceAs (Decidable (Ebus.HasWork _ _))

/-- The calls of a node with work. -/
theorem Regular.along_calls (h : bus.Regular) {xs : List (BusSlot n)}
    (hx : Along step Orderly bus xs) (hwork : Along step (HasWork i) bus xs) :
    Along Ebus.processReceivedChar (Ebus.Orderly (bus i).state.config) (bus i).state
      (bus.calls xs i) := by
  induction xs generalizing bus with
  | nil => trivial
  | cons x xs ih =>
    have hrest := ih (regular_step h hx.1) hx.2 hwork.2
    have hconfig : ((bus.step x).1 i).state.config = (bus i).state.config :=
      Ebus.processReceivedChar_config _ _
    rw [hconfig] at hrest
    exact ⟨⟨rfl, hx.1.delivers i _, hwork.1, h.not_normalSyn⟩, hrest⟩

section Runs

variable {configs : Fin n → Config}
  (hprim : ∀ i, isPrimary (configs i).primaryAddress = true)
  (hapart : ∀ i j, toSecondary (configs i).primaryAddress =
    toSecondary (configs j).primaryAddress → i = j)
  {xs ys : List (BusSlot n)} (hx : Along step Orderly (start configs) xs)
  (hy : Along step Orderly (run step (start configs) xs) ys)

include hprim hapart hx hy

/-- **No command waits forever.**  In every run of a bus of nodes, for as long as a node has a
command to work on, it sees at most `max_lock_counter_` and two for each of the `max_tries_ + 1`
tries of normal SYNs for each command that it takes, and as many for the one it begins with. -/
theorem commands_served
    (hwork : Along step (HasWork i) (run step (start configs) xs) ys) :
    let bus := run step (start configs) xs
    (bus i).state.normalSyns (bus.calls ys i) ≤
      ((configs i).maxLockCounter.toNat + 2 * ((configs i).maxTries.toNat + 1)) *
        ((bus i).state.taken (bus.calls ys i) + 1) := by
  intro bus
  have hstart := regular_start hprim hapart
  have hstate : (bus i).state = (Ebus.init (configs i)).after ((start configs).calls xs i) :=
    state_eq_after xs i
  have hserves : (bus i).state.Serves := by
    rw [hstate]
    exact Ebus.serves_after (Ebus.serves_init _) fun call hc c hc' =>
      (handsOver_calls hstart.addressed hx hc c hc').1
  have hconfig : (bus i).state.config = configs i := by
    rw [hstate, Ebus.after_config]
    rfl
  have hcalls := (regular_run hstart hx).along_calls hy hwork
  rw [hconfig] at hcalls
  exact Ebus.waits_run hserves hconfig hcalls

end Runs

/-- Node 0 takes a command on a normal SYN, and wins the bus with it. -/
theorem asking_served :
    (start askConfigs 0).state.normalSyns ((start askConfigs).calls [asking, replying] 0) ≤
      (4 + 2 * (2 + 1)) *
        ((start askConfigs 0).state.taken ((start askConfigs).calls [asking, replying] 0) + 1) := by
  have hprim : ∀ i, isPrimary (askConfigs i).primaryAddress = true := by decide
  have hapart : ∀ i j, toSecondary (askConfigs i).primaryAddress =
      toSecondary (askConfigs j).primaryAddress → i = j := by decide
  have hrun : Along step Orderly (start askConfigs) [asking, replying] := by
    refine (regular_start hprim hapart).along fun x hx => ?_
    rcases List.mem_pair.mp hx with rfl | rfl
    · exact ⟨rfl, wellFormed_asking⟩
    · exact ⟨rfl, fun i => wellFormed_replying i _⟩
  have hstart : Along step Orderly (start askConfigs) [] := trivial
  exact commands_served hprim hapart hstart hrun (by decide +kernel)

end Bus

end EsphomeEbus
