import EsphomeEbus.Retry

/-!
# Counting failed attempts

An attempt of a command fails in three ways: the first round is lost to another priority class, the
second round is lost, or a SYN comes where the acknowledge should.  All three go through
`can_retry`, which counts in a `uint8_t` and compares with a limit that the call has cut to an
`int8_t`.

* `FailsAttempt`: a call on which an attempt fails;
* `fails_step`, `holds_step`: what such a call does to the command, and what every other call does;
* `triesCount_after`: the counter is the number of failed attempts;
* `counts_exactly_iff`: the limit is kept exactly if it is at most 127.
-/

namespace EsphomeEbus

open Elf Transducer

namespace Ebus

variable {s : Ebus} {call : Call} {b real : Byte}

/-! ### Failed attempts -/

/-- The byte fails the attempt of the active command. -/
def LosesTo (c : SendCommand) (b : Byte) : Prop :=
  c.state = .waitForArbitration ∧ b ≠ c.getQq ∧ getPriorityClass b ≠ getPriorityClass c.getQq ∨
    c.state = .waitForArbitration2nd ∧ b ≠ syn ∧ b ≠ c.getQq ∨
    c.state = .waitForCommandAck ∧ b = syn

/-- The byte completes a symbol: it neither opens an escape pair nor ends an invalid one. -/
def CompletesSymbol (s : Ebus) (b : Byte) : Prop :=
  (s.inEsc = false → b ≠ esc) ∧ (s.inEsc = true → b = 0x00#8 ∨ b = 0x01#8)

/-- The attempt of the active command fails on this call. -/
def FailsAttempt (s : Ebus) (call : Call) : Prop :=
  s.CompletesSymbol call.receivedByte ∧ LosesTo s.activeCommand call.receivedByte

instance (c : SendCommand) (b : Byte) : Decidable (LosesTo c b) :=
  inferInstanceAs (Decidable (_ ∨ _ ∨ _))

instance (s : Ebus) (b : Byte) : Decidable (s.CompletesSymbol b) :=
  inferInstanceAs (Decidable (_ ∧ _))

instance (s : Ebus) (call : Call) : Decidable (s.FailsAttempt call) :=
  inferInstanceAs (Decidable (_ ∧ _))

/-- The number of failed attempts of a run. -/
def failures (s : Ebus) (calls : List Call) : ℕ :=
  total processReceivedChar (fun s call => if s.FailsAttempt call then 1 else 0) s calls

/-- A failed attempt costs a try. -/
theorem driveCommand_of_losesTo (h : LosesTo s.activeCommand b) :
    s.driveCommand b = s.retryOrFail := by
  rcases h with ⟨hs, hqq, hclass⟩ | ⟨hs, hsyn, hqq⟩ | ⟨hs, hsyn⟩
  · rw [driveCommand_waitForArbitration b hs, if_neg hqq, if_neg hclass]
  · rw [driveCommand_waitForArbitration2nd b hs, if_neg hsyn, if_neg hqq]
  · rw [driveCommand_waitForCommandAck b hs, if_neg (by rw [hsyn]; decide), if_pos hsyn]

/-- Nothing else costs a try, or gives the command up. -/
theorem driveCommand_of_not_losesTo (h : ¬ LosesTo s.activeCommand b) :
    (s.driveCommand b).activeCommand.triesCount = s.activeCommand.triesCount ∧
      ((s.driveCommand b).activeCommand.state = .endSendFailed →
        s.activeCommand.state = .endSendFailed) := by
  have hset : ∀ state : TelegramState, state ≠ .endSendFailed →
      (s.activeCommand.setState state).triesCount = s.activeCommand.triesCount ∧
        ((s.activeCommand.setState state).state = .endSendFailed →
          s.activeCommand.state = .endSendFailed) :=
    fun state hne => ⟨rfl, fun heq => absurd heq hne⟩
  have hstart : s.startRequest.activeCommand.triesCount = s.activeCommand.triesCount ∧
      (s.startRequest.activeCommand.state = .endSendFailed →
        s.activeCommand.state = .endSendFailed) := by
    rw [startRequest_activeCommand]
    split
    · exact hset _ (by decide)
    · exact hset _ (by decide)
  cases hs : s.activeCommand.state with
  | waitForSend =>
    rw [driveCommand_waitForSend b hs]
    split
    · exact ⟨rfl, nofun⟩
    · exact ⟨rfl, fun heq => hs.symm.trans heq⟩
  | waitForArbitration =>
    rw [driveCommand_waitForArbitration b hs]
    split
    · rwa [hs] at hstart
    · rename_i hqq
      split
      · exact ⟨rfl, nofun⟩
      · rename_i hclass
        exact absurd (.inl ⟨hs, hqq, hclass⟩) h
  | waitForArbitration2nd =>
    rw [driveCommand_waitForArbitration2nd b hs]
    split
    · exact ⟨rfl, fun heq => hs.symm.trans heq⟩
    · rename_i hsyn
      split
      · rwa [hs] at hstart
      · rename_i hqq
        exact absurd (.inr (.inl ⟨hs, hsyn, hqq⟩)) h
  | waitForCommandAck =>
    rw [driveCommand_waitForCommandAck b hs]
    split
    · exact ⟨rfl, nofun⟩
    · split
      · rename_i hsyn
        exact absurd (.inr (.inr ⟨hs, hsyn⟩)) h
      · exact ⟨rfl, fun heq => hs.symm.trans heq⟩
  | _ =>
    rw [driveCommand_other b (by simp [hs]) (by simp [Arbitrating, hs]) (by simp [hs])]
    exact ⟨rfl, fun heq => hs.symm.trans heq⟩

/-! ### One call -/

/-- A byte that completes a symbol is processed. -/
theorem CompletesSymbol.processed (h : s.CompletesSymbol call.receivedByte) :
    ∃ real, Processed s call real := exists_processed h.1 h.2

/-- The active command before the switch is the one before the call, while it is not finished. -/
theorem beforeDrive_activeCommand (hactive : s.activeCommand.isFinished = false) (call : Call)
    (real : Byte) : (s.beforeDrive call real).activeCommand = s.activeCommand :=
  nextCommand_of_unfinished hactive call.dequeued

/-- A call on which an attempt fails asks `can_retry`. -/
theorem fails_step (hactive : s.activeCommand.isFinished = false) (h : s.FailsAttempt call) :
    (s.processReceivedChar call).1.activeCommand =
      (s.activeCommand.canRetry s.config.maxTries).2.setState
        (if (s.activeCommand.canRetry s.config.maxTries).1 then .waitForSend
          else .endSendFailed) := by
  obtain ⟨real, hp⟩ := h.1.processed
  have hsame := beforeDrive_activeCommand hactive call real
  have hdrive : s.drivenBy call real = (s.beforeDrive call real).retryOrFail :=
    driveCommand_of_losesTo (by rw [hsame]; exact h.2)
  have hconfig : (s.beforeDrive call real).config = s.config := s.countSyn_config _
  rw [hp.activeCommand, hdrive, retryOrFail, hsame, hconfig]

/-- Every other call leaves the counter, and gives nothing up. -/
theorem holds_step (hactive : s.activeCommand.isFinished = false) (h : ¬ s.FailsAttempt call) :
    (s.processReceivedChar call).1.activeCommand.triesCount = s.activeCommand.triesCount ∧
      (s.processReceivedChar call).1.activeCommand.state ≠ .endSendFailed := by
  have hne : s.activeCommand.state ≠ .endSendFailed := by
    intro hs
    rw [TelegramBase.isFinished_of_end hs (by decide)] at hactive
    cases hactive
  obtain ⟨pending, t, heq, -⟩ | ⟨real, hp, hcase⟩ := s.silent_or_processed call
  · rw [heq]
    exact ⟨rfl, hne⟩
  · have hsame := beforeDrive_activeCommand hactive call real
    have hcompletes : s.CompletesSymbol call.receivedByte := by
      rcases hcase with ⟨hesc, hb, -⟩ | ⟨hesc, hb⟩
      · exact ⟨fun _ => hb, fun hopen => absurd (hesc.symm.trans hopen) (by decide)⟩
      · exact ⟨fun hclosed => absurd (hesc.symm.trans hclosed) (by decide), fun _ => hb⟩
    have hkeeps := driveCommand_of_not_losesTo (s := s.beforeDrive call real)
      (b := call.receivedByte) (by rw [hsame]; exact fun hl => h ⟨hcompletes, hl⟩)
    rw [hsame] at hkeeps
    rw [hp.activeCommand]
    exact ⟨hkeeps.1, fun heq => hne (hkeeps.2 heq)⟩

/-! ### The counter -/

/-- The limit is one that an `int8_t` holds, and the command has not used it up. -/
def Counting (s : Ebus) : Prop :=
  s.config.maxTries.toNat ≤ 127 ∧
    (s.activeCommand.isFinished = false →
      s.activeCommand.triesCount.toNat ≤ s.config.maxTries.toNat)

/-- A try is granted as long as fewer than the limit were. -/
theorem canRetry_iff {c : SendCommand} {maxTries : Byte} (h : maxTries.toNat ≤ 127) :
    (c.canRetry maxTries).1 = true ↔ c.triesCount.toNat < maxTries.toNat := by
  have hint : maxTries.toInt = maxTries.toNat := BitVec.toInt_eq_toNat_of_lt (by omega)
  rw [SendCommand.canRetry, decide_eq_true_eq, hint]
  exact Int.ofNat_lt

/-- What a call adds to the counter. -/
theorem triesCount_step (hcount : s.Counting) (hactive : s.activeCommand.isFinished = false) :
    (s.processReceivedChar call).1.activeCommand.triesCount.toNat =
      s.activeCommand.triesCount.toNat + if s.FailsAttempt call then 1 else 0 := by
  split
  · rename_i hfails
    have hle := hcount.2 hactive
    have hmax := hcount.1
    rw [fails_step hactive hfails]
    show (s.activeCommand.triesCount + 1).toNat = _
    rw [BitVec.toNat_add]
    exact Nat.mod_eq_of_lt (by show s.activeCommand.triesCount.toNat + 1 < 256; omega)
  · rename_i hholds
    rw [(holds_step hactive hholds).1]
    rfl

theorem counting_step (s : Ebus) (call : Call) (hcount : s.Counting)
    (hactive : s.activeCommand.isFinished = false) : (s.processReceivedChar call).1.Counting := by
  refine ⟨?_, ?_⟩
  · rw [processReceivedChar_config]
    exact hcount.1
  · intro hunfinished
    rw [triesCount_step hcount hactive, processReceivedChar_config]
    split
    · -- a command that failed and is not given up was granted the try
      rename_i hfails
      cases hretry : (s.activeCommand.canRetry s.config.maxTries).1 with
      | true => exact (canRetry_iff hcount.1).mp hretry
      | false =>
        rw [fails_step hactive hfails, hretry] at hunfinished
        cases hunfinished
    · exact hcount.2 hactive

/-- **The counter is the number of failed attempts** since the command was dequeued. -/
theorem triesCount_after (hcount : s.Counting) {calls : List Call}
    (hactive : Along processReceivedChar (fun s _ => s.activeCommand.isFinished = false) s calls) :
    (s.after calls).Counting ∧ (s.after calls).activeCommand.triesCount.toNat =
      s.activeCommand.triesCount.toNat + s.failures calls := by
  have halong := along_of_invariant processReceivedChar counting_step s calls hcount hactive
  constructor
  · exact run_keeps processReceivedChar counting_step s calls hcount hactive
  · exact counter_eq_add_total processReceivedChar
      (Φ := fun s => s.activeCommand.triesCount.toNat)
      (fun s call h => triesCount_step h.1 h.2) s calls halong

/-- The command is given up on a failed attempt that finds the limit reached. -/
theorem gives_up_iff (hcount : s.Counting) (hactive : s.activeCommand.isFinished = false) :
    (s.processReceivedChar call).1.activeCommand.state = .endSendFailed ↔
      s.FailsAttempt call ∧ s.activeCommand.triesCount.toNat = s.config.maxTries.toNat := by
  have hle := hcount.2 hactive
  have hgranted := canRetry_iff (c := s.activeCommand) hcount.1
  by_cases hfails : s.FailsAttempt call
  · rw [fails_step hactive hfails]
    show (if _ then TelegramState.waitForSend else .endSendFailed) = .endSendFailed ↔ _
    constructor
    · intro hstate
      split at hstate
      · cases hstate
      · rename_i hrefused
        rw [hgranted] at hrefused
        exact ⟨hfails, by omega⟩
    · rintro ⟨-, heq⟩
      exact if_neg fun hlt => absurd (hgranted.mp hlt) (by omega)
  · exact iff_of_false (holds_step hactive hfails).2 fun h => hfails h.1

/-- On a failed attempt before the limit it goes back to the queue. -/
theorem goes_back (hcount : s.Counting) (hactive : s.activeCommand.isFinished = false)
    (hfails : s.FailsAttempt call)
    (hlt : s.activeCommand.triesCount.toNat < s.config.maxTries.toNat) :
    (s.processReceivedChar call).1.activeCommand.state = .waitForSend := by
  rw [fails_step hactive hfails]
  exact if_pos ((canRetry_iff hcount.1).mpr hlt)

/-! ### The limit -/

/-- In every run in which `first` dequeues a command, and `rest` and `last` find it unfinished: the
command is given up on `last` if and only if that is a failed attempt and there are `max_tries_`
others before it, and goes back to `waitForSend` on a failed attempt with fewer before it. -/
def CountsExactly (config : Config) : Prop :=
  ∀ (sofar rest : List Call) (first last : Call) (c : SendCommand),
    ((init config).after sofar).Dequeues first c →
    Along processReceivedChar (fun s _ => s.activeCommand.isFinished = false)
      ((init config).after (sofar ++ [first])) (rest ++ [last]) →
    let before := (init config).after (sofar ++ [first] ++ rest)
    let attempt := ((init config).after (sofar ++ [first])).failures rest + 1
    ((before.processReceivedChar last).1.activeCommand.state = .endSendFailed ↔
        before.FailsAttempt last ∧ attempt = config.maxTries.toNat + 1) ∧
      (before.FailsAttempt last → attempt < config.maxTries.toNat + 1 →
        (before.processReceivedChar last).1.activeCommand.state = .waitForSend)

/-- The call that dequeues a command leaves it with its counter at zero. -/
theorem Dequeues.triesCount_zero {c : SendCommand} (h : s.Dequeues call c) :
    (s.processReceivedChar call).1.activeCommand.triesCount = 0 := by
  obtain ⟨hnext, real, hp⟩ := h.processed
  have hbefore : (s.beforeDrive call real).activeCommand = c := hnext
  have hstate : (s.beforeDrive call real).activeCommand.state = .waitForSend := by
    rw [hbefore, h.state]
  have hkeeps := driveCommand_of_not_losesTo (s := s.beforeDrive call real)
    (b := call.receivedByte) (by simp [LosesTo, hstate])
  rw [hp.activeCommand, drivenBy, hkeeps.1, hbefore, h.triesCount]

theorem counts_exactly {config : Config} (hmax : config.maxTries.toNat ≤ 127) :
    CountsExactly config := by
  intro sofar rest first last c hfirst hactive before attempt
  rw [along_concat] at hactive
  obtain ⟨hrest, hlast⟩ := hactive
  have hstart : ((init config).after (sofar ++ [first])).activeCommand.triesCount = 0 := by
    rw [after_concat]
    exact hfirst.triesCount_zero
  have hcount : ((init config).after (sofar ++ [first])).Counting := by
    refine ⟨?_, fun _ => ?_⟩
    · rw [after_config]
      exact hmax
    · rw [hstart]
      exact Nat.zero_le _
  obtain ⟨hcounting, htries⟩ := triesCount_after hcount hrest
  have hbefore : before = ((init config).after (sofar ++ [first])).after rest :=
    run_append processReceivedChar _ _ _
  rw [hstart, ← hbefore] at htries
  rw [← hbefore] at hcounting
  have hunfinished : before.activeCommand.isFinished = false := by
    rw [hbefore]
    exact hlast
  have hconfig : before.config = config := after_config _ _
  have hattempt : attempt = before.activeCommand.triesCount.toNat + 1 := by
    rw [htries]
    show _ + 1 = 0 + _ + 1
    rw [Nat.zero_add]
  have hgivesUp : (before.processReceivedChar last).1.activeCommand.state = .endSendFailed ↔ _ :=
    gives_up_iff hcounting hunfinished
  rw [hconfig] at hgivesUp
  rw [hattempt, hgivesUp, Nat.add_right_cancel_iff]
  refine ⟨Iff.rfl, fun hfails hlt => goes_back hcounting hunfinished hfails ?_⟩
  rw [hconfig]
  exact Nat.lt_of_succ_lt_succ hlt

/-- A node with a limit from 128 on, which an `int8_t` reads as a negative one, gives its command up
the first time it loses a round. -/
theorem gives_up_at_once : ∀ maxTries : Byte, 128 ≤ maxTries.toNat →
    let config : Config := { defaultConfig 0x10#8 with maxTries := maxTries }
    let before := (init config).after [synWithCommand]
    before.activeCommand.isFinished = false ∧
      (before.processReceivedChar ⟨0x11#8, none, []⟩).1.activeCommand.state = .endSendFailed := by
  decide +kernel

theorem not_countsExactly (maxTries : Byte) (hlarge : 128 ≤ maxTries.toNat) :
    ¬ CountsExactly { defaultConfig 0x10#8 with maxTries := maxTries } := by
  intro hexact
  obtain ⟨hunfinished, hfailed⟩ := gives_up_at_once maxTries hlarge
  have hdequeues : ((init { defaultConfig 0x10#8 with maxTries := maxTries }).after []).Dequeues
      synWithCommand (.new 0x10#8 0x08#8 0x0704#16 [0x12#8]) :=
    ⟨rfl, rfl, by decide +kernel, by decide +kernel⟩
  have hlast := hexact [] [] synWithCommand ⟨0x11#8, none, []⟩ _ hdequeues ⟨hunfinished, trivial⟩
  have hnumber : (0 + 1 : ℕ) = maxTries.toNat + 1 := (hlast.1.mp hfailed).2
  omega

/-- **Retries are counted exactly**, in every run of every node with this limit, if and only if the
limit is at most 127. -/
theorem counts_exactly_iff (maxTries : Byte) :
    (∀ config : Config, config.maxTries = maxTries → CountsExactly config) ↔
      maxTries.toNat ≤ 127 := by
  constructor
  · intro h
    by_contra hlarge
    exact not_countsExactly maxTries (by omega) (h _ rfl)
  · rintro hmax config rfl
    exact counts_exactly hmax

/-- With 128 retries configured there are none: the node 0x10 sends its QQ on a SYN, hears 0x11 in
its place, and gives up. -/
theorem no_retry_granted :
    let config : Config := { defaultConfig 0x10#8 with maxTries := 128 }
    let s := (init config).after
      [⟨syn, some (.new 0x10#8 0x08#8 0x0704#16 [0x12#8]), []⟩, ⟨0x11#8, none, []⟩]
    s.activeCommand.state = .endSendFailed ∧ ¬ CountsExactly config :=
  ⟨by decide +kernel, not_countsExactly 128 (by decide)⟩

end Ebus

end EsphomeEbus
