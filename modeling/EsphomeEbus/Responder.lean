import EsphomeEbus.Answer

/-!
# Two nodes on one bus

Nodes that hear the same bytes have the same receiving telegram, so only their own addresses tell
them apart when a request is complete.  `to_secondary` computes modulo 0xFF, not modulo 0x100, and
gives the primaries 0x00 and 0xFF the same secondary 0x05.

* `validatePrimaryAddress`: the addresses a configuration may have;
* `toSecondary_inj_iff`: two of them share a secondary only if they are 0x00 and 0xFF;
* `one_responder_iff`: no other two nodes ever answer the same request.
-/

namespace EsphomeEbus

open Elf Transducer Stuffing

/-! ### Configured addresses: `__init__.py` -/

/-- `is_primary_nibble`. -/
def isPrimaryNibbleOf (value : ℤ) : Bool := value % 16 ∈ [0x00, 0x01, 0x03, 0x07, 0x0F]

/-- `validate_primary_address`; a shift to the right is a division that rounds down. -/
def validatePrimaryAddress (value : ℤ) : Option Byte :=
  if isPrimaryNibbleOf value && isPrimaryNibbleOf (value / 16) then some (BitVec.ofInt 8 value)
  else none

/-- Every byte is checked in the same way by the schema and by `Elf::is_primary`. -/
theorem validatePrimaryAddress_of_byte : ∀ a : Byte, validatePrimaryAddress a.toNat =
    if isPrimary a then some a else none := by decide +kernel

/-- A value is checked and cut by its lowest byte. -/
theorem validatePrimaryAddress_eq (value : ℤ) :
    validatePrimaryAddress value = validatePrimaryAddress (BitVec.ofInt 8 value).toNat := by
  have hnat : ((BitVec.ofInt 8 value).toNat : ℤ) = value % 256 := by
    rw [BitVec.toNat_ofInt]
    exact Int.toNat_of_nonneg (Int.emod_nonneg _ (by decide))
  have hlow : value % 256 % 16 = value % 16 := by omega
  have hhigh : value % 256 / 16 % 16 = value / 16 % 16 := by omega
  have hbyte : BitVec.ofInt 8 (value % 256) = BitVec.ofInt 8 value := by
    apply BitVec.eq_of_toNat_eq
    rw [BitVec.toNat_ofInt, BitVec.toNat_ofInt]
    omega
  rw [hnat]
  unfold validatePrimaryAddress isPrimaryNibbleOf
  rw [hlow, hhigh, hbyte]

/-- A configured address is a primary. -/
theorem isPrimary_of_validate {value : ℤ} {a : Byte} (h : validatePrimaryAddress value = some a) :
    isPrimary a = true := by
  rw [validatePrimaryAddress_eq, validatePrimaryAddress_of_byte] at h
  split at h
  · rename_i hprimary
    obtain rfl := Option.some.inj h
    exact hprimary
  · cases h

/-- **Two primaries share a secondary** only if they are 0x00 and 0xFF. -/
theorem toSecondary_inj_iff {a b : Byte} (ha : isPrimary a = true) (hb : isPrimary b = true) :
    toSecondary a = toSecondary b ↔
      a = b ∨ a = 0x00#8 ∧ b = 0xFF#8 ∨ a = 0xFF#8 ∧ b = 0x00#8 := by
  have halt := a.isLt
  have hblt := b.isLt
  rw [toSecondary, if_pos ha, toSecondary, if_pos hb]
  simp only [← BitVec.toNat_inj, BitVec.toNat_ofNat]
  omega

/-! ### Nodes that hear the same bytes -/

/-- What the receiver makes of a symbol does not depend on what it queues. -/
theorem run_hear_congr (queues queues' : Bool) (t : Telegram) (ys : List (Symbol Byte)) :
    run (hear queues) t ys = run (hear queues') t ys := by
  induction ys generalizing t with
  | nil => rfl
  | cons y ys ih =>
    have hstep : (hear queues t y).1 = (hear queues' t y).1 := by
      cases y <;> rfl
    rw [run_cons, run_cons, hstep, ih]

/-- Two nodes that have heard the same bytes have the same receiving telegram. -/
theorem Ebus.receivingTelegram_congr {config config' : Config} {calls calls' : List Call}
    (h : bytesOf calls = bytesOf calls') :
    ((init config).after calls).receivingTelegram =
      ((init config').after calls').receivingTelegram := by
  rw [after_receivingTelegram, after_receivingTelegram, h]
  exact run_hear_congr _ _ _ _

namespace Ebus

/-- On some byte stream some request makes both nodes answer in the same step. -/
def BothAnswer (config config' : Config) : Prop :=
  ∃ (calls calls' : List Call) (call call' : Call),
    bytesOf calls = bytesOf calls' ∧ call.receivedByte = call'.receivedByte ∧
      (((init config).after calls).processReceivedChar call).2.answer ≠ [] ∧
      (((init config').after calls').processReceivedChar call').2.answer ≠ []

/-- Two nodes that answer the same request have the same secondary address. -/
theorem toSecondary_eq_of_bothAnswer {config config' : Config} (h : BothAnswer config config') :
    toSecondary config.primaryAddress = toSecondary config'.primaryAddress := by
  obtain ⟨calls, calls', call, call', hbytes, hbyte, hanswer, hanswer'⟩ := h
  have hz := (answer_iff.mp hanswer).2
  have hz' := (answer_iff.mp hanswer').2
  have hboth : bytesOf (calls ++ [call]) = bytesOf (calls' ++ [call']) := by
    simp only [bytesOf, List.map_append, List.map_cons, List.map_nil] at hbytes ⊢
    rw [hbytes, hbyte]
  rw [← after_concat, after_config] at hz hz'
  have hsame : ((init config).after (calls ++ [call])).receivingTelegram =
      ((init config').after (calls' ++ [call'])).receivingTelegram := receivingTelegram_congr hboth
  exact (hz.symm.trans (congrArg (fun t : Telegram => t.getZz) hsame)).trans hz'

/-- A request of the primary 0x10 to the secondary 0x05, without its checksum. -/
def requestToFive : List Byte := [0xAA#8, 0x10#8, 0x05#8, 0x07#8, 0x04#8, 0x00#8]

/-- Its checksum makes every node with that secondary address answer. -/
theorem answers_requestToFive {config : Config} (h : toSecondary config.primaryAddress = 0x05#8) :
    (((init config).after (quiet requestToFive)).processReceivedChar
      ⟨0xF7#8, none, []⟩).2.answer ≠ [] := by
  rw [answer_iff, Enters, after_config, ← after_concat]
  have hsame : ∀ calls, ((init config).after calls).receivingTelegram =
      ((init (defaultConfig 0x00#8)).after calls).receivingTelegram :=
    fun _ => receivingTelegram_congr rfl
  rw [hsame, hsame]
  show _ ∧ _ = toSecondary config.primaryAddress
  rw [h]
  decide +kernel

/-- **At most one responder.**  Two nodes with different configured addresses, whatever else they
are configured with, never both answer a request, if and only if their addresses are not 0x00 and
0xFF. -/
theorem one_responder_iff {config config' : Config} {value value' : ℤ}
    (hvalid : validatePrimaryAddress value = some config.primaryAddress)
    (hvalid' : validatePrimaryAddress value' = some config'.primaryAddress)
    (hne : config.primaryAddress ≠ config'.primaryAddress) :
    ¬ BothAnswer config config' ↔
      ¬ (config.primaryAddress = 0x00#8 ∧ config'.primaryAddress = 0xFF#8 ∨
        config.primaryAddress = 0xFF#8 ∧ config'.primaryAddress = 0x00#8) := by
  have hinj := toSecondary_inj_iff (isPrimary_of_validate hvalid) (isPrimary_of_validate hvalid')
  rw [or_iff_right hne] at hinj
  rw [← hinj]
  apply not_congr
  constructor
  · exact toSecondary_eq_of_bothAnswer
  · intro hsame
    have hfive : toSecondary config.primaryAddress = 0x05#8 := by
      rcases hinj.mp hsame with h | h
      · rw [h.1]
        decide
      · rw [h.1]
        decide
    refine ⟨quiet requestToFive, quiet requestToFive, ⟨0xF7#8, none, []⟩, ⟨0xF7#8, none, []⟩, rfl,
      rfl, answers_requestToFive hfive, answers_requestToFive (hsame ▸ hfive)⟩

/-- The nodes 0x03 and 0x10 never both answer. -/
theorem one_responder_three_ten : ¬ BothAnswer (defaultConfig 0x03#8) (defaultConfig 0x10#8) ↔
    ¬ ((0x03#8 : Byte) = 0x00#8 ∧ (0x10#8 : Byte) = 0xFF#8 ∨
      (0x03#8 : Byte) = 0xFF#8 ∧ (0x10#8 : Byte) = 0x00#8) :=
  @one_responder_iff (defaultConfig 0x03#8) (defaultConfig 0x10#8) 0x03 0x10 (by decide)
    (by decide) (by decide)

/-- The nodes 0x00 and 0xFF both answer a request to 0x05. -/
theorem both_answer_zero_ff :
    validatePrimaryAddress 0x00 = some (defaultConfig 0x00#8).primaryAddress ∧
      validatePrimaryAddress 0xFF = some (defaultConfig 0xFF#8).primaryAddress ∧
      BothAnswer (defaultConfig 0x00#8) (defaultConfig 0xFF#8) :=
  ⟨by decide, by decide, quiet requestToFive, quiet requestToFive, ⟨0xF7#8, none, []⟩,
    ⟨0xF7#8, none, []⟩, rfl, rfl, by decide +kernel, by decide +kernel⟩

end Ebus

end EsphomeEbus
