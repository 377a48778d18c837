import EsphomeEbus.Configured
import EsphomeEbus.Responder
import Mathlib.Data.List.ReduceOption

/-!
# From a configuration to a component: the Python side

The schemas check what is written down and fill in defaults, and `to_code` writes the calls of the
setters.  An address is compared with SYN and ESC as it is written, and only then read as a number:
the text "0xAA" gets past the comparison.

* `Entry`, `Checks`: numbers and texts, and the checks of `esphome.config_validation` that the
  schemas are made of;
* `telegramSchema`, `configSchema`: what is accepted;
* `itemConfig`, `toCode`: the component that comes of it;
* `accepted_configured_iff`: what the schemas guarantee, and what they leave open.
-/

namespace EsphomeEbus

open Elf

/-- What is written down for a number: a number or a text. -/
inductive Entry where
  | number (value : ℤ)
  | text (value : String)
  deriving DecidableEq

instance (n : ℕ) : OfNat Entry n := ⟨.number n⟩

/-- Checks of entries, which read a text as a number; `cv.int_range(min, max)` is
`intRange min max`. -/
structure Checks where
  hexUint8 : Entry → Option Byte
  hexUint16 : Entry → Option (BitVec 16)
  uint8 : Entry → Option Byte
  intRange : ℤ → ℤ → Entry → Option ℤ

/-- They give back a number that is within their range. -/
structure Checks.Lawful (cv : Checks) : Prop where
  hexUint8 : ∀ value b, cv.hexUint8 (.number value) = some b → (b.toNat : ℤ) = value
  intRange : ∀ min max entry r, cv.intRange min max entry = some r → min ≤ r ∧ r ≤ max

/-- A value within a byte. -/
def byteOf (value : ℤ) : Option Byte :=
  if 0 ≤ value ∧ value ≤ 0xFF then some (BitVec.ofInt 8 value) else none

/-- A check of numbers, which reads no text. -/
def onNumbers {α : Type} (check : ℤ → Option α) : Entry → Option α
  | .number value => check value
  | .text _ => none

/-- The checks, for numbers. -/
def numbers : Checks where
  hexUint8 := onNumbers byteOf
  hexUint16 := onNumbers fun value =>
    if 0 ≤ value ∧ value ≤ 0xFFFF then some (BitVec.ofInt 16 value) else none
  uint8 := onNumbers byteOf
  intRange min max := onNumbers fun value =>
    if min ≤ value ∧ value ≤ max then some value else none

theorem lawful_numbers : numbers.Lawful where
  hexUint8 value b h := by
    obtain ⟨⟨hmin, hmax⟩, heq⟩ := Option.ite_none_right_eq_some.mp h
    obtain rfl := Option.some.inj heq
    rw [BitVec.toNat_ofInt]
    omega
  intRange min max entry r h := by
    cases entry with
    | number value =>
      obtain ⟨hrange, heq⟩ := Option.ite_none_right_eq_some.mp h
      exact Option.some.inj heq ▸ hrange
    | text value => cases h

/-! ### What is written down -/

/-- The entry `decode`, with what a platform adds to it. -/
structure DecodeConfig (D : Type) where
  position : Option Entry := none
  options : D

/-- The entry `telegram`. -/
structure TelegramConfig (D : Type) where
  sendPoll : Option Bool := none
  address : Option Entry := none
  command : Entry
  payload : List Entry
  decode : Option (DecodeConfig D) := none

/-- An item of one of the platforms: `bytes` and `divider` of a sensor or a number, `mask` of a
binary sensor. -/
inductive ItemConfig (F : Type) where
  | sensor (telegram : TelegramConfig (Entry × F))
  | binarySensor (telegram : TelegramConfig (Option Entry))
  | number (telegram : TelegramConfig (Entry × F))

/-- The entry `ebus`, without the UART and the interval, and the items of its platforms. -/
structure EbusConfig (F : Type) where
  primaryAddress : Option Entry := none
  maxTries : Option Entry := none
  maxLockCounter : Option Entry := none
  historyQueueSize : Option Entry := none
  commandQueueSize : Option Entry := none
  items : List (ItemConfig F)

/-! ### What the schemas make of it -/

/-- A telegram that has been checked; `decode` has the position and the options. -/
structure CheckedTelegram (D : Type) where
  sendPoll : Bool
  address : Option Byte
  command : BitVec 16
  payload : List Byte
  decode : Option (ℤ × D)

inductive CheckedItem (F : Type) where
  | sensor (telegram : CheckedTelegram (ℤ × F))
  | binarySensor (telegram : CheckedTelegram ℤ)
  | number (telegram : CheckedTelegram (ℤ × F))

structure CheckedConfig (F : Type) where
  primaryAddress : Option Byte
  maxTries : Byte
  maxLockCounter : Byte
  historyQueueSize : Byte
  commandQueueSize : Byte
  items : List (CheckedItem F)

section Schemas

variable {D E F : Type} (cv : Checks)

/-- `validate_ebus_address`: the comparisons come before the conversion. -/
def validateEbusAddress (address : Entry) : Option Byte :=
  if address = .number syn.toNat then none
  else if address = .number esc.toNat then none
  else cv.hexUint8 address

/-- `validate_primary_address`; it computes with the value, and fails on a text. -/
def validatePrimaryEntry : Entry → Option Byte := onNumbers validatePrimaryAddress

/-- `cv.Optional` without a default: an entry is checked if it is there. -/
def optional {α β : Type} (check : α → Option β) : Option α → Option (Option β)
  | none => some none
  | some a => (check a).map some

/-- `create_decode_schema`. -/
def decodeSchema (options : D → Option E) (config : DecodeConfig D) : Option (ℤ × E) :=
  (cv.intRange 0 15 (config.position.getD 0)).bind fun position =>
    (options config.options).map (Prod.mk position)

/-- `create_telegram_schema`. -/
def telegramSchema (options : D → Option E) (config : TelegramConfig D) :
    Option (CheckedTelegram E) := do
  let address ← optional (validateEbusAddress cv) config.address
  let command ← cv.hexUint16 config.command
  let payload ← config.payload.mapM cv.hexUint8
  let decode ← optional (decodeSchema cv options) config.decode
  return ⟨config.sendPoll.getD false, address, command, payload, decode⟩

/-- The options of a sensor, and of a number. -/
def sensorOptions (options : Entry × F) : Option (ℤ × F) :=
  (cv.intRange 1 4 options.1).map fun bytes => (bytes, options.2)

/-- The option of a binary sensor. -/
def binarySensorOptions (mask : Option Entry) : Option ℤ := cv.intRange 1 255 (mask.getD 0xFF)

def itemSchema : ItemConfig F → Option (CheckedItem F)
  | .sensor telegram => (telegramSchema cv (sensorOptions cv) telegram).map .sensor
  | .binarySensor telegram =>
    (telegramSchema cv (binarySensorOptions cv) telegram).map .binarySensor
  | .number telegram => (telegramSchema cv (sensorOptions cv) telegram).map .number

/-- `CONFIG_SCHEMA`, with those of the items. -/
def configSchema (config : EbusConfig F) : Option (CheckedConfig F) := do
  let primaryAddress ← optional validatePrimaryEntry config.primaryAddress
  let maxTries ← cv.hexUint8 (config.maxTries.getD 2)
  let maxLockCounter ← cv.hexUint8 (config.maxLockCounter.getD 4)
  let historyQueueSize ← cv.uint8 (config.historyQueueSize.getD 20)
  let commandQueueSize ← cv.uint8 (config.commandQueueSize.getD 10)
  let items ← config.items.mapM (itemSchema cv)
  return ⟨primaryAddress, maxTries, maxLockCounter, historyQueueSize, commandQueueSize, items⟩

end Schemas

/-- Every default passes its own check. -/
example : configSchema numbers { items := ([] : List (ItemConfig ℕ)) } =
    some ⟨none, 2, 4, 20, 10, []⟩ := rfl

/-! ### The code that is generated -/

section Code

variable {D F : Type}

/-- `item_config`: the item after the setters; without `decode` there is a `KeyError`. -/
def itemConfig (config : CheckedTelegram D) : Option EbusItem :=
  config.decode.map fun decode =>
    let item : EbusItem :=
      { sendPoll := config.sendPoll
        command := config.command
        payload := config.payload
        responsePosition := BitVec.ofInt 8 decode.1 }
    match config.address with
    | none => item
    | some address => item.setAddress address

/-- `to_code` of a platform: the item it adds to the component.  The one of numbers passes over the
telegram, and adds a sender instead. -/
def itemToCode : CheckedItem F → Option (Option (Item F))
  | .sensor config => do
    let item ← itemConfig config
    let decode ← config.decode
    return some (.sensor
      { toEbusItem := item
        responseBytes := BitVec.ofInt 8 decode.2.1
        responseDivider := decode.2.2 })
  | .binarySensor config => do
    let item ← itemConfig config
    let decode ← config.decode
    return some (.binarySensor { toEbusItem := item, mask := BitVec.ofInt 8 decode.2 })
  | .number _ => some none

/-- What the setters are called with, and how often `add_sender`, which the component does not have.
-/
structure GeneratedCode (F : Type) where
  settings : ComponentSettings F
  senders : ℕ

/-- `to_code` of the component and its items.  Without a primary address the setter is not called,
and the member has the value it happens to have. -/
def toCode (unset : Byte) (config : CheckedConfig F) : Option (GeneratedCode F) :=
  (config.items.mapM itemToCode).map fun items =>
    { settings :=
        { primaryAddress := config.primaryAddress.getD unset
          maxTries := config.maxTries
          maxLockCounter := config.maxLockCounter
          historyQueueSize := config.historyQueueSize
          commandQueueSize := config.commandQueueSize
          items := items.reduceOption }
      senders := items.countP Option.isNone }

end Code

/-! ### What is accepted -/

theorem mapM_eq_some_iff {α β : Type} {f : α → Option β} {as : List α} {bs : List β} :
    as.mapM f = some bs ↔ List.Forall₂ (fun a b => f a = some b) as bs := by
  induction as generalizing bs with
  | nil =>
    rw [List.mapM_nil, List.forall₂_nil_left_iff]
    exact ⟨fun h => (Option.some.inj h).symm, fun h => congrArg some h.symm⟩
  | cons a as ih =>
    rw [List.mapM_cons, List.forall₂_cons_left_iff]
    constructor
    · intro h
      obtain ⟨b, hb, h⟩ := Option.bind_eq_some_iff.mp h
      obtain ⟨bs', hbs, h⟩ := Option.bind_eq_some_iff.mp h
      exact ⟨b, bs', hb, ih.mp hbs, (Option.some.inj h).symm⟩
    · rintro ⟨b, bs', hb, hbs, rfl⟩
      rw [hb, ih.mpr hbs]
      rfl

theorem mapM_ne_none_iff {α β : Type} {f : α → Option β} {as : List α} :
    as.mapM f ≠ none ↔ ∀ a ∈ as, f a ≠ none := by
  induction as with
  | nil => exact iff_of_true (Option.some_ne_none []) (List.forall_mem_nil _)
  | cons a as ih =>
    rw [List.mapM_cons, List.forall_mem_cons, ← ih]
    cases f a <;> cases as.mapM f <;> simp

/-- What holds of the elements that belong together holds of all on one side and on the other. -/
theorem forall_iff_of_forall₂ {α β : Type} {P : α → Prop} {Q : β → Prop} {as : List α}
    {bs : List β} (h : List.Forall₂ (fun a b => P a ↔ Q b) as bs) :
    (∀ a ∈ as, P a) ↔ ∀ b ∈ bs, Q b := by
  induction h with
  | nil => exact iff_of_true (List.forall_mem_nil P) (List.forall_mem_nil Q)
  | cons hab _ ih => rw [List.forall_mem_cons, List.forall_mem_cons, hab, ih]

theorem countP_of_forall₂ {α β : Type} {p : α → Bool} {q : β → Bool} {as : List α} {bs : List β}
    (h : List.Forall₂ (fun a b => q b = p a) as bs) : bs.countP q = as.countP p := by
  induction h with
  | nil => rfl
  | cons hab _ ih => rw [List.countP_cons, List.countP_cons, ih, hab]

theorem forall₂_comp {α β γ : Type} {R : α → β → Prop} {S : β → γ → Prop} {as : List α}
    {bs : List β} {cs : List γ} (h : List.Forall₂ R as bs) (h' : List.Forall₂ S bs cs) :
    List.Forall₂ (Relation.Comp R S) as cs := by
  induction h generalizing cs with
  | nil =>
    obtain rfl := List.forall₂_nil_left_iff.mp h'
    exact .nil
  | cons hab _ ih =>
    obtain ⟨c, cs', hbc, hrest, rfl⟩ := List.forall₂_cons_left_iff.mp h'
    exact .cons ⟨_, hab, hbc⟩ (ih hrest)

theorem forall_reduceOption_iff {α : Type} {R : α → Prop} {as : List (Option α)} :
    (∀ a ∈ as.reduceOption, R a) ↔ ∀ o ∈ as, ∀ a, o = some a → R a := by
  simp only [List.reduceOption_mem_iff]
  exact ⟨fun h o ho a heq => h a (heq ▸ ho), fun h a ha => h _ ha a rfl⟩

section Accepted

variable {D E F : Type} {cv : Checks}

theorem optional_eq_some_iff {α β : Type} {check : α → Option β} {a : Option α} {b : Option β} :
    optional check a = some b ↔
      a = none ∧ b = none ∨ ∃ a' b', a = some a' ∧ check a' = some b' ∧ b = some b' := by
  cases a with
  | none => simp [optional, eq_comm]
  | some a => simp [optional, Option.map_eq_some_iff, eq_comm]

/-- A telegram is accepted entry by entry. -/
theorem telegramSchema_eq_some_iff {options : D → Option E} {config : TelegramConfig D}
    {checked : CheckedTelegram E} : telegramSchema cv options config = some checked ↔
      checked.sendPoll = config.sendPoll.getD false ∧
        optional (validateEbusAddress cv) config.address = some checked.address ∧
        cv.hexUint16 config.command = some checked.command ∧
        config.payload.mapM cv.hexUint8 = some checked.payload ∧
        optional (decodeSchema cv options) config.decode = some checked.decode := by
  constructor
  · intro h
    obtain ⟨address, haddress, h⟩ := Option.bind_eq_some_iff.mp h
    obtain ⟨command, hcommand, h⟩ := Option.bind_eq_some_iff.mp h
    obtain ⟨payload, hpayload, h⟩ := Option.bind_eq_some_iff.mp h
    obtain ⟨decode, hdecode, h⟩ := Option.bind_eq_some_iff.mp h
    obtain rfl := Option.some.inj h
    exact ⟨rfl, haddress, hcommand, hpayload, hdecode⟩
  · rintro ⟨hpoll, haddress, hcommand, hpayload, hdecode⟩
    rw [telegramSchema, haddress, hcommand, hpayload, hdecode, ← hpoll]
    rfl

/-- A position is checked, and the options are. -/
theorem decodeSchema_eq_some_iff {options : D → Option E} {config : DecodeConfig D}
    {decode : ℤ × E} : decodeSchema cv options config = some decode ↔
      cv.intRange 0 15 (config.position.getD 0) = some decode.1 ∧
        options config.options = some decode.2 := by
  obtain ⟨position, checked⟩ := decode
  simp only [decodeSchema, Option.bind_eq_some_iff, Option.map_eq_some_iff, Prod.mk.injEq]
  constructor
  · rintro ⟨_, hposition, _, hoptions, rfl, rfl⟩
    exact ⟨hposition, hoptions⟩
  · rintro ⟨hposition, hoptions⟩
    exact ⟨position, hposition, checked, hoptions, rfl, rfl⟩

/-- A number is compared with SYN and ESC; a text is not. -/
theorem validateEbusAddress_ne (hcv : cv.Lawful) {address : Entry} {b : Byte}
    (h : validateEbusAddress cv address = some b) :
    b ≠ syn ∧ b ≠ esc ∨ ∃ s, address = .text s ∧ (b = syn ∨ b = esc) := by
  rw [validateEbusAddress] at h
  split at h
  · cases h
  · rename_i hsyn
    split at h
    · cases h
    · rename_i hesc
      cases address with
      | number value =>
        have hvalue := hcv.hexUint8 value b h
        left
        constructor
        · rintro rfl
          exact hsyn (congrArg Entry.number hvalue.symm)
        · rintro rfl
          exact hesc (congrArg Entry.number hvalue.symm)
      | text s =>
        by_cases hb : b = syn ∨ b = esc
        · exact .inr ⟨s, rfl, hb⟩
        · exact .inl (not_or.mp hb)

/-- The secondary address of one that is neither SYN nor ESC is no control byte and no primary;
these two are their own. -/
theorem toSecondary_reserved_iff : ∀ a : Byte,
    (toSecondary a ≠ syn ∧ toSecondary a ≠ esc ∧ isPrimary (toSecondary a) = false) ↔
      a ≠ syn ∧ a ≠ esc := by
  decide +kernel

theorem toNat_ofInt_of_range {low high value : ℤ} (h0 : 0 ≤ low) (hlow : low ≤ value)
    (hhigh : value ≤ high) (h255 : high ≤ 255) :
    low ≤ (BitVec.ofInt 8 value).toNat ∧ ((BitVec.ofInt 8 value).toNat : ℤ) ≤ high := by
  rw [BitVec.toNat_ofInt]
  omega

/-! ### What comes of a telegram -/

section Telegram

variable {options : D → Option E} {config : TelegramConfig D} {checked : CheckedTelegram E}
  {item : EbusItem}

/-- The generator stumbles over a telegram without `decode`, which the schema accepts. -/
theorem itemConfig_eq_none_iff (h : telegramSchema cv options config = some checked) :
    itemConfig checked = none ↔ config.decode = none := by
  obtain ⟨-, -, -, -, hdecode⟩ := telegramSchema_eq_some_iff.mp h
  rw [itemConfig, Option.map_eq_none_iff]
  obtain ⟨hnone, hnone'⟩ | ⟨d, d', hsome, -, hsome'⟩ := optional_eq_some_iff.mp hdecode
  · exact iff_of_true hnone' hnone
  · rw [hsome, hsome']
    exact iff_of_false (Option.some_ne_none d') (Option.some_ne_none d)

/-- What has been decoded was written down, and has been checked. -/
theorem checked_decode (h : telegramSchema cv options config = some checked) {decode : ℤ × E}
    (hd : checked.decode = some decode) :
    ∃ d, config.decode = some d ∧ cv.intRange 0 15 (d.position.getD 0) = some decode.1 ∧
      options d.options = some decode.2 := by
  obtain ⟨-, -, -, -, hdecode⟩ := telegramSchema_eq_some_iff.mp h
  obtain ⟨-, hnone⟩ | ⟨d, d', hsome, hchecked, hsome'⟩ := optional_eq_some_iff.mp hdecode
  · rw [hd] at hnone
    cases hnone
  · rw [hd] at hsome'
    obtain rfl := Option.some.inj hsome'
    exact ⟨d, hsome, decodeSchema_eq_some_iff.mp hchecked⟩

/-- The address is a text that is read as SYN or as ESC. -/
def ReservedText (cv : Checks) (address : Entry) : Prop :=
  ∃ s, address = .text s ∧ (cv.hexUint8 address = some syn ∨ cv.hexUint8 address = some esc)

/-- A telegram that is polled has an address, which is no text for SYN or ESC, and a payload that
fits. -/
def TelegramConfig.Pollable (cv : Checks) (config : TelegramConfig D) : Prop :=
  config.sendPoll.getD false = true →
    (∃ address, config.address = some address ∧ ¬ ReservedText cv address) ∧
      config.payload.length < maxDataLength

/-- An accepted address is neither SYN nor ESC, unless it is a text for one of them. -/
theorem not_reservedText_iff (hcv : cv.Lawful) {address : Entry} {b : Byte}
    (h : validateEbusAddress cv address = some b) :
    ¬ ReservedText cv address ↔ b ≠ syn ∧ b ≠ esc := by
  have htext : ∀ s, address = .text s → cv.hexUint8 address = some b := by
    rintro s rfl
    exact h
  constructor
  · intro hread
    rcases validateEbusAddress_ne hcv h with hne | ⟨s, hs, hb⟩
    · exact hne
    · refine absurd ⟨s, hs, ?_⟩ hread
      rw [htext s hs]
      exact hb.imp (congrArg some) (congrArg some)
  · rintro ⟨hsyn, hesc⟩ ⟨s, hs, hb⟩
    rw [htext s hs] at hb
    exact hb.elim (fun heq => hsyn (Option.some.inj heq)) fun heq => hesc (Option.some.inj heq)

/-- What is written down for a telegram, in the item that comes of it. -/
structure Reflects (cv : Checks) (config : TelegramConfig D) (item : EbusItem) : Prop where
  sendPoll : item.sendPoll = config.sendPoll.getD false
  payload : item.payload.length = config.payload.length
  position : item.responsePosition.toNat ≤ 15
  everyone : config.address = none → item.address = syn
  address : ∀ address, config.address = some address →
    ∃ b, validateEbusAddress cv address = some b ∧ item.address = toSecondary b

theorem reflects_of_itemConfig (hcv : cv.Lawful)
    (h : telegramSchema cv options config = some checked) (hitem : itemConfig checked = some item) :
    Reflects cv config item := by
  obtain ⟨hpoll, haddress, -, hpayload, -⟩ := telegramSchema_eq_some_iff.mp h
  obtain ⟨decode, hdecode, hitem⟩ := Option.map_eq_some_iff.mp hitem
  have hlen : checked.payload.length = config.payload.length :=
    (mapM_eq_some_iff.mp hpayload).length_eq.symm
  have hposition : (BitVec.ofInt 8 decode.1).toNat ≤ 15 := by
    obtain ⟨d, -, hposition, -⟩ := checked_decode h hdecode
    obtain ⟨h0, h15⟩ := hcv.intRange _ _ _ _ hposition
    exact Int.ofNat_le.mp (toNat_ofInt_of_range le_rfl h0 h15 (by decide)).2
  obtain ⟨hnone, hnone'⟩ | ⟨a, b, hsome, hb, hsome'⟩ := optional_eq_some_iff.mp haddress
  · -- no address: the item keeps the SYN it starts with
    rw [hnone'] at hitem
    subst hitem
    exact ⟨hpoll, hlen, hposition, fun _ => rfl, fun a ha => by rw [hnone] at ha; cases ha⟩
  · rw [hsome'] at hitem
    subst hitem
    refine ⟨hpoll, hlen, hposition, fun hnone => ?_, fun address haddress => ?_⟩
    · rw [hsome] at hnone
      cases hnone
    · rw [hsome] at haddress
      obtain rfl := Option.some.inj haddress
      exact ⟨b, hb, rfl⟩

/-- The schema guarantees of an item that polls nothing that was not written down. -/
theorem Reflects.configured_iff (hcv : cv.Lawful) (h : Reflects cv config item) :
    (item.sendPoll = true → item.Configured) ↔ config.Pollable cv := by
  have haddress : (item.address ≠ syn ∧ item.address ≠ esc ∧ isPrimary item.address = false) ↔
      ∃ address, config.address = some address ∧ ¬ ReservedText cv address := by
    cases hsome : config.address with
    | none => simp [h.everyone hsome]
    | some address =>
      obtain ⟨b, hb, heq⟩ := h.address address hsome
      rw [heq, toSecondary_reserved_iff, ← not_reservedText_iff hcv hb]
      simp
  rw [h.sendPoll, TelegramConfig.Pollable]
  refine forall_congr' fun _ => ?_
  rw [← haddress, ← h.payload]
  exact ⟨fun hconf => ⟨hconf.address, hconf.payload⟩, fun hconf => ⟨hconf.1, hconf.2⟩⟩

end Telegram

/-! ### What comes of an item -/

section Items

variable {config : ItemConfig F} {checked : CheckedItem F} {item : Item F}

namespace ItemConfig

/-- What the item polls for; a number polls for nothing. -/
def Pollable (cv : Checks) : ItemConfig F → Prop
  | .sensor telegram => telegram.Pollable cv
  | .binarySensor telegram => telegram.Pollable cv
  | .number _ => True

/-- The item has an entry `decode`, if it needs one. -/
def Decodes : ItemConfig F → Prop
  | .sensor telegram => telegram.decode ≠ none
  | .binarySensor telegram => telegram.decode ≠ none
  | .number _ => True

def isNumber : ItemConfig F → Bool
  | .number _ => true
  | _ => false

end ItemConfig

/-- What an item reads off a response is within the ranges of the schema. -/
def Item.InRange : Item F → Prop
  | .sensor s =>
    s.responsePosition.toNat ≤ 15 ∧ 1 ≤ s.responseBytes.toNat ∧ s.responseBytes.toNat ≤ 4
  | .binarySensor s => s.responsePosition.toNat ≤ 15 ∧ s.mask ≠ 0

theorem itemToCode_eq_none_iff (h : itemSchema cv config = some checked) :
    itemToCode checked = none ↔ ¬ config.Decodes := by
  cases config with
  | sensor telegram =>
    obtain ⟨telegram', htelegram, rfl⟩ := Option.map_eq_some_iff.mp h
    rw [ItemConfig.Decodes, not_not, ← itemConfig_eq_none_iff htelegram]
    cases hd : telegram'.decode <;> simp [itemToCode, itemConfig, hd]
  | binarySensor telegram =>
    obtain ⟨telegram', htelegram, rfl⟩ := Option.map_eq_some_iff.mp h
    rw [ItemConfig.Decodes, not_not, ← itemConfig_eq_none_iff htelegram]
    cases hd : telegram'.decode <;> simp [itemToCode, itemConfig, hd]
  | number telegram =>
    obtain ⟨telegram', -, rfl⟩ := Option.map_eq_some_iff.mp h
    exact iff_of_false (Option.some_ne_none _) (not_not_intro trivial)

/-- An item that comes of an accepted one decodes within range, and is configured as far as it was
written down; a number leaves none. -/
theorem inRange_of_itemToCode (hcv : cv.Lawful) (h : itemSchema cv config = some checked)
    {added : Option (Item F)} (hitem : itemToCode checked = some added) :
    added.isNone = config.isNumber ∧ (∀ item, added = some item → item.InRange) ∧
      ((∀ item, added = some item → item.toEbusItem.sendPoll = true →
        item.toEbusItem.Configured) ↔ config.Pollable cv) := by
  cases config with
  | sensor telegram =>
    obtain ⟨telegram', htelegram, rfl⟩ := Option.map_eq_some_iff.mp h
    obtain ⟨base, hbase, hitem⟩ := Option.bind_eq_some_iff.mp hitem
    obtain ⟨decode, hdecode, hitem⟩ := Option.bind_eq_some_iff.mp hitem
    obtain rfl := Option.some.inj hitem
    have hreflects := reflects_of_itemConfig hcv htelegram hbase
    obtain ⟨d, -, -, hoptions⟩ := checked_decode htelegram hdecode
    obtain ⟨bytes, hbytes, hchecked⟩ := Option.map_eq_some_iff.mp hoptions
    obtain ⟨h1, h4⟩ := hcv.intRange _ _ _ _ hbytes
    obtain ⟨hlow, hhigh⟩ := toNat_ofInt_of_range (by decide) h1 h4 (by decide)
    have hread : bytes = decode.2.1 := congrArg Prod.fst hchecked
    rw [hread] at hlow hhigh
    simp only [Option.some.injEq, forall_eq']
    exact ⟨rfl, ⟨hreflects.position, Int.ofNat_le.mp hlow, Int.ofNat_le.mp hhigh⟩,
      hreflects.configured_iff hcv⟩
  | binarySensor telegram =>
    obtain ⟨telegram', htelegram, rfl⟩ := Option.map_eq_some_iff.mp h
    obtain ⟨base, hbase, hitem⟩ := Option.bind_eq_some_iff.mp hitem
    obtain ⟨decode, hdecode, hitem⟩ := Option.bind_eq_some_iff.mp hitem
    obtain rfl := Option.some.inj hitem
    have hreflects := reflects_of_itemConfig hcv htelegram hbase
    obtain ⟨d, -, -, hoptions⟩ := checked_decode htelegram hdecode
    obtain ⟨h1, h255⟩ := hcv.intRange _ _ _ _ hoptions
    obtain ⟨hlow, -⟩ := toNat_ofInt_of_range (by decide) h1 h255 (by decide)
    simp only [Option.some.injEq, forall_eq']
    refine ⟨rfl, ⟨hreflects.position, fun hzero => ?_⟩, hreflects.configured_iff hcv⟩
    have hmask : BitVec.ofInt 8 decode.2 = 0 := hzero
    rw [hmask] at hlow
    exact absurd hlow (by decide)
  | number telegram =>
    obtain ⟨telegram', -, rfl⟩ := Option.map_eq_some_iff.mp h
    obtain rfl := Option.some.inj hitem
    exact ⟨rfl, by simp, iff_of_true (by simp) trivial⟩

end Items

/-! ### What comes of a configuration -/

/-- An address that has been checked is primary; one that was not set is what it happens to be. -/
theorem isPrimary_getD_iff {entry : Option Entry} {primaryAddress : Option Byte}
    (h : optional validatePrimaryEntry entry = some primaryAddress) (unset : Byte) :
    isPrimary (primaryAddress.getD unset) = true ↔ (entry = none → isPrimary unset = true) := by
  obtain ⟨hnone, rfl⟩ | ⟨entry', a, hsome, hvalue, rfl⟩ := optional_eq_some_iff.mp h
  · exact ⟨fun hunset _ => hunset, fun hunset => hunset hnone⟩
  · refine iff_of_true ?_ fun hnone => ?_
    · cases entry' with
      | number value => exact isPrimary_of_validate hvalue
      | text s => cases hvalue
    · rw [hsome] at hnone
      cases hnone

/-- **What an accepted configuration promises.**  Code is generated for it exactly if every sensor
and every binary sensor has something to decode; a number leaves no item, but a call of
`add_sender`.  Then all items decode within range; and the component is configured, as it must be
for what is said of the bus, exactly if it has a primary address, or finds one in the member that
was never set, and everything that polls has an address that is no text for SYN or ESC, and a
payload that fits. -/
theorem accepted_configured_iff (hcv : cv.Lawful) {config : EbusConfig F}
    {checked : CheckedConfig F} (h : configSchema cv config = some checked) (unset : Byte) :
    (toCode unset checked ≠ none ↔ ∀ item ∈ config.items, item.Decodes) ∧
      ∀ code, toCode unset checked = some code →
        code.senders = config.items.countP ItemConfig.isNumber ∧
        (∀ item ∈ code.settings.items, item.InRange) ∧
          (code.settings.Configured ↔ (config.primaryAddress = none → isPrimary unset = true) ∧
            ∀ item ∈ config.items, item.Pollable cv) := by
  obtain ⟨primaryAddress, haddress, h⟩ := Option.bind_eq_some_iff.mp h
  obtain ⟨maxTries, -, h⟩ := Option.bind_eq_some_iff.mp h
  obtain ⟨maxLockCounter, -, h⟩ := Option.bind_eq_some_iff.mp h
  obtain ⟨historyQueueSize, -, h⟩ := Option.bind_eq_some_iff.mp h
  obtain ⟨commandQueueSize, -, h⟩ := Option.bind_eq_some_iff.mp h
  obtain ⟨items, hitems, h⟩ := Option.bind_eq_some_iff.mp h
  obtain rfl := Option.some.inj h
  have hchecked := mapM_eq_some_iff.mp hitems
  constructor
  · rw [toCode, Ne, Option.map_eq_none_iff, ← Ne, mapM_ne_none_iff]
    refine (forall_iff_of_forall₂ (hchecked.imp fun item checked hitem => ?_)).symm
    rw [Ne, itemToCode_eq_none_iff hitem, not_not]
  · intro code hcode
    obtain ⟨generated, hgenerated, rfl⟩ := Option.map_eq_some_iff.mp hcode
    have hitem : List.Forall₂ (fun config added => added.isNone = config.isNumber ∧
        (∀ item, added = some item → item.InRange) ∧
          ((∀ item, added = some item → item.toEbusItem.sendPoll = true →
            item.toEbusItem.Configured) ↔ config.Pollable cv)) config.items generated :=
      (forall₂_comp hchecked (mapM_eq_some_iff.mp hgenerated)).imp
        fun config added ⟨checked, hschema, hcode⟩ => inRange_of_itemToCode hcv hschema hcode
    refine ⟨?_, ?_, ?_⟩
    · exact countP_of_forall₂ (hitem.imp fun _ _ h => h.1)
    · rw [forall_reduceOption_iff]
      refine (forall_iff_of_forall₂ (P := fun _ => True)
        (Q := fun added => ∀ item, added = some item → item.InRange)
        (hitem.imp fun _ _ h => ?_)).mp fun _ _ => trivial
      exact iff_of_true trivial h.2.1
    have hpolls : (∀ item ∈ generated.reduceOption, item.toEbusItem.sendPoll = true →
        item.toEbusItem.Configured) ↔ ∀ item ∈ config.items, item.Pollable cv := by
      rw [forall_reduceOption_iff]
      exact (forall_iff_of_forall₂ (hitem.imp fun _ _ h => h.2.2.symm)).symm
    rw [← isPrimary_getD_iff haddress unset, ← hpolls]
    exact ⟨fun hconf => ⟨hconf.primary, hconf.polls⟩, fun hconf => ⟨hconf.1, hconf.2⟩⟩

end Accepted

/-- A component with an item that polls the water pressure. -/
def waterPressure : EbusConfig ℕ where
  primaryAddress := some 0x00
  historyQueueSize := some 32
  commandQueueSize := some 16
  items := [.sensor
    { sendPoll := some true
      address := some 0x03
      command := 0xB509
      payload := [0x0D, 0x02, 0x00]
      decode := some { options := (2, 1000) } }]

theorem waterPressure_configured : ∃ checked code,
    configSchema numbers waterPressure = some checked ∧ toCode syn checked = some code ∧
      code.settings.Configured := by
  refine ⟨_, _, rfl, rfl, ?_⟩
  refine ((@accepted_configured_iff _ _ lawful_numbers waterPressure _ rfl syn).2 _ rfl).2.2.mpr
    ⟨fun hnone => absurd hnone (Option.some_ne_none _), fun item hitem => ?_⟩
  obtain rfl := List.mem_singleton.mp hitem
  exact fun _ => ⟨⟨_, rfl, fun ⟨_, htext, _⟩ => by cases htext⟩, by decide⟩

end EsphomeEbus
