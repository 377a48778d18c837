import EsphomeEbus.Telegram
import Mathlib.Algebra.Ring.Nat

/-!
# The component and its items: `ebus_component.h` and `ebus_component.cpp`

What happens to a telegram once it has left the queue.  Logging is not modelled.
-/

namespace EsphomeEbus

/-- `EbusComponent::handle_message_`: the calls of `process_received` it makes, one for each item.
-/
def handleMessage {Item : Type*} (items : List Item) (telegram : Telegram) :
    List (Item × Telegram) :=
  if telegram.state ≠ .endCompleted then [] else items.map fun item => (item, telegram)

/-- The loop of `EbusItem::get_response_bytes`, from `i` with `n` turns to go. -/
def getResponseBytesFrom (telegram : Telegram) (start : Byte) : ℕ → ℕ → BitVec 32 → BitVec 32
  | 0, _, result => result
  | n + 1, i, result =>
    let byte := telegram.getResponseByte (start + BitVec.ofNat 8 i)
    getResponseBytesFrom telegram start n (i + 1)
      (result ||| BitVec.ofInt 32 byte <<< (i * 8))

/-- `EbusItem::get_response_bytes`. -/
def getResponseBytes (telegram : Telegram) (start length : Byte) : BitVec 32 :=
  getResponseBytesFrom telegram start (min 4 length.toNat) 0 0

/-- The number that some bytes spell, the least significant first. -/
def littleEndian : List Byte → ℕ
  | [] => 0
  | b :: bs => b.toNat + 256 * littleEndian bs

/-- One turn of the loop: a byte is put above the bytes so far. -/
theorem or_shiftLeft_toNat {result : BitVec 32} {b : Byte} {i : ℕ} (hi : i < 4)
    (hr : result.toNat < 256 ^ i) :
    (result ||| BitVec.ofInt 32 (b.toNat : ℤ) <<< (i * 8)).toNat =
      result.toNat + 256 ^ i * b.toNat := by
  have hpow : 256 ^ i = 2 ^ (i * 8) := by rw [Nat.mul_comm, Nat.pow_mul]
  have hb : b.toNat < 2 ^ 8 := b.isLt
  have hroom : b.toNat <<< (i * 8) < 2 ^ 32 := by
    rw [Nat.shiftLeft_eq]
    calc b.toNat * 2 ^ (i * 8) < 2 ^ 8 * 2 ^ (i * 8) :=
          Nat.mul_lt_mul_of_pos_right hb (Nat.two_pow_pos _)
      _ = 2 ^ (8 + i * 8) := by rw [Nat.pow_add]
      _ ≤ 2 ^ 32 := Nat.pow_le_pow_right (by decide) (by omega)
  rw [BitVec.ofInt_natCast, BitVec.toNat_or, BitVec.toNat_shiftLeft, BitVec.toNat_ofNat,
    Nat.mod_eq_of_lt (Nat.lt_trans hb (by decide)), Nat.mod_eq_of_lt hroom, Nat.or_comm,
    ← Nat.shiftLeft_add_eq_or_of_lt (by rw [← hpow]; exact hr), Nat.shiftLeft_eq, hpow,
    Nat.mul_comm, Nat.add_comm]

theorem getResponseBytesFrom_toNat {telegram : Telegram} {start : Byte} {bs : List Byte} {i : ℕ}
    {result : BitVec 32} (hr : result.toNat < 256 ^ i) (hlen : i + bs.length ≤ 4)
    (h : ∀ k (hk : k < bs.length),
      telegram.getResponseByte (start + BitVec.ofNat 8 (i + k)) = (bs[k]).toNat) :
    (getResponseBytesFrom telegram start bs.length i result).toNat =
      result.toNat + 256 ^ i * littleEndian bs := by
  induction bs generalizing i result with
  | nil => simp [getResponseBytesFrom, littleEndian]
  | cons b bs ih =>
    rw [List.length_cons] at hlen
    have hbyte : telegram.getResponseByte (start + BitVec.ofNat 8 i) = b.toNat := h 0 (by simp)
    have hstep := or_shiftLeft_toNat (b := b) (by omega) hr
    have hb : b.toNat < 256 := b.isLt
    rw [List.length_cons, getResponseBytesFrom, hbyte, ih ?_ (by omega) ?_, hstep, littleEndian]
    · rw [Nat.pow_succ, Nat.mul_add, Nat.mul_assoc, Nat.add_assoc]
    · rw [hstep, Nat.pow_succ]
      calc result.toNat + 256 ^ i * b.toNat < 256 ^ i + 256 ^ i * b.toNat :=
            Nat.add_lt_add_right hr _
        _ = 256 ^ i * (b.toNat + 1) := by rw [Nat.mul_add, Nat.mul_one, Nat.add_comm]
        _ ≤ 256 ^ i * 256 := Nat.mul_le_mul_left _ hb
    · intro k hk
      have hnext := h (k + 1) (by simpa using hk)
      rwa [show i + (k + 1) = i + 1 + k by omega] at hnext

/-- `get_response_bytes` reads a number off the response, the least significant byte first. -/
theorem getResponseBytes_toNat {telegram : Telegram} {start length : Byte} {bs : List Byte}
    (hlen : bs.length = min 4 length.toNat)
    (h : ∀ k (hk : k < bs.length),
      telegram.getResponseByte (start + BitVec.ofNat 8 k) = (bs[k]).toNat) :
    (getResponseBytes telegram start length).toNat = littleEndian bs := by
  rw [getResponseBytes, ← hlen,
    getResponseBytesFrom_toNat (by decide) (by omega) (by simpa using h)]
  simp

end EsphomeEbus
