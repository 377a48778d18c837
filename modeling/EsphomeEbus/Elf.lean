import Mathlib.Logic.Function.Iterate

/-!
# `Elf`: checksum and address arithmetic

The static helpers of `ebus.cpp`.  A `uint8_t` is a `BitVec 8`, so its operations wrap as they do
in the source; where the source computes in `int`, the computation is done in `ℕ` and cut back.
-/

namespace EsphomeEbus

/-- `uint8_t`. -/
abbrev Byte := BitVec 8

namespace Elf

/-- One turn of the loop of `crc8_calc`, on the running `(crc, data)`. -/
def crc8Bit (p : Byte × Byte) : Byte × Byte :=
  let polynom : Byte := if p.1 &&& 0x80#8 ≠ 0 then 0x9B#8 else 0
  let crc : Byte := (p.1 &&& ~~~0x80#8) <<< 1
  let crc : Byte := if p.2 &&& 0x80#8 ≠ 0 then crc ||| 1 else crc
  (crc ^^^ polynom, p.2 <<< 1)

def crc8Calc (data crcInit : Byte) : Byte := (crc8Bit^[8] (crcInit, data)).1

/-- The checksum of a list of bytes, continued from `crc`. -/
def crc8From (crc : Byte) (data : List Byte) : Byte :=
  data.foldl (fun crc b => crc8Calc b crc) crc

def crc8Array (data : List Byte) (length : ℕ) : Byte := crc8From 0 (data.take length)

def isPrimaryNibble (nibble : Byte) : Bool :=
  match nibble with
  | 0b0000#8 => true
  | 0b0001#8 => true
  | 0b0011#8 => true
  | 0b0111#8 => true
  | 0b1111#8 => true
  | _ => false

def getPriorityClass (address : Byte) : Byte := address &&& 0x0F#8

def getSubAddress (address : Byte) : Byte := address >>> 4

def isPrimary (address : Byte) : Bool :=
  isPrimaryNibble (getPriorityClass address) && isPrimaryNibble (getSubAddress address)

def toSecondary (address : Byte) : Byte :=
  if isPrimary address then BitVec.ofNat 8 ((address.toNat + 5) % 0xFF) else address

theorem crc8From_append (crc : Byte) (xs ys : List Byte) :
    crc8From crc (xs ++ ys) = crc8From (crc8From crc xs) ys := List.foldl_append

@[simp] theorem crc8From_nil (crc : Byte) : crc8From crc [] = crc := rfl

@[simp] theorem crc8From_cons (crc b : Byte) (bs : List Byte) :
    crc8From crc (b :: bs) = crc8From (crc8Calc b crc) bs := rfl

end Elf

end EsphomeEbus
