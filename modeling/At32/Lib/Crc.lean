import Mathlib.Logic.Function.Iterate
import Mathlib.Tactic.Common

/-! A most-significant-bit-first cyclic redundancy check kept in a 32-bit register.
Only the low sixteen bits of the register are the check value; what accumulates above them
is never cleared by the loop.
-/

namespace Crc

variable (poly : UInt32)

/-- One bit of the loop: shift left and reduce when bit 15 leaves. -/
def shiftBit (crc : UInt32) : UInt32 :=
  let temp := crc <<< 1
  if crc &&& 0x8000 ≠ 0 then temp ^^^ poly else temp

/-- One byte of the loop: add the byte at bits 8 to 15 and shift eight times. -/
def feedByte (crc : UInt32) (byte : UInt8) : UInt32 :=
  (shiftBit poly)^[8] (crc ^^^ (byte.toUInt32 <<< 8))

/-- The register after a byte string. -/
def feed (crc : UInt32) (bytes : List UInt8) : UInt32 :=
  bytes.foldl (feedByte poly) crc

theorem feed_append (crc : UInt32) (left right : List UInt8)
    : feed poly crc (left ++ right) = feed poly (feed poly crc left) right :=
  List.foldl_append

/-- The reduction test reads only the low sixteen bits. -/
theorem bit15_iff (crc : UInt32) : crc &&& 0x8000 = 0 ↔ crc.toUInt16 &&& 0x8000 = 0 := by
  have small : (crc &&& 0x8000).toNat ≤ 0x8000 := by
    rw [UInt32.toNat_and]
    exact Nat.and_le_right
  have narrowed : (crc &&& 0x8000).toUInt16 = crc.toUInt16 &&& 0x8000 := by
    rw [UInt32.toUInt16_and]
    rfl
  rw [← narrowed, ← UInt32.toNat_inj, ← UInt16.toNat_inj, UInt32.toNat_toUInt16]
  simp only [UInt32.toNat_zero, UInt16.toNat_zero]
  omega

/-- Registers that agree on the low sixteen bits still agree after one bit of the loop. -/
theorem shiftBit_low {left right : UInt32} (same : left.toUInt16 = right.toUInt16)
    : (shiftBit poly left).toUInt16 = (shiftBit poly right).toUInt16 := by
  have test := (bit15_iff left).trans (same ▸ (bit15_iff right).symm)
  have shifted : (left <<< 1).toUInt16 = (right <<< 1).toUInt16 := by
    have value := UInt16.toNat_inj.mpr same
    simp only [← UInt16.toNat_inj, UInt32.toNat_toUInt16, UInt32.toNat_shiftLeft] at value ⊢
    rw [show UInt32.toNat 1 % 32 = 1 by rfl, Nat.shiftLeft_eq, Nat.shiftLeft_eq]
    omega
  by_cases reduce : left &&& 0x8000 = 0
  · simp [shiftBit, reduce, test.mp reduce, shifted]
  · simp [shiftBit, reduce, mt test.mpr reduce, shifted]

/-- Registers that agree on the low sixteen bits still agree after one byte. -/
theorem feedByte_low {left right : UInt32} (same : left.toUInt16 = right.toUInt16)
    (byte : UInt8)
    : (feedByte poly left byte).toUInt16 = (feedByte poly right byte).toUInt16 := by
  have shifts (count : Nat) {left right : UInt32} (same : left.toUInt16 = right.toUInt16)
      : ((shiftBit poly)^[count] left).toUInt16 = ((shiftBit poly)^[count] right).toUInt16 := by
    induction count generalizing left right with
    | zero => exact same
    | succ count ih => exact ih (shiftBit_low poly same)
  exact shifts 8 (by simp [same])

/-- The check value depends only on the low sixteen bits of the starting register. -/
theorem feed_low {left right : UInt32} (same : left.toUInt16 = right.toUInt16)
    (bytes : List UInt8)
    : (feed poly left bytes).toUInt16 = (feed poly right bytes).toUInt16 := by
  induction bytes generalizing left right with
  | nil => exact same
  | cons byte rest ih => exact ih (feedByte_low poly same byte)

/-- Cutting the register to sixteen bits between two parts does not change the check
value of the whole.
-/
theorem feed_truncated (crc : UInt32) (left right : List UInt8)
    : (feed poly (feed poly crc left).toUInt16.toUInt32 right).toUInt16
      = (feed poly crc (left ++ right)).toUInt16 := by
  rw [feed_append]
  exact feed_low poly (UInt16.toUInt16_toUInt32 _) right

end Crc
