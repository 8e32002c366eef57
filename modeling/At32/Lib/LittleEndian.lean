import Mathlib.Data.Nat.Bitwise
import Mathlib.Tactic.Common

/-! Halfwords and words assembled from bytes, least significant byte first. -/

namespace LittleEndian

/-- The halfword with low byte (low) and high byte (high). -/
def half (low high : UInt8) : UInt16 :=
  low.toUInt16 ||| high.toUInt16 <<< 8

/-- The two bytes of a halfword, low byte first. -/
def lowByte (value : UInt16) : UInt8 := value.toUInt8

def highByte (value : UInt16) : UInt8 := (value >>> 8).toUInt8

/-- The word with the four bytes given low byte first. -/
def word (b0 b1 b2 b3 : UInt8) : UInt32 :=
  b0.toUInt32 ||| b1.toUInt32 <<< 8 ||| b2.toUInt32 <<< 16 ||| b3.toUInt32 <<< 24

/-- The four bytes of a word, low byte first. -/
def wordBytes (value : UInt32) : List UInt8 :=
  [
    (value &&& 0xFF).toUInt8, ((value >>> 8) &&& 0xFF).toUInt8,
    ((value >>> 16) &&& 0xFF).toUInt8, ((value >>> 24) &&& 0xFF).toUInt8
  ]

/-- A statement about all bytes is one about 256 numbers. -/
theorem forall_byte {property : UInt8 → Prop}
    (all : ∀ n : Fin 256, property (UInt8.ofNat n.val)) (b : UInt8)
    : property b := by
  have byte := all ⟨b.toNat, b.toNat_lt⟩
  rwa [UInt8.ofNat_toNat] at byte

/-- A halfword is the sum of its bytes by place value, since their bits are disjoint. -/
theorem half_toNat (low high : UInt8) : (half low high).toNat = low.toNat + 256 * high.toNat := by
  have lowBound := low.toNat_lt
  have highBound := high.toNat_lt
  have shifted : high.toNat <<< 8 % 2 ^ 16 = 2 ^ 8 * high.toNat := by
    rw [Nat.shiftLeft_eq]
    omega
  have disjoint := Nat.two_pow_add_eq_or_of_lt lowBound high.toNat
  simp only [half, UInt16.toNat_or, UInt8.toNat_toUInt16, UInt16.toNat_shiftLeft]
  rw [show UInt16.toNat 8 % 16 = 8 by rfl, shifted, Nat.lor_comm]
  omega

/-- Splitting a halfword into bytes and assembling them again gives it back. -/
@[simp] theorem half_bytes (value : UInt16) : half (lowByte value) (highByte value) = value := by
  have bound := value.toNat_lt
  simp only [← UInt16.toNat_inj, half_toNat, lowByte, highByte]
  simp
  omega

/-- Cutting a masked halfword to a byte gives its low byte. -/
theorem lowByte_masked (value : UInt16) : (value &&& 0xff).toUInt8 = lowByte value := by
  apply UInt8.toNat_inj.mp
  rw [UInt16.toNat_toUInt8, UInt16.toNat_and, lowByte, UInt16.toNat_toUInt8]
  exact (congrArg (· % 2 ^ 8) (Nat.and_two_pow_sub_one_eq_mod value.toNat 8)).trans
    (Nat.mod_mod _ _)

/-- The high half of a halfword, masked and moved down, gives its high byte. -/
theorem highByte_masked (value : UInt16)
    : ((value &&& 0xff00) >>> 8).toUInt8 = highByte value := by
  have moved : (value &&& 0xff00) >>> 8 = (value >>> 8) &&& 0xff := UInt16.shiftRight_and
  rw [moved, lowByte_masked]
  rfl

/-- A word is the sum of its bytes by place value, since their bits are disjoint. -/
theorem word_toNat (b0 b1 b2 b3 : UInt8)
    : (word b0 b1 b2 b3).toNat
      = b0.toNat + 2 ^ 8 * b1.toNat + 2 ^ 16 * b2.toNat + 2 ^ 24 * b3.toNat := by
  have bound0 := b0.toNat_lt
  have bound1 := b1.toNat_lt
  have bound2 := b2.toNat_lt
  have bound3 := b3.toNat_lt
  have joined1 := Nat.two_pow_add_eq_or_of_lt bound0 b1.toNat
  have joined2 :=
    Nat.two_pow_add_eq_or_of_lt (b := 2 ^ 8 * b1.toNat + b0.toNat) (i := 16) (by omega) b2.toNat
  have joined3 :=
    Nat.two_pow_add_eq_or_of_lt (i := 24)
      (b := 2 ^ 16 * b2.toNat + (2 ^ 8 * b1.toNat + b0.toNat)) (by omega) b3.toNat
  have shift1 : b1.toNat <<< 8 % 2 ^ 32 = 2 ^ 8 * b1.toNat := by
    rw [Nat.shiftLeft_eq]
    omega
  have shift2 : b2.toNat <<< 16 % 2 ^ 32 = 2 ^ 16 * b2.toNat := by
    rw [Nat.shiftLeft_eq]
    omega
  have shift3 : b3.toNat <<< 24 % 2 ^ 32 = 2 ^ 24 * b3.toNat := by
    rw [Nat.shiftLeft_eq]
    omega
  simp only [word, UInt32.toNat_or, UInt8.toNat_toUInt32, UInt32.toNat_shiftLeft]
  rw [show UInt32.toNat 8 % 32 = 8 by rfl, show UInt32.toNat 16 % 32 = 16 by rfl,
    show UInt32.toNat 24 % 32 = 24 by rfl, shift1, shift2, shift3, Nat.lor_comm b0.toNat,
    ← joined1, Nat.lor_comm _ (2 ^ 16 * _), ← joined2, Nat.lor_comm _ (2 ^ 24 * _), ← joined3]
  omega

/-- A word is joined from its two halfwords. -/
theorem word_halves (b0 b1 b2 b3 : UInt8)
    : (half b0 b1).toUInt32 ||| (half b2 b3).toUInt32 <<< 16 = word b0 b1 b2 b3 := by
  have low : (half b0 b1).toNat < 2 ^ 16 := (half b0 b1).toNat_lt
  have high : (half b2 b3).toNat < 2 ^ 16 := (half b2 b3).toNat_lt
  have shifted : (half b2 b3).toNat <<< 16 % 2 ^ 32 = 2 ^ 16 * (half b2 b3).toNat := by
    rw [Nat.shiftLeft_eq]
    omega
  have joined := Nat.two_pow_add_eq_or_of_lt low (half b2 b3).toNat
  rw [← UInt32.toNat_inj, word_toNat, UInt32.toNat_or, UInt32.toNat_shiftLeft,
    UInt16.toNat_toUInt32, UInt16.toNat_toUInt32, show UInt32.toNat 16 % 32 = 16 by rfl, shifted,
    Nat.lor_comm, ← joined, half_toNat, half_toNat]
  omega

/-- A byte of a word, moved down and masked, is a digit of its value. -/
theorem byteOf_toNat (value places : UInt32)
    : ((value >>> places) &&& 0xFF).toUInt8.toNat
      = value.toNat / 2 ^ (places.toNat % 32) % 2 ^ 8 := by
  rw [UInt32.toNat_toUInt8, UInt32.toNat_and, UInt32.toNat_shiftRight, Nat.shiftRight_eq_div_pow]
  exact (congrArg (· % 2 ^ 8) (Nat.and_two_pow_sub_one_eq_mod _ 8)).trans (Nat.mod_mod _ _)

/-- Splitting a word into bytes and assembling them again gives it back. -/
theorem word_bytes (value : UInt32)
    : word (value &&& 0xFF).toUInt8 ((value >>> 8) &&& 0xFF).toUInt8
        ((value >>> 16) &&& 0xFF).toUInt8 ((value >>> 24) &&& 0xFF).toUInt8
      = value := by
  have bound := value.toNat_lt
  have byte0 : (value &&& 0xFF).toUInt8.toNat = value.toNat % 2 ^ 8 := by
    have digit := byteOf_toNat value 0
    rw [UInt32.shiftRight_zero] at digit
    simpa using digit
  have byte1 : ((value >>> 8) &&& 0xFF).toUInt8.toNat = value.toNat / 2 ^ 8 % 2 ^ 8 :=
    byteOf_toNat value 8
  have byte2 : ((value >>> 16) &&& 0xFF).toUInt8.toNat = value.toNat / 2 ^ 16 % 2 ^ 8 :=
    byteOf_toNat value 16
  have byte3 : ((value >>> 24) &&& 0xFF).toUInt8.toNat = value.toNat / 2 ^ 24 % 2 ^ 8 :=
    byteOf_toNat value 24
  rw [← UInt32.toNat_inj, word_toNat, byte0, byte1, byte2, byte3]
  omega

/-- Masking with the low-byte mask keeps a widened byte. -/
@[simp] theorem mask_low (low : UInt8) : (0xff : UInt16) &&& low.toUInt16 = low.toUInt16 := by
  have bound := low.toNat_lt
  apply UInt16.toNat_inj.mp
  simp only [UInt16.toNat_and, UInt8.toNat_toUInt16]
  rw [Nat.land_comm]
  exact Nat.and_two_pow_sub_one_of_lt_two_pow (n := 8) (by simpa using bound)

/-- Masking with the high-byte mask keeps a widened byte moved to the high place. -/
@[simp] theorem mask_high (high : UInt8)
    : (high.toUInt16 <<< 8) &&& (0xff00 : UInt16) = high.toUInt16 <<< 8 := by
  have mask : (0xff00 : UInt16) = (0xff : UInt16) <<< 8 := rfl
  rw [mask, ← UInt16.shiftLeft_and, UInt16.and_comm, mask_low]

/-- Masking with the low-byte mask keeps a byte widened to a word. -/
@[simp] theorem mask_byte (byte : UInt8) : byte.toUInt32 &&& (0xFF : UInt32) = byte.toUInt32 := by
  have bound := byte.toNat_lt
  apply UInt32.toNat_inj.mp
  simp only [UInt32.toNat_and, UInt8.toNat_toUInt32]
  exact Nat.and_two_pow_sub_one_of_lt_two_pow (n := 8) (by simpa using bound)

/-- The halfwords of a byte list taken two by two; an odd last byte is left out. -/
def halves : List UInt8 → List UInt16
  | low :: high :: rest => half low high :: halves rest
  | _ => []

/-- Halving a list of even length and another list is halving their concatenation. -/
theorem halves_append (left right : List UInt8) (even : left.length % 2 = 0)
    : halves (left ++ right) = halves left ++ halves right := by
  induction left using halves.induct with
  | case1 low high rest ih =>
      simp only [List.length_cons] at even
      simp [halves, ih (by omega)]
  | case2 rest short =>
      match rest, short with
      | [], _ => simp [halves]
      | [_], _ => simp at even
      | low :: high :: rest, short => exact (short low high rest rfl).elim

theorem halves_length (bytes : List UInt8) : (halves bytes).length = bytes.length / 2 := by
  induction bytes using halves.induct with
  | case1 low high rest ih =>
      simp only [halves, List.length_cons, ih]
      omega
  | case2 rest short =>
      match rest, short with
      | [], _ => simp [halves]
      | [_], _ => simp [halves]
      | low :: high :: rest, short => exact (short low high rest rfl).elim

/-- The two bytes of a halfword in memory. -/
def halfBytes (value : UInt16) : List UInt8 := [lowByte value, highByte value]

/-- Assembling two bytes and splitting the halfword again gives them back. -/
theorem halfBytes_half (low high : UInt8) : halfBytes (half low high) = [low, high] := by
  have lowBound := low.toNat_lt
  have value := half_toNat low high
  have first : lowByte (half low high) = low := by
    rw [← UInt8.toNat_inj, lowByte, UInt16.toNat_toUInt8, value]
    omega
  have second : highByte (half low high) = high := by
    have bound := high.toNat_lt
    rw [← UInt8.toNat_inj, highByte, UInt16.toNat_toUInt8, UInt16.toNat_shiftRight, value,
      Nat.shiftRight_eq_div_pow, show UInt16.toNat 8 % 16 = 8 by rfl]
    omega
  rw [halfBytes, first, second]

/-- The first halfwords of a byte list are its first bytes in memory. -/
theorem halves_take (bytes : List UInt8) (count : Nat) (within : 2 * count ≤ bytes.length)
    : ((halves bytes).take count).flatMap halfBytes = bytes.take (2 * count) := by
  induction bytes using halves.induct generalizing count with
  | case1 low high rest ih =>
      cases count with
      | zero => simp
      | succ count =>
          simp only [List.length_cons] at within
          have room : 2 * count ≤ rest.length := by omega
          simp [halves, halfBytes_half, ih count room, Nat.mul_succ]
  | case2 rest short =>
      match rest, short with
      | [], _ => simp [halves]
      | [_], _ =>
          have none : count = 0 := by
            simp only [List.length_singleton] at within
            omega
          simp [none]
      | low :: high :: rest, short => exact (short low high rest rfl).elim

end LittleEndian
