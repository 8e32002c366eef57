import At32.Lib.Crc
import Mathlib.Algebra.Field.ZMod
import Mathlib.Algebra.Polynomial.OfFn
import Mathlib.RingTheory.AdjoinRoot

/-! The check value of the register loop as a remainder of polynomials over GF(2).
A word stands for the polynomial whose coefficients are its bits; in the quotient by the
generator one bit of the loop multiplies by X.
-/

namespace Crc

open Polynomial

-----------------------------------------------------------------------------------------
-- Words as polynomials
-----------------------------------------------------------------------------------------

section Words

variable {width : Nat}

/-- The polynomial whose coefficient of X^i is bit i of the word. -/
noncomputable def wordPoly (word : BitVec width) : (ZMod 2)[X] :=
  Polynomial.ofFn width fun i => if word.getLsbD i then 1 else 0

@[simp] theorem wordPoly_coeff (word : BitVec width) (i : Nat)
    : (wordPoly word).coeff i = if word.getLsbD i then 1 else 0 := by
  by_cases inside : i < width
  · exact Polynomial.ofFn_coeff_eq_val_of_lt _ inside
  · rw [BitVec.getLsbD_of_ge word i (Nat.le_of_not_lt inside)]
    exact Polynomial.ofFn_coeff_eq_zero_of_ge _ (Nat.le_of_not_lt inside)

theorem wordPoly_degree (word : BitVec width) : (wordPoly word).degree < width :=
  Polynomial.ofFn_degree_lt _

@[simp] theorem wordPoly_zero : wordPoly (0 : BitVec width) = 0 := by
  ext i
  simp

/-- Exclusive or adds the polynomials, coefficient by coefficient. -/
theorem wordPoly_xor (left right : BitVec width)
    : wordPoly (left ^^^ right) = wordPoly left + wordPoly right := by
  ext i
  rw [Polynomial.coeff_add, wordPoly_coeff, wordPoly_coeff, wordPoly_coeff,
    BitVec.getLsbD_xor]
  cases left.getLsbD i <;> cases right.getLsbD i <;> decide

/-- A word of one bit is a power of X. -/
theorem wordPoly_twoPow {i : Nat} (inside : i < width)
    : wordPoly (BitVec.twoPow width i) = X ^ i := by
  ext j
  rw [wordPoly_coeff, Polynomial.coeff_X_pow, BitVec.getLsbD_twoPow]
  simp [inside, eq_comm]

/-- A left shift multiplies by X, but for the bit that leaves at the top. -/
theorem wordPoly_shiftLeft (word : BitVec (width + 1))
    : wordPoly (word <<< 1) + (if word.getLsbD width then X ^ (width + 1) else 0)
      = X * wordPoly word := by
  ext i
  rw [Polynomial.coeff_add, wordPoly_coeff, BitVec.getLsbD_shiftLeft]
  cases i with
  | zero =>
      cases word.getLsbD width <;> simp
  | succ i =>
      rw [Polynomial.coeff_X_mul, wordPoly_coeff]
      rcases Nat.lt_trichotomy i width with below | rfl | above
      · cases word.getLsbD width <;> simp [Polynomial.coeff_X_pow, below, below.ne]
      · cases top : word.getLsbD i <;> simp [Polynomial.coeff_X_pow]
      · rw [BitVec.getLsbD_of_ge word i above]
        cases word.getLsbD width <;>
          simp [Polynomial.coeff_X_pow, above.ne', Nat.le_of_lt above]

end Words

-----------------------------------------------------------------------------------------
-- The loop in the quotient by the generator
-----------------------------------------------------------------------------------------

/-- The polynomial of a byte string, the first bit of the first byte at the top. -/
noncomputable def message (bytes : List UInt8) : (ZMod 2)[X] :=
  bytes.foldl (fun m byte => m * X ^ 8 + wordPoly byte.toBitVec) 0

variable (poly : UInt32)

/-- The generator of degree sixteen that the loop's constant stands for. -/
noncomputable def generator : (ZMod 2)[X] := X ^ 16 + wordPoly poly.toUInt16.toBitVec

/-- The polynomial of the register's check bits. -/
noncomputable def residue (crc : UInt32) : (ZMod 2)[X] := wordPoly crc.toUInt16.toBitVec

theorem generator_monic : (generator poly).Monic :=
  Polynomial.monic_X_pow_add (wordPoly_degree _)

theorem generator_degree : (generator poly).degree = 16 := by
  rw [generator, Polynomial.degree_add_eq_left_of_degree_lt, Polynomial.degree_X_pow]
  · rfl
  · rw [Polynomial.degree_X_pow]
    exact wordPoly_degree _

/-- The reduction test reads the top check bit. -/
theorem bit15_iff_getLsbD (crc : UInt32)
    : crc &&& 0x8000 = 0 ↔ crc.toUInt16.toBitVec.getLsbD 15 = false := by
  have masked :
      (crc.toUInt16 &&& 0x8000).toBitVec
        = if crc.toUInt16.toBitVec.getLsbD 15 then BitVec.twoPow 16 15 else 0 :=
    BitVec.and_twoPow _ 15
  rw [bit15_iff, ← UInt16.toBitVec_inj, masked]
  cases crc.toUInt16.toBitVec.getLsbD 15 <;> decide

/-- A shift of the register shifts its check bits. -/
theorem residue_shiftLeft (crc : UInt32)
    : residue (crc <<< 1) = wordPoly (crc.toUInt16.toBitVec <<< 1) := by
  rw [residue, UInt32.toUInt16_shiftLeft crc 1 (by decide), UInt16.toBitVec_shiftLeft]
  rfl

/-- The residue adds over exclusive or. -/
theorem residue_xor (left right : UInt32)
    : residue (left ^^^ right) = residue left + residue right := by
  rw [residue, UInt32.toUInt16_xor, UInt16.toBitVec_xor, wordPoly_xor]
  rfl

/-- One bit of the loop multiplies by X, up to the generator where a bit leaves. -/
theorem residue_shiftBit (crc : UInt32)
    : residue (shiftBit poly crc)
        + (if crc.toUInt16.toBitVec.getLsbD 15 then generator poly else 0)
      = X * residue crc := by
  have test := bit15_iff_getLsbD crc
  have shifted :
      residue (crc <<< 1) + (if crc.toUInt16.toBitVec.getLsbD 15 then X ^ 16 else 0)
        = X * residue crc := by
    rw [residue_shiftLeft]
    exact wordPoly_shiftLeft crc.toUInt16.toBitVec
  by_cases top : crc.toUInt16.toBitVec.getLsbD 15 = true
  · have reduced : shiftBit poly crc = crc <<< 1 ^^^ poly :=
      if_pos (mt test.mp (by rw [top]; decide))
    rw [if_pos top] at shifted ⊢
    rw [reduced, residue_xor, ← shifted, generator, ← residue]
    -- the constant is added twice
    linear_combination (CharTwo.add_self_eq_zero (residue poly))
  · have kept : shiftBit poly crc = crc <<< 1 :=
      if_neg (not_not.mpr (test.mpr (Bool.not_eq_true _ ▸ top)))
    rw [if_neg top] at shifted ⊢
    rw [kept, shifted]

-----------------------------------------------------------------------------------------
-- The check value
-----------------------------------------------------------------------------------------

/-- The residue in the quotient by the generator. -/
noncomputable def residueClass (crc : UInt32) : AdjoinRoot (generator poly) :=
  AdjoinRoot.mk (generator poly) (residue crc)

theorem residueClass_shiftBit (crc : UInt32)
    : residueClass poly (shiftBit poly crc)
      = AdjoinRoot.root (generator poly) * residueClass poly crc := by
  have step := congrArg (AdjoinRoot.mk (generator poly)) (residue_shiftBit poly crc)
  rw [map_add, map_mul, AdjoinRoot.mk_X, apply_ite (AdjoinRoot.mk (generator poly)),
    AdjoinRoot.mk_self, map_zero, ite_self, add_zero] at step
  exact step

theorem residueClass_shiftBits (count : Nat) (crc : UInt32)
    : residueClass poly ((shiftBit poly)^[count] crc)
      = AdjoinRoot.root (generator poly) ^ count * residueClass poly crc := by
  induction count generalizing crc with
  | zero => simp
  | succ count ih =>
      rw [Function.iterate_succ_apply, ih, residueClass_shiftBit, pow_succ, mul_assoc]

/-- A byte is added eight places up. -/
theorem residue_byte (byte : UInt8)
    : residue (byte.toUInt32 <<< 8) = wordPoly byte.toBitVec * X ^ 8 := by
  have placed :
      (byte.toUInt32 <<< 8).toUInt16.toBitVec = byte.toBitVec.setWidth 16 <<< 8 := by
    rw [UInt32.toUInt16_shiftLeft _ 8 (by decide), UInt16.toBitVec_shiftLeft,
      UInt8.toUInt16_toUInt32]
    rfl
  rw [residue, placed]
  ext i
  rw [wordPoly_coeff, Polynomial.coeff_mul_X_pow', wordPoly_coeff, BitVec.getLsbD_shiftLeft,
    BitVec.getLsbD_setWidth]
  by_cases above : 8 ≤ i
  · by_cases inside : i < 16
    · have place : i - 8 < 16 := by omega
      simp only [inside, place, above, Nat.not_lt.mpr above, decide_true, decide_false,
        Bool.not_false, Bool.true_and, if_true]
    · rw [BitVec.getLsbD_of_ge byte.toBitVec (i - 8) (by omega)]
      simp
  · simp [above, Nat.lt_of_not_le above]

/-- One byte of the loop appends it to the message. -/
theorem residueClass_feedByte {crc : UInt32} {sent : (ZMod 2)[X]}
    (before : residueClass poly crc = AdjoinRoot.mk (generator poly) (sent * X ^ 16))
    (byte : UInt8)
    : residueClass poly (feedByte poly crc byte)
      = AdjoinRoot.mk (generator poly)
          ((sent * X ^ 8 + wordPoly byte.toBitVec) * X ^ 16) := by
  have added :
      residueClass poly (crc ^^^ byte.toUInt32 <<< 8)
        = AdjoinRoot.mk (generator poly)
            (sent * X ^ 16 + wordPoly byte.toBitVec * X ^ 8) := by
    rw [residueClass, residue_xor, map_add, residue_byte, ← residueClass, before, ← map_add]
  have shifted :
      X ^ 8 * (sent * X ^ 16 + wordPoly byte.toBitVec * X ^ 8)
        = (sent * X ^ 8 + wordPoly byte.toBitVec) * X ^ 16 := by
    ring
  rw [feedByte, residueClass_shiftBits, added, ← AdjoinRoot.mk_X, ← map_pow, ← map_mul,
    shifted]

/-- The check value is the remainder of the message times X^16, by induction over the
bytes in the quotient by the generator.
-/
theorem feed_remainder (bytes : List UInt8)
    : residue (feed poly 0 bytes) = (message bytes * X ^ 16) %ₘ generator poly := by
  have classes : ∀ (crc : UInt32) (sent : (ZMod 2)[X]),
      residueClass poly crc = AdjoinRoot.mk (generator poly) (sent * X ^ 16)
      → residueClass poly (feed poly crc bytes)
        = AdjoinRoot.mk (generator poly)
            (bytes.foldl (fun m byte => m * X ^ 8 + wordPoly byte.toBitVec) sent * X ^ 16) := by
    induction bytes with
    | nil =>
        intro crc sent so_far
        exact so_far
    | cons byte rest ih =>
        intro crc sent so_far
        exact ih _ _ (residueClass_feedByte poly so_far byte)
  have cleared : residueClass poly 0 = AdjoinRoot.mk (generator poly) (0 * X ^ 16) := by
    rw [residueClass, residue, zero_mul]
    exact congrArg _ wordPoly_zero
  have class_eq := classes 0 0 cleared
  have reduced : residue (feed poly 0 bytes) %ₘ generator poly = residue (feed poly 0 bytes) :=
    (Polynomial.modByMonic_eq_self_iff (generator_monic poly)).mpr (by
      rw [generator_degree]
      exact wordPoly_degree _)
  rw [← reduced]
  exact Polynomial.modByMonic_eq_of_dvd_sub (generator_monic poly)
    (AdjoinRoot.mk_eq_mk.mp class_eq)

end Crc
