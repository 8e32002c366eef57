import Mathlib.Tactic.Common

/-! Bits of a word set by a disjunction and cleared by a mask. -/

namespace BitMask

/-- Joined bits are masked each on their own. -/
theorem or_and (word bits mask : UInt32)
    : (word ||| bits) &&& mask = (word &&& mask) ||| (bits &&& mask) := by
  rw [← UInt32.toBitVec_inj]
  exact BitVec.and_or_distrib_right

/-- Joining adds nothing to a word exactly when it has no bit that the word lacks; bit by
bit.
-/
theorem or_eq_right_iff (bits word : UInt32) : bits ||| word = word ↔ bits &&& ~~~word = 0 := by
  rw [← UInt32.toBitVec_inj, ← UInt32.toBitVec_inj, UInt32.toBitVec_or, UInt32.toBitVec_and,
    UInt32.toBitVec_not, BitVec.eq_of_getLsbD_eq_iff, BitVec.eq_of_getLsbD_eq_iff]
  refine forall₂_congr fun i inside => ?_
  rw [BitVec.getLsbD_or, BitVec.getLsbD_and, BitVec.getLsbD_not]
  cases bits.toBitVec.getLsbD i <;> cases word.toBitVec.getLsbD i <;> simp [inside]

/-- Joining adds the bits that the word lacks. -/
theorem or_eq_add_masked (bits word : UInt32)
    : bits ||| word = word + (bits &&& ~~~word) := by
  rw [← UInt32.toBitVec_inj, UInt32.toBitVec_or, UInt32.toBitVec_add, UInt32.toBitVec_and,
    UInt32.toBitVec_not, BitVec.add_eq_or_of_and_eq_zero]
  · refine BitVec.eq_of_getLsbD_eq fun i inside => ?_
    rw [BitVec.getLsbD_or, BitVec.getLsbD_or, BitVec.getLsbD_and, BitVec.getLsbD_not]
    cases bits.toBitVec.getLsbD i <;> cases word.toBitVec.getLsbD i <;> simp [inside]
  · refine BitVec.eq_of_getLsbD_eq fun i inside => ?_
    rw [BitVec.getLsbD_and, BitVec.getLsbD_and, BitVec.getLsbD_not]
    cases bits.toBitVec.getLsbD i <;> cases word.toBitVec.getLsbD i <;> simp

/-- A field that a mask clears and that no joined bit is in. -/
theorem masked_field {mask bits field : UInt16} (word : UInt16) (cleared : mask &&& field = 0)
    (apart : bits &&& field = 0)
    : (word &&& mask ||| bits) &&& field = 0 := by
  rw [← UInt16.toBitVec_inj, UInt16.toBitVec_and] at cleared apart
  rw [← UInt16.toBitVec_inj, UInt16.toBitVec_and, UInt16.toBitVec_or, UInt16.toBitVec_and,
    BitVec.and_or_distrib_right, BitVec.and_assoc, cleared, apart]
  exact (congrArg₂ _ BitVec.and_zero rfl).trans BitVec.or_zero

/-- Bits that are joined are there. -/
theorem joined_field (word bits : UInt16) : (word ||| bits) &&& bits = bits := by
  rw [← UInt16.toBitVec_inj, UInt16.toBitVec_and, UInt16.toBitVec_or]
  refine BitVec.eq_of_getLsbD_eq fun i _ => ?_
  rw [BitVec.getLsbD_and, BitVec.getLsbD_or]
  cases bits.toBitVec.getLsbD i <;> simp

end BitMask
