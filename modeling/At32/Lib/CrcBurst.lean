import At32.Lib.CrcPoly

/-! Bursts of errors against the check value: a generator that ends in one finds every error
pattern whose set bits lie close enough together, wherever in the message they are.
-/

namespace Crc

open Polynomial

-----------------------------------------------------------------------------------------
-- The bits of a byte string
-----------------------------------------------------------------------------------------

/-- The bit at a place, counted from the first one that the loop takes; none is set behind
the last byte.
-/
def bitAt (bytes : List UInt8) (place : Nat) : Bool :=
  (bytes[place / 8]?.getD 0).toBitVec.getMsbD (place % 8)

/-- Some bit is set, and all that are lie within so many consecutive ones. -/
def Burst (width : Nat) (error : List UInt8) : Prop :=
  (∃ place, bitAt error place = true)
  ∧ ∃ first, ∀ place, bitAt error place = true → first ≤ place ∧ place < first + width

/-- The bytes with the bits of the error turned over. -/
def corrupt (bytes error : List UInt8) : List UInt8 := List.zipWith (· ^^^ ·) bytes error

theorem corrupt_length {bytes error : List UInt8} (same : error.length = bytes.length)
    : (corrupt bytes error).length = bytes.length := by
  rw [corrupt, List.length_zipWith, same, Nat.min_self]

theorem bitAt_lt {bytes : List UInt8} {place : Nat} (set : bitAt bytes place = true)
    : place < 8 * bytes.length := by
  by_contra outside
  rw [bitAt, List.getElem?_eq_none (by omega)] at set
  simp at set

-----------------------------------------------------------------------------------------
-- Their polynomial
-----------------------------------------------------------------------------------------

@[simp] theorem message_nil : message [] = 0 := rfl

theorem message_concat (bytes : List UInt8) (byte : UInt8)
    : message (bytes ++ [byte]) = message bytes * X ^ 8 + wordPoly byte.toBitVec :=
  List.foldl_append

/-- By induction on the second part from its end. -/
theorem message_append (left right : List UInt8)
    : message (left ++ right) = message left * X ^ (8 * right.length) + message right := by
  induction right using List.reverseRecOn with
  | nil => simp
  | append_singleton rest byte ih =>
      rw [← List.append_assoc, message_concat, ih, message_concat, List.length_append,
        List.length_singleton, Nat.mul_add]
      ring

/-- The coefficients are the bits, the first one at the top; by induction on the bytes from
their end.
-/
theorem message_coeff (bytes : List UInt8) {place : Nat} (inside : place < 8 * bytes.length)
    : (message bytes).coeff (8 * bytes.length - 1 - place)
      = if bitAt bytes place then 1 else 0 := by
  induction bytes using List.reverseRecOn with
  | nil => cases inside
  | append_singleton rest byte ih =>
      rw [List.length_append, List.length_singleton] at inside ⊢
      rw [message_concat, coeff_add, coeff_mul_X_pow', wordPoly_coeff]
      by_cases last : 8 * rest.length ≤ place
      · have byteAt : (rest ++ [byte])[place / 8]? = some byte := by
          rw [show place / 8 = rest.length by omega]
          exact List.getElem?_concat_length
        rw [if_neg (by omega), zero_add, bitAt, byteAt, Option.getD_some,
          BitVec.getMsbD_eq_getLsbD, decide_eq_true (Nat.mod_lt _ (by decide)), Bool.true_and]
        congr 3
        omega
      · have byteAt : (rest ++ [byte])[place / 8]? = rest[place / 8]? :=
          List.getElem?_append_left (by omega)
        rw [if_pos (by omega), BitVec.getLsbD_of_ge _ _ (by omega), if_neg (by decide),
          add_zero, bitAt, byteAt, ← bitAt, ← ih (by omega)]
        congr 1
        omega

theorem message_coeff_above (bytes : List UInt8) {i : Nat} (above : 8 * bytes.length ≤ i)
    : (message bytes).coeff i = 0 := by
  induction bytes using List.reverseRecOn generalizing i with
  | nil => exact coeff_zero i
  | append_singleton rest byte ih =>
      rw [List.length_append, List.length_singleton] at above
      rw [message_concat, coeff_add, coeff_mul_X_pow', if_pos (by omega), wordPoly_coeff,
        BitVec.getLsbD_of_ge _ _ (by omega), if_neg (by decide), ih (by omega), add_zero]

/-- A coefficient comes from the bit at its place. -/
theorem message_coeff_set {bytes : List UInt8} {i : Nat} (some : (message bytes).coeff i ≠ 0)
    : ∃ place, bitAt bytes place = true ∧ i + place + 1 = 8 * bytes.length := by
  have inside : i < 8 * bytes.length := by
    by_contra above
    exact some (message_coeff_above bytes (Nat.le_of_not_lt above))
  have coeff := @message_coeff bytes (8 * bytes.length - 1 - i) (by omega)
  rw [show 8 * bytes.length - 1 - (8 * bytes.length - 1 - i) = i by omega] at coeff
  refine ⟨8 * bytes.length - 1 - i, ?_, by omega⟩
  by_contra clear
  rw [if_neg clear] at coeff
  exact some coeff

/-- Turning bits over adds the polynomial of the error. -/
theorem message_corrupt {bytes error : List UInt8} (same : error.length = bytes.length)
    : message (corrupt bytes error) = message bytes + message error := by
  have cons (byte : UInt8) (rest : List UInt8)
      : message (byte :: rest)
        = wordPoly byte.toBitVec * X ^ (8 * rest.length) + message rest := by
    rw [← List.singleton_append, message_append, ← List.nil_append [byte], message_concat,
      message_nil, zero_mul, zero_add]
  induction bytes generalizing error with
  | nil =>
      obtain rfl := List.length_eq_zero_iff.mp same
      exact (add_zero _).symm
  | cons byte rest ih =>
      obtain ⟨turned, others, rfl⟩ := List.exists_of_length_succ error same
      have shorter : others.length = rest.length := Nat.succ.inj same
      rw [corrupt, List.zipWith_cons_cons, ← corrupt, cons, cons, cons, ih shorter,
        corrupt_length shorter, shorter, UInt8.toBitVec_xor, wordPoly_xor]
      ring

-----------------------------------------------------------------------------------------
-- What the check finds
-----------------------------------------------------------------------------------------

variable {poly : UInt32}

/-- A generator that ends in one has no factor X. -/
theorem generator_coprime (odd : poly.toUInt16.toBitVec.getLsbD 0 = true) (count : Nat)
    : IsCoprime (generator poly) (X ^ count) := by
  have ends : (generator poly).coeff 0 = 1 := by
    rw [generator, coeff_add, coeff_X_pow, wordPoly_coeff, odd]
    rfl
  have prime : IsCoprime X (generator poly) :=
    (irreducible_X.coprime_iff_not_dvd).mpr (by rw [X_dvd_iff, ends]; exact one_ne_zero)
  exact prime.symm.pow_right

/-- The generator divides no burst of up to sixteen bits, at any place of the message. -/
theorem generator_not_dvd_burst (odd : poly.toUInt16.toBitVec.getLsbD 0 = true)
    {error : List UInt8} (burst : Burst 16 error) (shift : Nat)
    : ¬ generator poly ∣ message error * X ^ shift := by
  obtain ⟨⟨place, set⟩, first, near⟩ := burst
  intro divides
  have divides := (generator_coprime odd shift).dvd_of_dvd_mul_right divides
  -- the error is a word of at most sixteen bits, moved up
  obtain ⟨word, moved⟩ : X ^ (8 * error.length - (first + 16)) ∣ message error := by
    rw [X_pow_dvd_iff]
    intro i below
    by_contra some
    obtain ⟨place, set, sum⟩ := message_coeff_set some
    obtain ⟨low, high⟩ := near place set
    omega
  rw [moved] at divides
  have divides := (generator_coprime odd _).dvd_of_dvd_mul_left divides
  have small : word.degree < (generator poly).degree := by
    rw [generator_degree]
    refine (degree_lt_iff_coeff_zero word 16).mpr fun i above => ?_
    by_contra some
    rw [← coeff_X_pow_mul word (8 * error.length - (first + 16)) i, ← moved] at some
    obtain ⟨place, set, sum⟩ := message_coeff_set some
    obtain ⟨low, high⟩ := near place set
    omega
  have none := eq_zero_of_dvd_of_degree_lt divides small
  have coeff := message_coeff error (bitAt_lt set)
  rw [moved, none, mul_zero, coeff_zero, set] at coeff
  exact zero_ne_one coeff

/-- The check value of a message whose last part has a burst of errors is another one. -/
theorem feed_burst (odd : poly.toUInt16.toBitVec.getLsbD 0 = true)
    (head : List UInt8) {bytes error : List UInt8} (same : error.length = bytes.length)
    (burst : Burst 16 error)
    : (feed poly 0 (head ++ corrupt bytes error)).toUInt16
      ≠ (feed poly 0 (head ++ bytes)).toUInt16 := by
  intro equal
  have remainders : residue (feed poly 0 (head ++ corrupt bytes error))
      = residue (feed poly 0 (head ++ bytes)) := by
    rw [residue, residue, equal]
  rw [feed_remainder, feed_remainder, ← sub_eq_zero, ← sub_modByMonic,
    modByMonic_eq_zero_iff_dvd (generator_monic poly)] at remainders
  refine generator_not_dvd_burst odd burst 16 ?_
  have difference : message (head ++ corrupt bytes error) * X ^ 16
        - message (head ++ bytes) * X ^ 16
      = message error * X ^ 16 := by
    rw [message_append, message_append, corrupt_length same, message_corrupt same]
    ring
  rwa [difference] at remainders

end Crc
