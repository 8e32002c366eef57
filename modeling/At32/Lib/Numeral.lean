import Mathlib.Data.Nat.Digits.Lemmas

/-! Numerals as they are written, the most significant digit first. -/

namespace Numeral

/-- The number that digits say, one after the other. -/
def value (base : Nat) (digits : List Nat) : Nat :=
  digits.foldl (fun number digit => base * number + digit) 0

/-- Digits without a leading zero, and with a single one for zero. -/
structure Canonical (base : Nat) (digits : List Nat) : Prop where
  digit : ∀ digit ∈ digits, digit < base
  nonempty : digits ≠ []
  leading : digits.head? = some 0 → digits = [0]

variable {base n : Nat}

/-- Digits from the least significant one on, read from their end; by induction on them. -/
theorem value_reverse (base : Nat) (digits : List Nat)
    : value base digits.reverse = Nat.ofDigits base digits := by
  induction digits with
  | nil => rfl
  | cons digit rest ih =>
      rw [value] at ih
      rw [value, List.reverse_cons, List.foldl_append, ih, Nat.ofDigits_cons]
      exact Nat.add_comm _ _

theorem value_digits (base n : Nat) : value base (Nat.digits base n).reverse = n := by
  rw [value_reverse, Nat.ofDigits_digits]

/-- The remainders of a number other than zero, written from the last one on. -/
theorem canonical_digits (large : 1 < base) (nonzero : n ≠ 0)
    : Canonical base (Nat.digits base n).reverse := by
  have nonempty : Nat.digits base n ≠ [] := Nat.digits_ne_nil_iff_ne_zero.mpr nonzero
  refine ⟨?_, mt List.reverse_eq_nil_iff.mp nonempty, fun zero => ?_⟩
  · intro digit member
    exact Nat.digits_lt_base large (List.mem_reverse.mp member)
  · rw [List.head?_reverse, List.getLast?_eq_some_getLast nonempty] at zero
    exact absurd (Option.some.inj zero) (Nat.getLast_digit_ne_zero base nonzero)

end Numeral
