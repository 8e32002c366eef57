import Mathlib.Logic.Function.Iterate
import Mathlib.Tactic.Common

/-! A counter that counts down to zero and starts again at its reload value: what it shows some
ticks later.
-/

namespace DownCounter

/-- One tick. -/
def tick (reload value : Nat) : Nat := if value = 0 then reload else value - 1

/-- What a counter that shows (start) shows some ticks later. -/
def reading (reload start ticks : Nat) : Nat := (tick reload)^[ticks] start

theorem reading_add (reload start first later : Nat)
    : reading reload (reading reload start first) later
      = reading reload start (first + later) := by
  rw [Nat.add_comm]
  exact (Function.iterate_add_apply _ later first start).symm

/-- Without a wrap it has gone down by the ticks. -/
theorem reading_of_le {reload start ticks : Nat} (down : ticks ≤ start)
    : reading reload start ticks = start - ticks := by
  induction ticks with
  | zero => rfl
  | succ ticks ih =>
      have here := ih (Nat.le_of_succ_le down)
      have positive : start - ticks ≠ 0 := by omega
      rw [reading] at here ⊢
      rw [Function.iterate_succ_apply', here, tick, if_neg positive]
      omega

/-- Behind one wrap it is as far below the reload value as ticks are left. -/
theorem reading_of_lt {reload start ticks : Nat} (wrapped : start < ticks)
    (once : ticks ≤ start + reload + 1)
    : reading reload start ticks = start + reload + 1 - ticks := by
  obtain ⟨left, rfl⟩ : ∃ left, ticks = start + 1 + left := ⟨ticks - (start + 1), by omega⟩
  have atZero : reading reload start start = 0 := by
    rw [reading_of_le (Nat.le_refl _), Nat.sub_self]
  have atReload : reading reload start (start + 1) = reload := by
    rw [← reading_add, atZero]
    rfl
  rw [← reading_add, atReload, reading_of_le (by omega)]
  omega

theorem reading_le {reload start : Nat} (inside : start ≤ reload) (ticks : Nat)
    : reading reload start ticks ≤ reload := by
  induction ticks with
  | zero => exact inside
  | succ ticks ih =>
      rw [← reading_add]
      change tick reload _ ≤ reload
      unfold tick
      split
      · exact Nat.le_refl _
      · exact Nat.le_trans (Nat.sub_le _ _) ih

-----------------------------------------------------------------------------------------
-- Samples
-----------------------------------------------------------------------------------------

/-- The ticks up to a sample, for the ticks (gaps) between the samples. -/
def elapsed (gaps : Nat → Nat) : Nat → Nat
  | 0 => 0
  | k + 1 => elapsed gaps k + gaps k

theorem elapsed_le (gaps : Nat → Nat) {first last : Nat} (order : first ≤ last)
    : elapsed gaps first ≤ elapsed gaps last := by
  induction order with
  | refl => exact Nat.le_refl _
  | step _ ih => exact Nat.le_trans ih (Nat.le_add_right _ _)

end DownCounter
