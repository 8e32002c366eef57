import Mathlib.Data.Fintype.Prod
import Mathlib.Tactic.Common

/-! Quadrature signals: two levels that change one at a time, and a decoder that counts the
changes in their two directions.
-/

namespace Quadrature

/-- The place of two levels in the order in which they change forward. -/
def place : Bool × Bool → Fin 4
  | (false, false) => 0
  | (false, true) => 1
  | (true, true) => 2
  | (true, false) => 3

/-- What a decoder counts when it sees levels behind others; none where both have changed. -/
def step (current next : Bool × Bool) : Option Int :=
  match place next - place current with
  | 0 => some 0
  | 1 => some 1
  | 2 => none
  | 3 => some (-1)

/-- What a decoder counts over a sequence of levels. -/
def decode (current : Bool × Bool) : List (Bool × Bool) → Option Int
  | [] => some 0
  | next :: rest => do
      let first ← step current next
      let later ← decode next rest
      return first + later

end Quadrature
