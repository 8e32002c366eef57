import Mathlib.Data.List.Range
import Mathlib.Tactic.Common

/-! A memory of bytes: ranges of it that are written and read, and what a write leaves of
another range.
-/

namespace ByteMemory

/-- A byte at every place. -/
abbrev Memory : Type := Nat → UInt8

/-- Bytes written from a place on. -/
def store (m : Memory) (place : Nat) (bytes : List UInt8) : Memory :=
  fun i => if place ≤ i then bytes[i - place]?.getD (m i) else m i

/-- So many bytes from a place on. -/
def load (m : Memory) (place count : Nat) : List UInt8 :=
  (List.range count).map fun k => m (place + k)

/-- The bytes of one range copied to another one. -/
def copy (m : Memory) (target source count : Nat) : Memory :=
  store m target (load m source count)

/-- Two memories agree on a range. -/
def Agree (place count : Nat) (m m' : Memory) : Prop :=
  ∀ i, place ≤ i → i < place + count → m' i = m i

variable {m m' : Memory} {place count : Nat} {bytes : List UInt8}

@[simp] theorem load_length (m : Memory) (place count : Nat)
    : (load m place count).length = count := by
  simp [load]

theorem store_at (m : Memory) (place : Nat) {bytes : List UInt8} {k : Nat}
    (inside : k < bytes.length)
    : store m place bytes (place + k) = bytes[k] := by
  simp [store, inside]

theorem store_outside {i : Nat} (outside : i < place ∨ place + bytes.length ≤ i)
    : store m place bytes i = m i := by
  unfold store
  split
  · have past : bytes.length ≤ i - place := by omega
    rw [List.getElem?_eq_none past, Option.getD_none]
  · rfl

/-- A write apart from a range leaves it. -/
theorem agree_store {target : Nat}
    (apart : place + count ≤ target ∨ target + bytes.length ≤ place)
    : Agree place count m (store m target bytes) := by
  intro i low high
  exact store_outside (by omega)

theorem Agree.trans {m'' : Memory} (first : Agree place count m m')
    (second : Agree place count m' m'')
    : Agree place count m m'' :=
  fun i low high => (second i low high).trans (first i low high)

end ByteMemory
