import Mathlib.Data.List.DropRight
import Mathlib.Data.Nat.ModEq
import Mathlib.Tactic.Common

/-! A ring of cells that holds a queue from a place on, and the newest items of a list, which are
what is left of it where no more can be kept.
-/

namespace RingBuffer

variable {α : Type*} {size place : Nat} {items : List α}

-----------------------------------------------------------------------------------------
-- The cells
-----------------------------------------------------------------------------------------

/-- The cells from a place on, around the end of the ring, hold the items. -/
def Holds (buffer : Vector α size) (place : Nat) (items : List α) : Prop :=
  ∀ k < items.length, buffer[(place + k) % size]? = items[k]?

variable {buffer : Vector α size}

theorem Holds.nil (buffer : Vector α size) (place : Nat) : Holds buffer place [] :=
  fun _ inside => absurd inside (Nat.not_lt_zero _)

/-- A place and what is left of it by the size of the ring are the same. -/
theorem holds_mod : Holds buffer (place % size) items ↔ Holds buffer place items := by
  simp only [Holds, Nat.mod_add_mod]

/-- The cell behind the items takes one more, if there is room. -/
theorem Holds.append (holds : Holds buffer place items) (room : items.length < size) (item : α)
    : Holds (buffer.setIfInBounds ((place + items.length) % size) item) place
        (items ++ [item]) := by
  have inRing : (place + items.length) % size < size := Nat.mod_lt _ (Nat.zero_lt_of_lt room)
  intro k inside
  rw [List.length_append, List.length_singleton] at inside
  rcases Nat.lt_succ_iff_lt_or_eq.mp inside with before | rfl
  · have apart : (place + items.length) % size ≠ (place + k) % size := by
      intro same
      have equal := Nat.ModEq.add_left_cancel' place same
      have eq := Nat.ModEq.eq_of_lt_of_lt equal room (Nat.lt_trans before room)
      omega
    rw [Vector.getElem?_setIfInBounds_ne apart, holds k before, List.getElem?_append_left before]
  · rw [Vector.getElem?_setIfInBounds_self_of_lt inRing, List.getElem?_concat_length]

/-- The first cell holds the first item. -/
theorem Holds.head {item : α} (holds : Holds buffer place (item :: items))
    : buffer[place % size]? = some item :=
  holds 0 (Nat.zero_lt_succ _)

/-- The cells behind it hold the others. -/
theorem Holds.tail {item : α} (holds : Holds buffer place (item :: items))
    : Holds buffer (place + 1) items := by
  intro k inside
  have later := holds (k + 1) (Nat.succ_lt_succ inside)
  rwa [Nat.add_comm k 1, ← Nat.add_assoc, Nat.add_comm 1 k, List.getElem?_cons_succ] at later

-----------------------------------------------------------------------------------------
-- The newest items
-----------------------------------------------------------------------------------------

variable {limit : Nat}

theorem rtake_length (limit : Nat) (items : List α)
    : (items.rtake limit).length = min limit items.length := by
  rw [List.rtake, List.length_drop]
  omega

/-- All of them, where they are few. -/
theorem rtake_of_le (few : items.length ≤ limit) : items.rtake limit = items := by
  rw [List.rtake, Nat.sub_eq_zero_of_le few, List.drop_zero]

/-- The oldest one is given up for one too many. -/
theorem rtake_cons (item : α) (full : limit ≤ items.length)
    : (item :: items).rtake limit = items.rtake limit := by
  rw [List.rtake, List.rtake, List.length_cons, Nat.succ_sub full, List.drop_succ_cons]

/-- What was given up does not matter for what comes behind. -/
theorem rtake_append (limit : Nat) (items later : List α)
    : (items.rtake limit ++ later).rtake limit = (items ++ later).rtake limit := by
  induction items with
  | nil => rw [List.rtake_nil]
  | cons item rest ih =>
      rcases Nat.lt_or_ge rest.length limit with few | full
      · rw [@rtake_of_le _ (item :: rest) _ few]
      · rw [rtake_cons item full, ih, List.cons_append, rtake_cons]
        rw [List.length_append]
        exact Nat.le_add_right_of_le full

end RingBuffer
