import Mathlib.Tactic.Common

/-! A fixed-size receive buffer filled one element at a time from a given index. -/

namespace Buffer

variable {α : Type*} {n : Nat}

/-- A list with the elements from (index) on replaced by (items). -/
def splice (list : List α) (index : Nat) (items : List α) : List α :=
  list.take index ++ items ++ list.drop (index + items.length)

theorem splice_length (list : List α) (index : Nat) (items : List α)
    (fits : index + items.length ≤ list.length)
    : (splice list index items).length = list.length := by
  simp only [splice, List.length_append, List.length_take, List.length_drop]
  omega

/-- The replaced places hold the new items. -/
theorem splice_inside (list : List α) (index : Nat) (items : List α)
    (fits : index + items.length ≤ list.length) {place : Nat} (inside : place < items.length)
    : (splice list index items)[index + place]? = items[place]? := by
  have front : (list.take index).length = index := List.length_take_of_le (by omega)
  rw [splice, List.append_assoc, List.getElem?_append_right (by omega), front,
    Nat.add_sub_cancel_left, List.getElem?_append_left inside]

/-- The other places hold what they held. -/
theorem splice_outside (list : List α) (index : Nat) (items : List α)
    (fits : index + items.length ≤ list.length) {place : Nat}
    (outside : place < index ∨ index + items.length ≤ place)
    : (splice list index items)[place]? = list[place]? := by
  have front : (list.take index ++ items).length = index + items.length := by
    rw [List.length_append, List.length_take_of_le (by omega)]
  rcases outside with before | after
  · rw [splice, List.append_assoc, List.getElem?_append_left (by
      rw [List.length_take_of_le (by omega)]
      exact before)]
    exact List.getElem?_take_of_lt before
  · rw [splice, List.getElem?_append_right (by omega), front, List.getElem?_drop]
    congr 1
    omega

/-- Store (items) at (index) and the places after it. -/
def store (buffer : Vector α n) : Nat → List α → Vector α n
  | _, [] => buffer
  | index, item :: rest => store (buffer.setIfInBounds index item) (index + 1) rest

/-- Storing in two parts. -/
theorem store_append (buffer : Vector α n) (index : Nat) (left right : List α)
    : store buffer index (left ++ right)
      = store (store buffer index left) (index + left.length) right := by
  induction left generalizing buffer index with
  | nil => rfl
  | cons item rest ih =>
      rw [List.cons_append, store, store, ih, List.length_cons, Nat.add_assoc,
        Nat.add_comm 1]

/-- Items that fit replace exactly their own places, by induction on the items. -/
theorem toList_store (buffer : Vector α n) (index : Nat) (items : List α)
    (fits : index + items.length ≤ n)
    : (store buffer index items).toList = splice buffer.toList index items := by
  unfold splice
  induction items generalizing buffer index with
  | nil => simp [store]
  | cons item rest ih =>
      simp only [List.length_cons] at fits
      have within : index < buffer.toList.length := by
        rw [Vector.length_toList]
        omega
      have front : (buffer.toList.take index).length = index :=
        List.length_take_of_le (by omega)
      have changed : (buffer.setIfInBounds index item).toList
          = (buffer.toList.take index ++ [item]) ++ buffer.toList.drop (index + 1) := by
        rw [Vector.toList_setIfInBounds, List.set_eq_take_append_cons_drop, if_pos within]
        simp
      have frontLength : (buffer.toList.take index ++ [item]).length = index + 1 := by
        simp [front]
      rw [store, ih _ _ (by omega), changed]
      rw [show index + 1 + rest.length
        = (buffer.toList.take index ++ [item]).length + rest.length by rw [frontLength],
        List.drop_length_add_append, ← frontLength, List.take_left, frontLength]
      simp [Nat.add_assoc, Nat.add_comm 1]

/-- Items stored at a place extend what the buffer holds before it. -/
theorem take_store_at (buffer : Vector α n) (index : Nat) (items : List α)
    (fits : index + items.length ≤ n)
    : (store buffer index items).toList.take (index + items.length)
      = buffer.toList.take index ++ items := by
  have length : (buffer.toList.take index ++ items).length = index + items.length := by
    rw [List.length_append, List.length_take_of_le (by rw [Vector.length_toList]; omega)]
  rw [toList_store buffer index items fits, splice, ← length, List.take_left]

/-- Items stored from the front are followed by what the buffer held behind them. -/
theorem toList_store_front (buffer : Vector α n) (items : List α) (fits : items.length ≤ n)
    : (store buffer 0 items).toList = items ++ buffer.toList.drop items.length := by
  rw [toList_store buffer 0 items (by omega)]
  simp [splice]

/-- Each item stored from the front is at its place. -/
theorem getElem_store (buffer : Vector α n) (items : List α) (fits : items.length ≤ n)
    {place : Nat} (inside : place < items.length)
    : (store buffer 0 items)[place] = items[place] := by
  apply Option.some.inj
  rw [← List.getElem?_eq_getElem, ← Vector.getElem?_eq_getElem, ← Vector.getElem?_toList,
    toList_store_front buffer items fits, List.getElem?_append_left inside]

/-- The places behind them hold what they held. -/
theorem getElem_store_behind (buffer : Vector α n) (items : List α) (fits : items.length ≤ n)
    {place : Nat} (behind : items.length ≤ place) (inside : place < n)
    : (store buffer 0 items)[place] = buffer[place] := by
  apply Option.some.inj
  rw [← Vector.getElem?_eq_getElem, ← Vector.getElem?_eq_getElem, ← Vector.getElem?_toList,
    ← Vector.getElem?_toList, toList_store_front buffer items fits,
    List.getElem?_append_right behind, List.getElem?_drop, Nat.add_sub_cancel' behind]

/-- Items stored from the front are the front of the buffer. -/
theorem take_store (buffer : Vector α n) (items : List α) (fits : items.length ≤ n)
    : (store buffer 0 items).toList.take items.length = items := by
  rw [toList_store_front buffer items fits, List.take_left]

end Buffer
