import Mathlib.Tactic.Common

/-! Updates taken one after another, each of which may carry a value for a field: the field
is left with the value carried last.
-/

namespace LastWrite

variable {α β σ : Type*}

/-- The last item that carries a value. -/
def carrier (carried : α → Option β) (items : List α) : Option α :=
  items.reverse.find? (fun item => (carried item).isSome)

/-- The value of the last item that carries one. -/
def last (carried : α → Option β) (items : List α) : Option β :=
  (carrier carried items).bind carried

theorem mem_of_carrier {carried : α → Option β} {items : List α} {item : α}
    (found : carrier carried items = some item)
    : item ∈ items :=
  List.mem_reverse.mp (List.mem_of_find?_eq_some found)

theorem carrier_isSome {carried : α → Option β} {items : List α} {item : α}
    (found : carrier carried items = some item)
    : (carried item).isSome = true :=
  List.find?_some (p := fun item => (carried item).isSome) found

@[simp] theorem last_nil (carried : α → Option β) : last carried [] = none := rfl

/-- A later carrier wins over the first item, by whether there is one. -/
theorem last_cons (carried : α → Option β) (item : α) (rest : List α)
    : last carried (item :: rest) = (last carried rest).or (carried item) := by
  simp only [last, carrier, List.reverse_cons, List.find?_append]
  cases found : rest.reverse.find? (fun item => (carried item).isSome) with
  | some later =>
      obtain ⟨value, holds⟩ := Option.isSome_iff_exists.mp (carrier_isSome found)
      simp [holds]
  | none => cases holds : carried item <;> simp [holds]

theorem last_singleton (carried : α → Option β) (item : α)
    : last carried [item] = carried item := by
  rw [last_cons, last_nil, Option.none_or]

/-- A last item that carries a value wins over those before it. -/
theorem last_append_singleton (carried : α → Option β) (items : List α) (item : α)
    : last carried (items ++ [item]) = (carried item).or (last carried items) := by
  simp only [last, carrier, List.reverse_append, List.reverse_singleton, List.singleton_append,
    List.find?_cons]
  cases holds : carried item <;> simp [holds]

/-- Later items win over earlier ones, by induction on the earlier. -/
theorem last_append (carried : α → Option β) (items later : List α)
    : last carried (items ++ later) = (last carried later).or (last carried items) := by
  induction items with
  | nil => rw [List.nil_append, last_nil, Option.or_none]
  | cons item rest ih => rw [List.cons_append, last_cons, ih, last_cons, Option.or_assoc]

theorem last_eq_none_iff {carried : α → Option β} {items : List α}
    : last carried items = none ↔ ∀ item ∈ items, carried item = none := by
  induction items with
  | nil => simp
  | cons item rest ih => rw [last_cons, Option.or_eq_none_iff, ih, List.forall_mem_cons, and_comm]

/-- Two readings of the items, one present where the other is, leave the same value exactly
when they agree on the last carrier.
-/
theorem last_getD_eq_iff {carried other : α → Option β} (items : List α) (initial : β)
    (agree : ∀ item, (other item).isSome = (carried item).isSome)
    : (last other items).getD initial = (last carried items).getD initial
      ↔ ∀ item, carrier carried items = some item → other item = carried item := by
  have same : carrier other items = carrier carried items := by
    simp only [carrier, agree]
  rw [last, last, same]
  cases found : carrier carried items with
  | none => simp
  | some item =>
      obtain ⟨value, holds⟩ := Option.isSome_iff_exists.mp (carrier_isSome found)
      obtain ⟨read, reads⟩ :=
        Option.isSome_iff_exists.mp ((agree item).trans (carrier_isSome found))
      simp [holds, reads]

end LastWrite
