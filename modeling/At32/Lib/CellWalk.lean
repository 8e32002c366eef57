import Mathlib.Data.List.Basic
import Mathlib.Logic.Function.Basic
import Mathlib.Logic.Function.Iterate
import Mathlib.Tactic.Common

/-! Memory cells visited one after another by a rule for the next place: what a walk that
stores leaves in them, and what a walk that reads finds.
-/

namespace CellWalk

variable {κ β : Type*} (next : κ → κ)

/-- What the cells hold, one by one. -/
def readAll (cells : κ → β) (place : κ) : Nat → List β
  | 0 => []
  | count + 1 => cells place :: readAll cells (next place) count

/-- No place is visited twice in so many steps. -/
def Fresh (place : κ) (count : Nat) : Prop :=
  ∀ i j, i < count → j < count → next^[i] place = next^[j] place → i = j

theorem readAll_eq (cells : κ → β) (place : κ) (count : Nat)
    : readAll next cells place count
      = (List.range count).map fun k => cells (next^[k] place) := by
  induction count generalizing place with
  | zero => rfl
  | succ count ih =>
      rw [readAll, ih, List.range_succ_eq_map, List.map_cons, List.map_map]
      rfl

/-- Some items are what the cells hold exactly when each of them is. -/
theorem readAll_eq_iff {cells : κ → β} {place : κ} {items : List β}
    : readAll next cells place items.length = items
      ↔ ∀ k (inside : k < items.length), cells (next^[k] place) = items[k] := by
  rw [readAll_eq, List.ext_getElem_iff]
  simp only [List.length_map, List.length_range, List.getElem_map, List.getElem_range, true_and]
  exact forall_congr' fun k => ⟨fun same inside => same inside inside, fun same inside _ =>
    same inside⟩

variable {next}

theorem Fresh.tail {place : κ} {count : Nat} (fresh : Fresh next place (count + 1))
    : Fresh next (next place) count := by
  intro i j left right same
  exact Nat.succ.inj (fresh (i + 1) (j + 1) (by omega) (by omega) same)

variable [DecidableEq κ] (put : β → β → β)

variable (next) in
/-- The cells after the items have been stored one by one; (put) tells what a cell makes of
an item.
-/
def storeAll (cells : κ → β) (place : κ) : List β → κ → β
  | [] => cells
  | item :: rest =>
      storeAll (Function.update cells place (put (cells place) item)) (next place) rest

variable {put}

/-- A cell that is not visited keeps what it holds, by induction on the items. -/
theorem storeAll_outside {cells : κ → β} {place cell : κ} {items : List β}
    (outside : ∀ k < items.length, next^[k] place ≠ cell)
    : storeAll next put cells place items cell = cells cell := by
  induction items generalizing cells place with
  | nil => rfl
  | cons item rest ih =>
      rw [storeAll, ih fun k inside => outside (k + 1) (Nat.succ_lt_succ inside)]
      exact Function.update_of_ne (outside 0 (Nat.succ_pos _)).symm _ _

/-- A cell visited once has taken its item, by induction on the items. -/
theorem storeAll_at {cells : κ → β} {place : κ} {items : List β}
    (fresh : Fresh next place items.length) {k : Nat} {item : β} (sent : items[k]? = some item)
    : storeAll next put cells place items (next^[k] place)
      = put (cells (next^[k] place)) item := by
  induction items generalizing cells place k with
  | nil => cases sent
  | cons first rest ih =>
      cases k with
      | zero =>
          obtain rfl := Option.some.inj sent
          rw [storeAll, storeAll_outside]
          · exact Function.update_self _ _ _
          · intro k inside same
            have again := fresh (k + 1) 0 (Nat.succ_lt_succ inside) (Nat.succ_pos _) same
            cases again
      | succ k =>
          have inside : k + 1 < (first :: rest).length := (List.getElem?_eq_some_iff.mp sent).1
          have other : next^[k + 1] place ≠ place := by
            intro same
            have again := fresh (k + 1) 0 inside (Nat.succ_pos _) same
            cases again
          rw [storeAll, Function.iterate_succ_apply, ih fresh.tail sent,
            ← Function.iterate_succ_apply, Function.update_of_ne other]

/-- Items stored over what the cells hold are read back. -/
theorem readAll_storeAll (overwrites : ∀ old item, put old item = item) {cells : κ → β}
    {place : κ} {items : List β} (fresh : Fresh next place items.length)
    : readAll next (storeAll next put cells place items) place items.length = items := by
  rw [readAll_eq_iff]
  intro k inside
  rw [storeAll_at fresh (List.getElem?_eq_getElem inside), overwrites]

end CellWalk
