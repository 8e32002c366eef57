import Mathlib.Tactic.Common

/-! Lists whose items are judged by an account of the items before them. -/

namespace Account

variable {κ α : Type*}

/-- Each item has a property together with the account of the items before it. -/
def Kept (after : κ → α → κ) (property : κ → α → Prop) : κ → List α → Prop
  | _, [] => True
  | account, item :: rest =>
      property account item ∧ Kept after property (after account item) rest

variable {after : κ → α → κ} {property : κ → α → Prop}

/-- The second part of a list is judged by the account that the first one leaves. -/
theorem kept_append_iff {account : κ} {left right : List α}
    : Kept after property account (left ++ right)
      ↔ Kept after property account left
        ∧ Kept after property (left.foldl after account) right := by
  induction left generalizing account with
  | nil => simp [Kept]
  | cons item rest ih => simp only [List.cons_append, Kept, ih, List.foldl_cons, and_assoc]

/-- Items that have the property with any account. -/
theorem kept_of_forall {items : List α} (all : ∀ item ∈ items, ∀ account, property account item)
    (account : κ)
    : Kept after property account items := by
  induction items generalizing account with
  | nil => trivial
  | cons item rest ih =>
      obtain ⟨here, later⟩ := List.forall_mem_cons.mp all
      exact ⟨here account, ih later _⟩

/-- Items that do not count. -/
theorem foldl_of_forall {items : List α}
    (still : ∀ item ∈ items, ∀ account, after account item = account) (account : κ)
    : items.foldl after account = account := by
  induction items with
  | nil => rfl
  | cons item rest ih =>
      obtain ⟨here, later⟩ := List.forall_mem_cons.mp still
      rw [List.foldl_cons, here, ih later]

end Account
