import Mathlib.Data.List.Induction
import Mathlib.Tactic.Common

/-! Machines that take every input: properties of all the states that a sequence of inputs
passes, and conditions on its steps.
-/

namespace Replay

variable {σ ι : Type*} {step : σ → ι → σ}

/-- Where a step keeps a property exactly under a condition, which keeps an invariant as well,
the property holds in every state exactly when every step meets the condition; by induction on
the inputs from the last one.
-/
theorem every_iff_steps {inv property : σ → Prop} {condition : σ → ι → Prop}
    (exact
      : ∀ state input,
          inv state
          → property state
          → (property (step state input) ↔ condition state input))
    (kept : ∀ state input, inv state → condition state input → inv (step state input))
    {state : σ} (invStart : inv state) (start : property state) (inputs : List ι)
    : (∀ before after, inputs = before ++ after → property (before.foldl step state))
      ↔ ∀ before input after,
          inputs = before ++ input :: after → condition (before.foldl step state) input := by
  constructor
  · intro every
    have condition {before after : List ι} {input : ι} (split : inputs = before ++ input :: after)
        (here : inv (before.foldl step state))
        : condition (before.foldl step state) input := by
      have next := every (before ++ [input]) after (by rw [split, List.append_assoc]; rfl)
      rw [List.foldl_append] at next
      exact (exact _ _ here (every before (input :: after) split)).mp next
    have reached {before after : List ι} (split : inputs = before ++ after)
        : inv (before.foldl step state) := by
      induction before using List.reverseRecOn generalizing after with
      | nil => exact invStart
      | append_singleton before input ih =>
          rw [List.append_assoc] at split
          rw [List.foldl_append]
          exact kept _ _ (ih split) (condition split (ih split))
    exact fun before input after split => condition split (reached split)
  · intro met before after split
    suffices inv (before.foldl step state) ∧ property (before.foldl step state) from this.2
    induction before using List.reverseRecOn generalizing after with
    | nil => exact ⟨invStart, start⟩
    | append_singleton before input ih =>
        rw [List.append_assoc] at split
        have ⟨here, holds⟩ := ih _ split
        have served := met before input after split
        rw [List.foldl_append]
        exact ⟨kept _ _ here served, (exact _ _ here holds).mpr served⟩

end Replay
