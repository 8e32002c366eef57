import Mathlib.Tactic.Common

/-! Waits that poll until a poll is not busy, for a number of polls at most. -/

namespace Polling

variable {σ α : Type*} (poll : σ → α × σ) (pause : σ → σ) (busy : α → Prop)

/-- The state before the poll with this number, with a pause behind each earlier one. -/
def before : Nat → σ → σ
  | 0, s => s
  | n + 1, s => before n (pause (poll s).2)

/-- What the poll with this number returns. -/
def polled (n : Nat) (s : σ) : α := (poll (before poll pause n s)).1

/-- The last poll, what it leaves of the budget, and the state behind it. -/
def wait [DecidablePred busy] : Nat → σ → α × Nat × σ
  | 0, s =>
      let (value, s) := poll s
      (value, 0, s)
  | budget + 1, s =>
      let (value, s) := poll s
      if busy value then wait budget (pause s) else (value, budget + 1, s)

/-- The polls that a wait makes: busy ones, and a last one that is not or that is the last of the
budget.
-/
structure LastPoll (budget n : Nat) (s : σ) : Prop where
  within : n ≤ budget
  waiting : ∀ k < n, busy (polled poll pause k s)
  last : n = budget ∨ ¬busy (polled poll pause n s)

variable {poll pause busy}

/-- Each wait has a last poll; by induction on the budget. -/
theorem exists_lastPoll (busy : α → Prop) [DecidablePred busy] (budget : Nat) (s : σ)
    : ∃ n, LastPoll poll pause busy budget n s := by
  induction budget with
  | zero => exact ⟨0, Nat.le_refl 0, fun k early => absurd early (Nat.not_lt_zero k), .inl rfl⟩
  | succ budget ih =>
      obtain ⟨n, within, early, last⟩ := ih
      by_cases more : busy (polled poll pause n s)
      · obtain rfl : n = budget := last.resolve_right (not_not_intro more)
        refine ⟨n + 1, Nat.le_refl _, fun k below => ?_, .inl rfl⟩
        rcases Nat.lt_succ_iff_lt_or_eq.mp below with earlier | rfl
        · exact early k earlier
        · exact more
      · exact ⟨n, Nat.le_succ_of_le within, early, .inr more⟩

/-- A wait returns its last poll; by induction on the polls before it. -/
theorem LastPoll.wait_eq [DecidablePred busy] {budget n : Nat} {s : σ}
    (last : LastPoll poll pause busy budget n s)
    : wait poll pause busy budget s
      = (polled poll pause n s, budget - n, (poll (before poll pause n s)).2) := by
  induction n generalizing budget s with
  | zero =>
      cases budget with
      | zero => rfl
      | succ budget =>
          have done := last.last.resolve_left (Nat.succ_ne_zero budget).symm
          exact if_neg done
  | succ n ih =>
      obtain ⟨budget, rfl⟩ :=
        Nat.exists_eq_add_one_of_ne_zero (Nat.ne_of_gt (Nat.zero_lt_of_lt last.within))
      have rest : LastPoll poll pause busy budget n (pause (poll s).2) :=
        {
          within := Nat.le_of_succ_le_succ last.within
          waiting := fun k early => last.waiting (k + 1) (Nat.succ_lt_succ early)
          last := last.last.imp_left Nat.succ.inj
        }
      rw [Nat.succ_sub_succ]
      exact (if_pos (last.waiting 0 (Nat.succ_pos n))).trans (ih rest)

end Polling
