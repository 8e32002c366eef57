import Mathlib.Tactic.Common

/-! The level of a line on which values are put one after the other, each for some time. -/

namespace Waveform

variable {α : Type*}

/-- The level at a time, on a line that shows (level) before and the last value at the end. -/
def levelAt (level : α) : List (α × Nat) → Nat → α
  | [], _ => level
  | (value, duration) :: rest, time =>
      if time < duration then value else levelAt value rest (time - duration)

/-- Inside a cell of a line whose cells have one width; by induction on the cells. -/
theorem levelAt_cell {width offset : Nat} (inside : offset < width) (level : α) {cells : List α}
    {k : Nat} {value : α} (cell : cells[k]? = some value)
    : levelAt level (cells.map fun value => (value, width)) (k * width + offset) = value := by
  induction cells generalizing level k with
  | nil => cases cell
  | cons first rest ih =>
      cases k with
      | zero =>
          rw [List.map_cons, levelAt, Nat.zero_mul, Nat.zero_add, if_pos inside]
          exact Option.some.inj cell
      | succ k =>
          have later : ¬(k + 1) * width + offset < width := by
            rw [Nat.succ_mul]
            omega
          have rest : (k + 1) * width + offset - width = k * width + offset := by
            rw [Nat.succ_mul]
            omega
          rw [List.map_cons, levelAt, if_neg later, rest]
          exact ih first cell

/-- What a line shows from a time on. -/
def Shows (line : Nat → α) (time : Nat) (level : α) (wave : List (α × Nat)) : Prop :=
  ∀ offset, line (time + offset) = levelAt level wave offset

theorem shows_levelAt (level : α) (wave : List (α × Nat))
    : Shows (levelAt level wave) 0 level wave :=
  fun offset => by rw [Nat.zero_add]

section Shows

variable {line : Nat → α} {time duration offset : Nat} {level value : α} {rest : List (α × Nat)}

theorem Shows.inside (shown : Shows line time level ((value, duration) :: rest))
    (inside : offset < duration)
    : line (time + offset) = value :=
  (shown offset).trans (if_pos inside)

/-- What is left of the first cell inside it. -/
theorem Shows.within (shown : Shows line time level ((value, duration) :: rest))
    (inside : offset ≤ duration)
    : Shows line (time + offset) value ((value, duration - offset) :: rest) := by
  intro later
  rw [Nat.add_assoc, shown, levelAt, levelAt]
  by_cases here : later < duration - offset
  · rw [if_pos here, if_pos (by omega)]
  · have left : offset + later - duration = later - (duration - offset) := by omega
    rw [if_neg here, if_neg (by omega), left]

/-- The cells behind the first one. -/
theorem Shows.behind (shown : Shows line time level ((value, duration) :: rest))
    : Shows line (time + duration) value rest := by
  intro later
  rw [Nat.add_assoc, shown, levelAt, if_neg (Nat.not_lt.mpr (Nat.le_add_right duration later)),
    Nat.add_sub_cancel_left]

/-- Behind cells of one width the line shows the rest; by induction on the cells. -/
theorem Shows.behindCells {width : Nat} {cells : List α}
    (shown : Shows line time level (cells.map (fun value => (value, width)) ++ rest))
    : Shows line (time + cells.length * width) (cells.getLastD level) rest := by
  induction cells generalizing time level with
  | nil =>
      rw [List.length_nil, Nat.zero_mul, Nat.add_zero]
      exact shown
  | cons first cells ih =>
      have place : time + (first :: cells).length * width
          = time + width + cells.length * width := by
        rw [List.length_cons, Nat.succ_mul]
        omega
      rw [place, List.getLastD_cons]
      exact ih shown.behind

/-- The line inside the cells, whatever comes behind them; by induction on the cells. -/
theorem Shows.inCell {width : Nat} {cells : List α}
    (shown : Shows line time level (cells.map (fun value => (value, width)) ++ rest))
    (inside : offset < width) {k : Nat} (cell : cells[k]? = some value)
    : line (time + (k * width + offset)) = value := by
  induction cells generalizing time level k with
  | nil => cases cell
  | cons first cells ih =>
      cases k with
      | zero =>
          rw [Nat.zero_mul, Nat.zero_add]
          exact (shown.inside inside).trans (Option.some.inj cell)
      | succ k =>
          have place : time + ((k + 1) * width + offset) = time + width + (k * width + offset) := by
            rw [Nat.succ_mul]
            omega
          rw [place]
          exact ih shown.behind cell

end Shows

-----------------------------------------------------------------------------------------
-- Edges
-----------------------------------------------------------------------------------------

/-- The line falls at a time; before the first time it is high. -/
def FallsAt (line : Nat → Bool) (time : Nat) : Prop :=
  line time = false ∧ ∀ before, time = before + 1 → line before = true

/-- The line does not fall from a time on until another one. -/
def NoFall (line : Nat → Bool) (start stop : Nat) : Prop :=
  ∀ time, start ≤ time → time < stop → ¬ FallsAt line time

theorem NoFall.append {line : Nat → Bool} {start middle stop : Nat}
    (first : NoFall line start middle) (later : NoFall line middle stop)
    : NoFall line start stop := by
  intro time begun early
  by_cases here : time < middle
  · exact first time begun here
  · exact later time (Nat.le_of_not_lt here) early

theorem NoFall.mono {line : Nat → Bool} {start later stop : Nat} (first : NoFall line start stop)
    (le : start ≤ later)
    : NoFall line later stop :=
  fun time begun early => first time (Nat.le_trans le begun) early

/-- A line that is high does not fall. -/
theorem NoFall.of_high {line : Nat → Bool} {start stop : Nat}
    (high : ∀ time, start ≤ time → time < stop → line time = true)
    : NoFall line start stop := by
  intro time begun early falls
  have low := falls.1
  rw [high time begun early] at low
  cases low

/-- Nor does one that keeps the level which it had before. -/
theorem NoFall.of_constant {line : Nat → Bool} {start stop : Nat} {level : Bool}
    (constant : ∀ time, start ≤ time → time < stop → line time = level)
    : NoFall line (start + 1) stop := by
  intro time begun early falls
  obtain ⟨before, rfl⟩ := Nat.exists_eq_add_of_le' (Nat.le_trans (Nat.le_add_left 1 start) begun)
  have now := constant (before + 1) (by omega) early
  have earlier := constant before (by omega) (by omega)
  rw [falls.2 before rfl] at earlier
  rw [falls.1, ← earlier] at now
  cases now

end Waveform
