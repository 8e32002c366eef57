import At32.Drivers.Exti
import At32.Lib.Replay

/-! The receiver of the virtual UART: where its interrupt writes, and when that is inside the
buffer.
-/

namespace At32.VirtualUart

open BitField
open Exti (getExtiInter cleanExtiInter getExtiInter_eq)

abbrev UART_STATUS_MASK : UInt16 := 0x3fff
abbrev UART_STATUS_ENTER : UInt16 := 0x4000
abbrev UART_STATUS_NLINE : UInt16 := 0x8000

/-- uart_read_status, the pending register, and every write to uart_read_buf: an index and a
character.
-/
structure Receiver where
  status : UInt16
  pnd : BitVec 32
  written : List (Nat × UInt8)
  deriving DecidableEq, Repr

/-- A write at the index that the status holds. -/
def Receiver.store (s : Receiver) (value : UInt8) : Receiver :=
  { s with written := s.written ++ [((s.status &&& UART_STATUS_MASK).toNat, value)] }

/-- EXTI15_10_IRQHandler, for a buffer of (size) bytes and the byte that is on the line. -/
def exti1510IrqHandler (size : Nat) (ret : UInt8) (s : Receiver) : Receiver :=
  if getExtiInter 10 s.pnd then
    let s :=
      if s.status &&& UART_STATUS_NLINE = 0 then
        if s.status &&& UART_STATUS_ENTER ≠ 0 then
          if ret = 0x0a then { s with status := s.status ||| UART_STATUS_NLINE }
          else { s with status := 0 }
        else if ret = 0x0d then
          let s := { s with status := s.status ||| UART_STATUS_ENTER }
          s.store 0
        else
          let s := s.store ret
          let s := { s with status := s.status + 1 }
          if (s.status &&& UART_STATUS_MASK).toNat > size then { s with status := 0 } else s
      else
        s
    { s with pnd := cleanExtiInter 10 s.pnd }
  else
    s

/-- An interrupt with what is pending then and the byte on the line, or the main loop that takes
the line.
-/
inductive Event
  | interrupt (pnd : BitVec 32) (ret : UInt8)
  | taken
  deriving DecidableEq, Repr

def Receiver.step (size : Nat) (s : Receiver) : Event → Receiver
  | .interrupt pnd ret => exti1510IrqHandler size ret { s with pnd }
  | .taken => { s with status := 0 }

def Receiver.start : Receiver := { status := 0, pnd := 0, written := [] }

def run (size : Nat) (events : List Event) : Receiver :=
  events.foldl (Receiver.step size) .start

/-- All writes are inside the buffer. -/
def Receiver.Inside (size : Nat) (s : Receiver) : Prop := ∀ write ∈ s.written, write.1 < size

/-- No interrupt finds a status that is the size of the buffer: as many characters as it has,
and no end of a line.
-/
def Receiver.Room (size : Nat) (s : Receiver) : Event → Prop
  | .interrupt _ _ => s.status.toNat ≠ size
  | .taken => True

instance (size : Nat) (s : Receiver) : (event : Event) → Decidable (s.Room size event)
  | .interrupt _ _ => inferInstanceAs (Decidable (s.status.toNat ≠ size))
  | .taken => inferInstanceAs (Decidable True)

/-- The status counts characters of the buffer, or has a flag. -/
def Receiver.Counts (size : Nat) (s : Receiver) : Prop :=
  s.status.toNat ≤ size ∨ 0x4000 ≤ s.status.toNat

-----------------------------------------------------------------------------------------
-- The status
-----------------------------------------------------------------------------------------

theorem nline_iff (status : UInt16)
    : status &&& UART_STATUS_NLINE = 0 ↔ status.toNat < 0x8000 := by
  have field : (status &&& UART_STATUS_NLINE).toNat = status.toNat / 2 ^ 15 % 2 ^ 1 * 2 ^ 15 := by
    rw [UInt16.toNat_and, Nat.and_comm]
    exact and_field status.toNat 15 1
  have small := status.toNat_lt
  rw [← UInt16.toNat_inj, field]
  change _ = 0 ↔ _
  omega

theorem enter_iff {status : UInt16} (noLine : status.toNat < 0x8000)
    : status &&& UART_STATUS_ENTER ≠ 0 ↔ 0x4000 ≤ status.toNat := by
  have field : (status &&& UART_STATUS_ENTER).toNat = status.toNat / 2 ^ 14 % 2 ^ 1 * 2 ^ 14 := by
    rw [UInt16.toNat_and, Nat.and_comm]
    exact and_field status.toNat 14 1
  rw [Ne, ← UInt16.toNat_inj, field]
  change ¬_ = 0 ↔ _
  omega

theorem index_toNat (status : UInt16)
    : (status &&& UART_STATUS_MASK).toNat = status.toNat % 0x4000 := by
  rw [UInt16.toNat_and]
  exact Nat.and_two_pow_sub_one_eq_mod status.toNat 14

theorem or_enter_toNat {status : UInt16} (count : status.toNat < 0x4000)
    : (status ||| UART_STATUS_ENTER).toNat = status.toNat + 0x4000 := by
  rw [UInt16.toNat_or, Nat.or_comm]
  have sum : 2 ^ 14 * 1 + status.toNat = 2 ^ 14 * 1 ||| status.toNat :=
    Nat.two_pow_add_eq_or_of_lt count 1
  exact sum.symm.trans (Nat.add_comm _ _)

theorem add_one_toNat {status : UInt16} (count : status.toNat < 0x4000)
    : (status + 1).toNat = status.toNat + 1 := by
  rw [UInt16.toNat_add]
  change (status.toNat + 1) % 65536 = _
  omega

theorem le_or_nline (status : UInt16) : 0x8000 ≤ (status ||| UART_STATUS_NLINE).toNat := by
  rw [UInt16.toNat_or]
  exact Nat.right_le_or

-----------------------------------------------------------------------------------------
-- Steps
-----------------------------------------------------------------------------------------

/-- What an interrupt does: nothing to a line that is not taken yet; the end of a line or a new
one behind a carriage return; a carriage return; or another character.
-/
theorem exti1510IrqHandler_cases (size : Nat) (ret : UInt8) (s : Receiver)
    : let next := exti1510IrqHandler size ret s
      (0x8000 ≤ s.status.toNat ∧ next.status = s.status ∧ next.written = s.written)
      ∨ (0x4000 ≤ s.status.toNat
        ∧ next.status = (if ret = 0x0a then s.status ||| UART_STATUS_NLINE else 0)
        ∧ next.written = s.written)
      ∨ (ret = 0x0d
        ∧ s.status.toNat < 0x4000
        ∧ next.status = s.status ||| UART_STATUS_ENTER
        ∧ next.written = s.written ++ [(s.status.toNat, 0)])
      ∨ (ret ≠ 0x0d
        ∧ s.status.toNat < 0x4000
        ∧ next.status
          = (if (s.status.toNat + 1) % 0x4000 > size then 0 else s.status + 1)
        ∧ next.written = s.written ++ [(s.status.toNat, ret)]) := by
  unfold exti1510IrqHandler
  rw [if_pos (getExtiInter_eq (by decide) s.pnd)]
  rcases Nat.lt_or_ge s.status.toNat 0x8000 with noLine | line
  · simp only [if_pos ((nline_iff s.status).mpr noLine)]
    rcases Nat.lt_or_ge s.status.toNat 0x4000 with count | entered
    · have noEnter : ¬s.status &&& UART_STATUS_ENTER ≠ 0 := fun entered =>
        Nat.not_le_of_lt count ((enter_iff noLine).mp entered)
      simp only [if_neg noEnter]
      by_cases cr : ret = 0x0d
      · have index : ((s.status ||| UART_STATUS_ENTER) &&& UART_STATUS_MASK).toNat
            = s.status.toNat := by
          rw [index_toNat, or_enter_toNat count]
          omega
        simp only [if_pos cr, Receiver.store, index]
        exact .inr (.inr (.inl ⟨cr, count, trivial, trivial⟩))
      · have index : (s.status &&& UART_STATUS_MASK).toNat = s.status.toNat := by
          rw [index_toNat]
          exact Nat.mod_eq_of_lt count
        have next : ((s.status + 1) &&& UART_STATUS_MASK).toNat
            = (s.status.toNat + 1) % 0x4000 := by
          rw [index_toNat, add_one_toNat count]
        simp only [if_neg cr, Receiver.store, index, next]
        refine .inr (.inr (.inr ⟨cr, count, ?_⟩))
        split <;> exact ⟨rfl, rfl⟩
    · simp only [if_pos ((enter_iff noLine).mpr entered)]
      refine .inr (.inl ⟨entered, ?_⟩)
      split <;> exact ⟨rfl, rfl⟩
  · have full : ¬s.status &&& UART_STATUS_NLINE = 0 := fun clear =>
      Nat.not_lt_of_le line ((nline_iff s.status).mp clear)
    simp only [if_neg full]
    exact .inl ⟨line, trivial, trivial⟩

theorem Receiver.inside_of_written {size : Nat} {s next : Receiver} (inside : s.Inside size)
    (same : next.written = s.written)
    : next.Inside size := by
  rw [Receiver.Inside, same]
  exact inside

theorem Receiver.inside_append_iff {size : Nat} {s next : Receiver} {index : Nat} {value : UInt8}
    (inside : s.Inside size) (new : next.written = s.written ++ [(index, value)])
    : next.Inside size ↔ index < size := by
  rw [Receiver.Inside, new]
  constructor
  · exact fun every => every (index, value) (List.mem_append_right _ (List.mem_singleton_self _))
  · intro fits write written
    rcases List.mem_append.mp written with old | added
    · exact inside write old
    · rw [List.mem_singleton.mp added]
      exact fits

/-- A step stays inside the buffer exactly where it finds room: a status below the flags is an
index of the buffer or its size.
-/
theorem Receiver.step_inside_iff {size : Nat} (fits : size ≤ 0x3fff) {s : Receiver}
    (event : Event) (counts : s.Counts size) (inside : s.Inside size)
    : (s.step size event).Inside size ↔ s.Room size event := by
  rw [Receiver.Counts] at counts
  cases event with
  | taken => exact ⟨fun _ => trivial, fun _ => inside⟩
  | interrupt pnd ret =>
      have flagged (flag : 0x4000 ≤ s.status.toNat) : s.status.toNat ≠ size := by omega
      have indexed (count : s.status.toNat < 0x4000)
          : s.status.toNat < size ↔ s.status.toNat ≠ size := by
        omega
      change _ ↔ s.status.toNat ≠ size
      rcases exti1510IrqHandler_cases size ret { s with pnd } with
        ⟨line, -, same⟩ | ⟨entered, -, same⟩ | ⟨-, count, -, new⟩ | ⟨-, count, -, new⟩
      · exact iff_of_true (inside_of_written inside same)
          (flagged (Nat.le_trans (by decide) line))
      · exact iff_of_true (inside_of_written inside same) (flagged entered)
      · exact (inside_append_iff inside new).trans (indexed count)
      · exact (inside_append_iff inside new).trans (indexed count)

/-- A step that finds room counts on inside the buffer, starts a new line or raises a flag. -/
theorem Receiver.step_counts {size : Nat} {s : Receiver} (event : Event)
    (counts : s.Counts size) (room : s.Room size event)
    : (s.step size event).Counts size := by
  have empty {next : Receiver} (reset : next.status = 0) : next.Counts size := by
    rw [Receiver.Counts, reset]
    exact .inl (Nat.zero_le size)
  cases event with
  | taken => exact empty rfl
  | interrupt pnd ret =>
      change s.status.toNat ≠ size at room
      rw [Receiver.step]
      rcases exti1510IrqHandler_cases size ret { s with pnd } with
        ⟨line, same, -⟩ | ⟨entered, next, -⟩ | ⟨-, count, next, -⟩ | ⟨-, count, next, -⟩
      · rw [Receiver.Counts, same]
        exact .inr (Nat.le_trans (by decide) line)
      · split at next
        · have flag := le_or_nline s.status
          rw [Receiver.Counts, next]
          exact .inr (Nat.le_trans (by decide) flag)
        · exact empty next
      · rw [Receiver.Counts, next, or_enter_toNat count]
        exact .inr (Nat.le_add_left _ _)
      · split at next
        · exact empty next
        · rw [Receiver.Counts, next, add_one_toNat count]
          change s.status.toNat ≤ size ∨ _ at counts
          change s.status.toNat < 0x4000 at count
          change s.status.toNat + 1 ≤ size ∨ _
          omega

-----------------------------------------------------------------------------------------
-- Runs
-----------------------------------------------------------------------------------------

/-- Every index that a run writes is inside the buffer exactly when no interrupt of it finds the
status at the size of the buffer.
-/
theorem run_inside_iff (size : Nat) (fits : size ≤ 0x3fff) (events : List Event)
    : (∀ before after, events = before ++ after → (run size before).Inside size)
      ↔ ∀ before event after,
          events = before ++ event :: after → (run size before).Room size event := by
  have counts : Receiver.start.Counts size := .inl (Nat.zero_le size)
  have inside : Receiver.start.Inside size := fun _ none => absurd none List.not_mem_nil
  exact @Replay.every_iff_steps _ _ (Receiver.step size) (Receiver.Counts size)
    (Receiver.Inside size) (Receiver.Room size)
    (fun _ event counts inside => Receiver.step_inside_iff fits event counts inside)
    (fun _ event counts room => Receiver.step_counts event counts room) .start counts inside
    events

/-- A character and the end of its line fit in a buffer of two bytes. -/
theorem run_inside_line
    : let events : List Event :=
        [.interrupt 0x800 0x41, .interrupt 0x800 0x0d, .interrupt 0x800 0x0a]
      ∀ before after, events = before ++ after → (run 2 before).Inside 2 := by
  refine (run_inside_iff 2 (by decide) _).mpr fun before event after split => ?_
  rcases before with _ | ⟨_, _ | ⟨_, _ | ⟨_, before⟩⟩⟩
  · cases split
    decide
  · cases split
    decide
  · cases split
    decide
  · have short := congrArg List.length split
    simp only [List.length_append, List.length_cons, List.length_nil] at short
    omega

/-- The second character of a buffer of one byte is written behind it. -/
theorem run_outside_second
    : let events : List Event := [.interrupt 0x800 0x41, .interrupt 0x800 0x42]
      (run 1 events).written = [(0, 0x41), (1, 0x42)] ∧ ¬(run 1 events).Inside 1 := by
  refine ⟨rfl, fun inside => ?_⟩
  exact absurd (inside (1, 0x42) (List.mem_cons_of_mem _ (List.mem_singleton_self _))) (by decide)

end At32.VirtualUart
