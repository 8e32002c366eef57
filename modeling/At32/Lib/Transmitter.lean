import Mathlib.Data.List.Basic
import Mathlib.Tactic.Common

/-! A transmitter with a shift register and a data register behind it, and a program that writes
words to it and waits for its completion flag, in any interleaving of the two.
-/

namespace Transmitter

/-- The words shifted out, the registers, the completion flag, and whether the status has been
read since the last write.
-/
structure Sender (α : Type) where
  line : List α
  shift : Option α
  data : Option α
  complete : Bool
  seen : Bool
  deriving DecidableEq, Repr

/-- What a program does to the transmitter: one reading after another until the flag is set, or
a write.
-/
inductive Access (α : Type)
  | wait
  | store (word : α)
  deriving DecidableEq, Repr

inductive Event
  | access
  | shifted
  deriving DecidableEq, Repr

variable {α : Type}

namespace Sender

/-- At rest, behind what was shifted out before. -/
def rest (line : List α) (seen : Bool) : Sender α :=
  { line, shift := none, data := none, complete := true, seen }

/-- A write goes on to a shift register that is free, and replaces a word that still waits for
one that is not. It clears the flag if the status has been read before it.
-/
def store (u : Sender α) (word : α) : Sender α :=
  let u := { u with complete := u.complete && !u.seen, seen := false }
  match u.shift with
  | none => { u with shift := some word }
  | some _ => { u with data := some word }

/-- A reading of the status. -/
def read (u : Sender α) : Sender α := { u with seen := true }

/-- A word leaves the shift register; behind the last one the flag is set. -/
def shifted (u : Sender α) : Sender α :=
  match u.shift, u.data with
  | none, _ => u
  | some word, none => { u with line := u.line ++ [word], shift := none, complete := true }
  | some word, some next =>
      { u with line := u.line ++ [word], shift := some next, data := none }

/-- What has been shifted out and what is to be. -/
def held (u : Sender α) : List α := u.line ++ u.shift.toList ++ u.data.toList

/-- A word waits only behind another one, and the flag is down only while there is one. -/
structure Flowing (u : Sender α) : Prop where
  behind : u.shift = none → u.data = none
  complete : u.shift = none → u.complete = true

/-- How many words are to be shifted out. -/
def pending (u : Sender α) : Nat := u.shift.toList.length + u.data.toList.length

end Sender

/-- The transmitter, and what is left of the program. -/
structure State (α : Type) where
  sender : Sender α
  left : List (Access α)
  deriving DecidableEq, Repr

def State.step (s : State α) : Event → State α
  | .shifted => { s with sender := s.sender.shifted }
  | .access =>
      match s.left with
      | [] => s
      | .store word :: left => { sender := s.sender.store word, left }
      | .wait :: left => { sender := s.sender.read, left := if s.sender.complete then left else s.left }

def State.run (s : State α) (events : List Event) : State α := events.foldl State.step s

/-- The words of a program. -/
def words (left : List (Access α)) : List α :=
  left.filterMap fun
    | .wait => none
    | .store word => some word

/-- The words shifted out, those to be, and those that are not yet written. -/
def State.held (s : State α) : List α := s.sender.held ++ words s.left

-----------------------------------------------------------------------------------------
-- The transmitter
-----------------------------------------------------------------------------------------

namespace Sender

@[simp] theorem held_rest (line : List α) (seen : Bool) : (rest line seen).held = line := by
  simp [held, rest]

@[simp] theorem held_read (u : Sender α) : u.read.held = u.held := rfl

@[simp] theorem held_shifted (u : Sender α) : u.shifted.held = u.held := by
  obtain ⟨line, shift, data, complete, seen⟩ := u
  cases shift with
  | none => rfl
  | some word => cases data <;> simp [shifted, held]

/-- A write is kept while no word waits. -/
theorem held_store {u : Sender α} (room : u.data = none) (word : α)
    : (u.store word).held = u.held ++ [word] := by
  obtain ⟨line, shift, data, complete, seen⟩ := u
  obtain rfl : data = none := room
  cases shift <;> simp [store, held]

/-- A write over a word that waits is one word less. -/
theorem length_store_over {u : Sender α} {first second : α} (shift : u.shift = some first)
    (data : u.data = some second) (word : α)
    : (u.store word).held.length = u.held.length := by
  simp [store, held, shift, data]

theorem Flowing.rest (line : List α) (seen : Bool) : (Sender.rest line seen).Flowing :=
  ⟨fun _ => rfl, fun _ => rfl⟩

theorem Flowing.read {u : Sender α} (flowing : u.Flowing) : u.read.Flowing :=
  ⟨flowing.behind, flowing.complete⟩

theorem store_complete (u : Sender α) (word : α)
    : (u.store word).complete = (u.complete && !u.seen) := by
  obtain ⟨line, shift, data, complete, seen⟩ := u
  cases shift <;> rfl

theorem store_data {u : Sender α} (free : u.shift = none) (word : α)
    : (u.store word).data = u.data := by
  obtain ⟨line, shift, data, complete, seen⟩ := u
  obtain rfl : shift = none := free
  rfl

/-- Behind a write the shift register is not free. -/
theorem store_shift (u : Sender α) (word : α)
    : (u.store word).shift = some (u.shift.getD word) := by
  obtain ⟨line, shift, data, complete, seen⟩ := u
  cases shift <;> rfl

theorem Flowing.store (u : Sender α) (word : α) : (u.store word).Flowing := by
  have busy : (u.store word).shift ≠ none := by
    rw [u.store_shift]
    exact Option.some_ne_none _
  exact ⟨fun free => absurd free busy, fun free => absurd free busy⟩

theorem Flowing.shifted {u : Sender α} (flowing : u.Flowing) : u.shifted.Flowing := by
  obtain ⟨line, shift, data, complete, seen⟩ := u
  cases shift with
  | none => exact flowing
  | some word =>
      cases data with
      | none => exact ⟨fun _ => rfl, fun _ => rfl⟩
      | some next => exact ⟨fun _ => rfl, fun free => absurd free (Option.some_ne_none next)⟩

/-- Each word shifted out is one less to be. -/
theorem pending_shifted (u : Sender α) (flowing : u.Flowing)
    : u.shifted.pending = u.pending - 1 := by
  obtain ⟨line, shift, data, complete, seen⟩ := u
  cases shift with
  | none =>
      obtain rfl : data = none := flowing.behind rfl
      rfl
  | some word => cases data <;> rfl

theorem Flowing.complete_of_pending {u : Sender α} (flowing : u.Flowing) (none : u.pending = 0)
    : u.complete = true := by
  refine flowing.complete ?_
  cases shift : u.shift with
  | none => rfl
  | some word => simp [pending, shift] at none

end Sender

-----------------------------------------------------------------------------------------
-- Interleavings
-----------------------------------------------------------------------------------------

@[simp] theorem run_nil (s : State α) : s.run [] = s := rfl

@[simp] theorem run_cons (s : State α) (event : Event) (events : List Event)
    : s.run (event :: events) = (s.step event).run events :=
  rfl

@[simp] theorem run_append (s : State α) (events later : List Event)
    : s.run (events ++ later) = (s.run events).run later :=
  List.foldl_append

/-- What an access does: nothing behind the end, a write, the last reading, or another one. -/
theorem step_access_cases (s : State α)
    : (s.left = [] ∧ s.step .access = s)
      ∨ (∃ word left,
          s.left = .store word :: left
          ∧ s.step .access = { sender := s.sender.store word, left })
      ∨ (∃ left,
          s.left = .wait :: left
          ∧ s.sender.complete = true
          ∧ s.step .access = { sender := s.sender.read, left })
      ∨ (∃ left,
          s.left = .wait :: left
          ∧ s.sender.complete = false
          ∧ s.step .access = { s with sender := s.sender.read }) := by
  obtain ⟨sender, left⟩ := s
  cases left with
  | nil => exact .inl ⟨rfl, rfl⟩
  | cons first left =>
      cases first with
      | store word => exact .inr (.inl ⟨word, left, rfl, rfl⟩)
      | wait =>
          cases complete : sender.complete with
          | true => exact .inr (.inr (.inl ⟨left, rfl, rfl, by simp [State.step, complete]⟩))
          | false => exact .inr (.inr (.inr ⟨left, rfl, rfl, by simp [State.step, complete]⟩))

/-- A write is kept while no word waits. -/
theorem held_write {u : Sender α} (room : u.data = none) (word : α) (left : List (Access α))
    : State.held { sender := u.store word, left }
      = State.held { sender := u, left := .store word :: left } := by
  rw [State.held, State.held, Sender.held_store room, List.append_assoc]
  rfl

theorem held_shift (s : State α) : (s.step .shifted).held = s.held := by
  change s.sender.shifted.held ++ _ = _
  rw [Sender.held_shifted]
  rfl

theorem step_flowing {s : State α} (flowing : s.sender.Flowing) (event : Event)
    : (s.step event).sender.Flowing := by
  cases event with
  | shifted => exact Sender.Flowing.shifted flowing
  | access =>
      obtain ⟨_, same⟩ | ⟨word, _, _, same⟩ | ⟨_, _, _, same⟩ | ⟨_, _, _, same⟩ :=
        step_access_cases s <;>
        rw [same]
      · exact flowing
      · exact .store s.sender word
      · exact flowing.read
      · exact flowing.read

theorem run_flowing {s : State α} (flowing : s.sender.Flowing) (events : List Event)
    : (s.run events).sender.Flowing := by
  induction events generalizing s with
  | nil => exact flowing
  | cons event events ih => exact ih (step_flowing flowing event)

/-- An access takes the program on, unless it is a reading with the flag down. -/
theorem step_left (s : State α)
    : (s.step .access).left.length = s.left.length - 1
      ∨ s.sender.complete = false ∧ s.step .access = { s with sender := s.sender.read } := by
  obtain ⟨left, same⟩ | ⟨word, _, left, same⟩ | ⟨_, left, _, same⟩ | ⟨_, _, down, same⟩ :=
    step_access_cases s
  · exact .inl (by rw [same, left]; rfl)
  · exact .inl (by rw [same, left]; rfl)
  · exact .inl (by rw [same, left]; rfl)
  · exact .inr ⟨down, same⟩

theorem step_left_le (s : State α) (event : Event)
    : (s.step event).left.length ≤ s.left.length := by
  cases event with
  | shifted => exact Nat.le_refl _
  | access =>
      obtain shorter | ⟨_, same⟩ := step_left s
      · rw [shorter]
        exact Nat.sub_le _ 1
      · exact Nat.le_of_eq (by rw [same])

theorem run_left_le (s : State α) (events : List Event)
    : (s.run events).left.length ≤ s.left.length := by
  induction events generalizing s with
  | nil => exact Nat.le_refl _
  | cons event events ih => exact Nat.le_trans (ih _) (step_left_le s event)

/-- The program goes on once the transmitter has had the time to shift out what it holds; by
induction on the events.
-/
theorem run_advances {s : State α} (flowing : s.sender.Flowing) {time : Nat}
    (enough : s.sender.pending ≤ time) {events : List Event}
    (fair : (List.replicate time Event.shifted ++ [Event.access]).Sublist events)
    : (s.run events).left.length ≤ s.left.length - 1 := by
  induction events generalizing s time with
  | nil => simp at fair
  | cons event events ih =>
      cases event with
      | shifted =>
          have less : (s.step .shifted).sender.pending ≤ time - 1 := by
            change s.sender.shifted.pending ≤ time - 1
            rw [Sender.pending_shifted _ flowing]
            omega
          refine ih (step_flowing flowing .shifted) less ?_
          cases time with
          | zero =>
              exact (List.sublist_cons_iff.mp fair).elim id fun ⟨_, other, _⟩ => by simp at other
          | succ time => exact List.cons_sublist_cons.mp fair
      | access =>
          obtain shorter | ⟨down, same⟩ := step_left s
          · exact Nat.le_trans (run_left_le _ events) (Nat.le_of_eq shorter)
          · rw [run_cons, same]
            cases time with
            | zero =>
                have up := flowing.complete_of_pending (Nat.le_zero.mp enough)
                rw [down] at up
                cases up
            | succ time =>
                refine ih (s := { s with sender := s.sender.read }) flowing.read enough ?_
                rw [List.replicate_succ, List.cons_append] at fair ⊢
                exact (List.sublist_cons_iff.mp fair).elim id fun ⟨_, other, _⟩ => by
                  simp at other

/-- The program ends: a round in which two words can be shifted out before an access takes it on
by one access; by induction on the rounds.
-/
theorem run_ends {s : State α} (flowing : s.sender.Flowing) {rounds : List (List Event)}
    (fair : ∀ round ∈ rounds, [Event.shifted, .shifted, .access].Sublist round)
    (enough : s.left.length ≤ rounds.length)
    : (s.run rounds.flatten).left = [] := by
  induction rounds generalizing s with
  | nil => exact List.eq_nil_of_length_eq_zero (Nat.le_zero.mp enough)
  | cons round rounds ih =>
      obtain ⟨now, later⟩ := List.forall_mem_cons.mp fair
      have two : s.sender.pending ≤ 2 := by
        unfold Sender.pending
        cases s.sender.shift <;> cases s.sender.data <;> simp
      have less := run_advances flowing two now
      rw [List.flatten_cons, run_append]
      refine ih (run_flowing flowing round) later ?_
      rw [List.length_cons] at enough
      omega

end Transmitter
