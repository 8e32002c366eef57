import At32.Lib.SerialFlash

/-! A serial NOR flash with a power control: asleep it takes no command but the release from
sleep, and its output floats. Programs that keep to other commands run awake as on the chip
alone, and asleep as on a line that nobody drives.
-/

namespace SerialFlash

open Port

@[match_pattern] abbrev READ_ID : UInt8 := 0x90
@[match_pattern] abbrev RELEASE : UInt8 := 0xAB
@[match_pattern] abbrev POWER_DOWN : UInt8 := 0xB9

/-- What differs from part to part and from board to board: the timing, the two bytes that tell
the manufacturer and the device, and what a line reads as that nobody drives.
-/
structure Part where
  timing : Timing
  manufacturer : UInt8
  device : UInt8
  floating : UInt8

structure Powered where
  chip : Chip
  asleep : Bool

namespace Powered

/-- The identification is shifted out behind its address, one byte after the other. -/
def answer (part : Part) (s : Chip) : UInt8 :=
  match s.received with
  | READ_ID :: _ :: _ :: _ :: shifted =>
      if shifted.length % 2 = 0 then part.manufacturer else part.device
  | _ => s.answer

/-- A byte shifted in; asleep the chip shifts none out. -/
def transfer (part : Part) (s : Powered) (data : UInt8) : Powered :=
  if s.chip.selected then
    if s.asleep then
      { s with
        chip := { s.chip with received := s.chip.received ++ [data], reply := part.floating } }
    else
      { s with chip := { s.chip.transfer data with reply := answer part s.chip } }
  else
    s

/-- The end of a command, which wakes the chip, sends it to sleep or is the chip's. -/
def deselect (part : Part) (s : Powered) : Powered :=
  if s.asleep then
    {
      chip := { s.chip with selected := false, received := [] }
      asleep := s.chip.received.head? != some RELEASE
    }
  else
    {
      chip := s.chip.select part.timing true
      asleep := s.chip.received == [POWER_DOWN] && s.chip.busy == 0
    }

def select (part : Part) (s : Powered) (level : Bool) : Powered :=
  if level then s.deselect part
  else { s with chip := { s.chip with selected := true, received := [] } }

end Powered

/-- The chip with its power control behind a port. -/
def powered (part : Part) : Device Action UInt8 Powered where
  apply s
    | .select level => s.select part level
    | .transfer data => s.transfer part data
  look s := s.chip.reply

-----------------------------------------------------------------------------------------
-- Programs that send whole commands
-----------------------------------------------------------------------------------------

/-- Where a program is: between two commands, in one without a byte, or in one with some. -/
inductive Stage
  | between
  | begun
  | amid

/-- A command whose first byte has nothing to do with the power or the identification. -/
def Plain (first : UInt8) : Prop := first ≠ READ_ID ∧ first ≠ RELEASE ∧ first ≠ POWER_DOWN

instance (first : UInt8) : Decidable (Plain first) := inferInstanceAs (Decidable (_ ∧ _ ∧ _))

/-- The program goes from one stage to another by whole commands that are plain. -/
inductive Framed {ρ : Type} (last : Stage) : Stage → Program Action UInt8 ρ → Prop
  | done (result : ρ) : Framed last last (.done result)
  | select {next} (rest : Framed last .begun next)
    : Framed last .between (.act (.select false) next)
  | first {data next} (plain : Plain data) (rest : ∀ reading, Framed last .amid (next reading))
    : Framed last .begun (.act (.transfer data) (.look next))
  | later {data next} (rest : ∀ reading, Framed last .amid (next reading))
    : Framed last .amid (.act (.transfer data) (.look next))
  | deselect {next} (rest : Framed last .between next)
    : Framed last .amid (.act (.select true) next)

/-- Programs one after the other, by induction on the first. -/
theorem Framed.bind {ρ τ : Type} {stage middle last : Stage} {program : Program Action UInt8 ρ}
    {rest : ρ → Program Action UInt8 τ} (framed : Framed middle stage program)
    (behind : ∀ result, Framed last middle (rest result))
    : Framed last stage (program >>= rest) := by
  induction framed with
  | done result => exact behind result
  | select _ ih => exact .select ih
  | first plain _ ih => exact .first plain ih
  | later _ ih => exact .later ih
  | deselect _ ih => exact .deselect ih

/-- The chip at a stage of plain commands. -/
def Stage.Here (s : Chip) : Stage → Prop
  | .between => s.selected = false
  | .begun => s.selected = true ∧ s.received = []
  | .amid => s.selected = true ∧ ∃ first rest, s.received = first :: rest ∧ Plain first

variable {part : Part} {ρ : Type}

theorem Stage.Here.append {s : Chip} (here : Stage.Here s .amid) (data : UInt8)
    : ∃ first rest, s.received ++ [data] = first :: rest ∧ Plain first := by
  obtain ⟨_, first, rest, received, plain⟩ := here
  exact ⟨first, rest ++ [data], by rw [received, List.cons_append], plain⟩

/-- Behind a plain command the identification does not answer. -/
theorem Powered.answer_plain {s : Chip}
    (plain : ∀ first rest, s.received = first :: rest → Plain first)
    : Powered.answer part s = s.answer := by
  unfold Powered.answer
  split
  · rename_i received
    exact absurd rfl (plain _ _ received).1
  · rfl

/-- Awake, a byte of a plain command is a byte to the chip. -/
theorem powered_transfer (part : Part) {s : Chip} (selected : s.selected = true)
    (plain : ∀ first rest, s.received = first :: rest → Plain first) (data : UInt8)
    : (powered part).apply ⟨s, false⟩ (.transfer data) = ⟨s.transfer data, false⟩ := by
  simp only [powered, Powered.transfer, selected, if_true, Powered.answer_plain plain]
  simp only [Chip.transfer, selected, if_true]
  rfl

/-- Awake, programs of plain commands run as on the chip alone; by induction on the program. -/
theorem Framed.run_awake {stage last : Stage} {program : Program Action UInt8 ρ}
    (framed : Framed last stage program) {s : Chip} (here : stage.Here s)
    : program.run (powered part) ⟨s, false⟩
      = ((program.run (chip part.timing) s).1, ⟨(program.run (chip part.timing) s).2, false⟩) := by
  induction framed generalizing s with
  | done result => rfl
  | select _ ih => exact ih ⟨rfl, rfl⟩
  | @first data next plain _ ih =>
      obtain ⟨selected, received⟩ := here
      have taken := powered_transfer part selected
        (fun first rest split => by rw [received] at split; cases split) data
      simp only [Program.run, taken]
      refine ih _ ⟨?_, data, [], ?_, plain⟩
      · simp only [Chip.transfer, selected, if_true]
      · simp only [Chip.transfer, selected, received, if_true, List.nil_append]
  | @later data next _ ih =>
      obtain ⟨selected, first, rest, received, plain⟩ := here
      have taken := powered_transfer part selected
        (fun other rest' split => by
          rw [received] at split
          obtain ⟨rfl, _⟩ := List.cons.inj split
          exact plain) data
      simp only [Program.run, taken]
      refine ih _ ⟨?_, first, rest ++ [data], ?_, plain⟩
      · simp only [Chip.transfer, selected, if_true]
      · simp only [Chip.transfer, selected, received, if_true, List.cons_append]
  | @deselect next _ ih =>
      obtain ⟨selected, first, rest, received, plain⟩ := here
      have stays : (s.received == [POWER_DOWN] && s.busy == 0) = false := by
        rw [received, Bool.and_eq_false_iff]
        refine Or.inl (beq_false_of_ne fun same => plain.2.2 ?_)
        exact (List.cons.inj same).1
      have taken : (powered part).apply ⟨s, false⟩ (.select true)
          = ⟨s.select part.timing true, false⟩ := by
        simp only [powered, Powered.select, Powered.deselect, stays, if_true]
        rfl
      simp only [Program.run, taken]
      refine ih ?_
      simp only [Stage.Here, Chip.select, if_true]

/-- The result of a program for which every reading is the same. -/
def resultWith (reading : UInt8) : Program Action UInt8 ρ → ρ
  | .done result => result
  | .act _ next => resultWith reading next
  | .look next => resultWith reading (next reading)

theorem resultWith_bind {τ : Type} (reading : UInt8) (first : Program Action UInt8 ρ)
    (rest : ρ → Program Action UInt8 τ)
    : resultWith reading (first >>= rest)
      = resultWith reading (rest (resultWith reading first)) := by
  induction first with
  | done result => rfl
  | act action next ih => exact ih
  | look next ih => exact ih _

/-- A chip asleep, with its cells and its latch. -/
structure Asleep (cells : Nat → UInt8) (enabled : Bool) (s : Powered) : Prop where
  asleep : s.asleep = true
  cells : s.chip.cells = cells
  enabled : s.chip.enabled = enabled
  idle : s.chip.busy = 0

/-- Asleep, programs of plain commands read a line that nobody drives and change nothing; by
induction on the program.
-/
theorem Framed.run_asleep (part : Part) {stage last : Stage} {program : Program Action UInt8 ρ}
    (framed : Framed last stage program) {cells : Nat → UInt8} {enabled : Bool} {s : Powered}
    (asleep : Asleep cells enabled s) (here : stage.Here s.chip)
    : (program.run (powered part) s).1 = resultWith part.floating program
      ∧ Asleep cells enabled (program.run (powered part) s).2
      ∧ last.Here (program.run (powered part) s).2.chip := by
  obtain ⟨s, sleeps⟩ := s
  obtain rfl : sleeps = true := asleep.asleep
  induction framed generalizing s with
  | done result => exact ⟨rfl, asleep, here⟩
  | select _ ih =>
      exact ih _ ⟨rfl, asleep.cells, asleep.enabled, asleep.idle⟩ ⟨rfl, rfl⟩
  | @first data next plain _ ih =>
      obtain ⟨selected, received⟩ := here
      simp only at selected received
      have taken : (powered part).apply ⟨s, true⟩ (.transfer data)
          = ⟨{ s with received := s.received ++ [data], reply := part.floating }, true⟩ := by
        simp only [powered, Powered.transfer, selected, if_true]
      simp only [Program.run, taken]
      exact ih _ _ ⟨rfl, asleep.cells, asleep.enabled, asleep.idle⟩
        ⟨selected, data, [], by rw [received]; rfl, plain⟩
  | @later data next _ ih =>
      have longer := here.append data
      obtain ⟨selected, _⟩ := here
      simp only at selected
      have taken : (powered part).apply ⟨s, true⟩ (.transfer data)
          = ⟨{ s with received := s.received ++ [data], reply := part.floating }, true⟩ := by
        simp only [powered, Powered.transfer, selected, if_true]
      simp only [Program.run, taken]
      exact ih _ _ ⟨rfl, asleep.cells, asleep.enabled, asleep.idle⟩ ⟨selected, longer⟩
  | @deselect next _ ih =>
      obtain ⟨selected, first, rest, received, plain⟩ := here
      simp only at selected received
      have stays : (s.received.head? != some RELEASE) = true := by
        rw [received, List.head?_cons, bne_iff_ne]
        exact fun same => plain.2.1 (Option.some.inj same)
      have taken : (powered part).apply ⟨s, true⟩ (.select true)
          = ⟨{ s with selected := false, received := [] }, true⟩ := by
        simp only [powered, Powered.select, Powered.deselect, stays, if_true]
      simp only [Program.run, taken]
      exact ih _ ⟨rfl, asleep.cells, asleep.enabled, asleep.idle⟩ rfl

end SerialFlash
