import At32.Lib.Buffer
import Mathlib.Data.List.Basic
import Mathlib.Logic.Function.Basic
import Mathlib.Tactic.Common

/-! Memory that is erased by pages and programmed cell by cell, with a log of what was done
to it. A cell accepts a value only while it is erased.
-/

namespace NorFlash

/-- An operation on the memory; programming records what the cell held before. -/
inductive Op (α : Type*)
  | erase (page : Nat)
  | program (cell : Nat) (held : α)

structure Memory (α : Type*) where
  cells : Nat → α
  log : List (Op α)

variable {α : Type*} (erased : α) (pageCells : Nat)

/-- The operation respects the medium: it programs no cell that holds something. -/
def Op.Clean : Op α → Prop
  | .erase _ => True
  | .program _ held => held = erased

/-- The operation touches only cells from (low) up to (high). -/
def Op.Within (low high : Nat) : Op α → Prop
  | .erase page => low ≤ page * pageCells ∧ (page + 1) * pageCells ≤ high
  | .program cell _ => low ≤ cell ∧ cell < high

namespace Memory

/-- A page erase, by page number. -/
def erasePage (memory : Memory α) (page : Nat) : Memory α :=
  {
    cells := fun cell => if cell / pageCells = page then erased else memory.cells cell
    log := memory.log ++ [.erase page]
  }

/-- The second memory comes from the first by allowed operations only. -/
def LogsOnly (allowed : Op α → Prop) (before after : Memory α) : Prop :=
  ∃ ops, after.log = before.log ++ ops ∧ ∀ op ∈ ops, allowed op

theorem LogsOnly.refl (allowed : Op α → Prop) (memory : Memory α)
    : LogsOnly allowed memory memory :=
  ⟨[], by simp, by simp⟩

theorem LogsOnly.trans {allowed : Op α → Prop} {first second third : Memory α}
    (left : LogsOnly allowed first second) (right : LogsOnly allowed second third)
    : LogsOnly allowed first third := by
  obtain ⟨earlier, eq, holds⟩ := left
  obtain ⟨later, eq', holds'⟩ := right
  refine ⟨earlier ++ later, by rw [eq', eq, List.append_assoc], ?_⟩
  intro op member
  rcases List.mem_append.mp member with member | member
  · exact holds op member
  · exact holds' op member

theorem LogsOnly.mono {allowed wider : Op α → Prop} {before after : Memory α}
    (logs : LogsOnly allowed before after) (widens : ∀ op, allowed op → wider op)
    : LogsOnly wider before after := by
  obtain ⟨ops, eq, holds⟩ := logs
  exact ⟨ops, eq, fun op member => widens op (holds op member)⟩

/-- Operations that are all allowed were allowed up to any point on the way. -/
theorem LogsOnly.front {allowed anything whatever : Op α → Prop}
    {first second third : Memory α} (left : LogsOnly anything first second)
    (right : LogsOnly whatever second third) (whole : LogsOnly allowed first third)
    : LogsOnly allowed first second := by
  obtain ⟨earlier, eq, _⟩ := left
  obtain ⟨later, eq', _⟩ := right
  obtain ⟨ops, same, holds⟩ := whole
  rw [eq', eq, List.append_assoc] at same
  obtain rfl := List.append_cancel_left same
  exact ⟨earlier, eq, fun op member => holds op (List.mem_append_left later member)⟩

/-- The second memory comes from the first by operations of which one is not allowed. -/
def Escapes (allowed : Op α → Prop) (before after : Memory α) : Prop :=
  ∃ ops, after.log = before.log ++ ops ∧ ∃ op ∈ ops, ¬ allowed op

theorem LogsOnly.not_escapes {allowed : Op α → Prop} {before after : Memory α}
    (logs : LogsOnly allowed before after)
    : ¬ Escapes allowed before after := by
  obtain ⟨ops, eq, holds⟩ := logs
  intro escapes
  obtain ⟨others, same, op, member, escaped⟩ := escapes
  rw [List.append_cancel_left (eq.symm.trans same)] at holds
  exact escaped (holds op member)

/-- What escaped stays in the log. -/
theorem Escapes.before {allowed anything : Op α → Prop} {first second third : Memory α}
    (left : Escapes allowed first second) (right : LogsOnly anything second third)
    : Escapes allowed first third := by
  obtain ⟨earlier, eq, op, member, escaped⟩ := left
  obtain ⟨later, eq', _⟩ := right
  exact ⟨earlier ++ later, by rw [eq', eq, List.append_assoc], op,
    List.mem_append_left later member, escaped⟩

theorem Escapes.after {allowed anything : Op α → Prop} {first second third : Memory α}
    (left : LogsOnly anything first second) (right : Escapes allowed second third)
    : Escapes allowed first third := by
  obtain ⟨earlier, eq, _⟩ := left
  obtain ⟨later, eq', op, member, escaped⟩ := right
  exact ⟨earlier ++ later, by rw [eq', eq, List.append_assoc], op,
    List.mem_append_right earlier member, escaped⟩

/-- The second memory comes from the first by operations that respect the medium. -/
def CleanlyBecomes (before after : Memory α) : Prop :=
  ∃ ops, after.log = before.log ++ ops ∧ ∀ op ∈ ops, op.Clean erased

theorem CleanlyBecomes.refl (memory : Memory α) : CleanlyBecomes erased memory memory :=
  LogsOnly.refl (Op.Clean erased) memory

variable {erased} in
theorem CleanlyBecomes.trans {first second third : Memory α}
    (left : CleanlyBecomes erased first second) (right : CleanlyBecomes erased second third)
    : CleanlyBecomes erased first third :=
  LogsOnly.trans left right

theorem erasePage_clean (memory : Memory α) (page : Nat)
    : CleanlyBecomes erased memory (memory.erasePage erased pageCells page) :=
  ⟨[.erase page], rfl, by simp [Op.Clean]⟩

/-- The second memory holds the values from (cell) on, and differs nowhere else. -/
structure Updates (before after : Memory α) (cell : Nat) (values : List α) : Prop where
  written : ∀ index (inside : index < values.length), after.cells (cell + index) = values[index]
  kept
    : ∀ other,
        other < cell ∨ cell + values.length ≤ other
        → after.cells other = before.cells other
  clean : CleanlyBecomes erased before after

variable {erased} in
/-- Two updates of adjacent ranges are one update of the joined range. -/
theorem Updates.append {first second third : Memory α} {cell : Nat} {left right : List α}
    (earlier : Updates erased first second cell left)
    (later : Updates erased second third (cell + left.length) right)
    : Updates erased first third cell (left ++ right) where
  written := by
    intro index inside
    rw [List.getElem_append]
    split
    · rename_i front
      rw [later.kept _ (Or.inl (by omega))]
      exact earlier.written index front
    · rename_i back
      rw [List.length_append] at inside
      have value := later.written (index - left.length) (by omega)
      rw [← value]
      congr 1
      omega
  kept := by
    intro other outside
    rw [List.length_append] at outside
    rw [later.kept other (by omega), earlier.kept other (by omega)]
  clean := earlier.clean.trans later.clean

/-- The second memory comes from the first by operations that respect the medium, and
differs at most in the cells from (cell) on, (count) of them.
-/
structure ChangesWithin (before after : Memory α) (cell count : Nat) : Prop where
  kept
    : ∀ other, other < cell ∨ cell + count ≤ other → after.cells other = before.cells other
  clean : CleanlyBecomes erased before after

theorem ChangesWithin.refl (memory : Memory α) (cell count : Nat)
    : ChangesWithin erased memory memory cell count :=
  ⟨fun _ _ => rfl, .refl erased memory⟩

variable {erased} in
theorem ChangesWithin.trans {first second third : Memory α} {cell count : Nat}
    (left : ChangesWithin erased first second cell count)
    (right : ChangesWithin erased second third cell count)
    : ChangesWithin erased first third cell count :=
  ⟨fun other outside => (right.kept other outside).trans (left.kept other outside),
    left.clean.trans right.clean⟩

variable {erased} in
/-- An update changes cells within any range around its own. -/
theorem Updates.changesWithin {before after : Memory α} {cell : Nat} {values : List α}
    (updates : Updates erased before after cell values) {start count : Nat}
    (above : start ≤ cell) (below : cell + values.length ≤ start + count)
    : ChangesWithin erased before after start count :=
  ⟨fun other outside => updates.kept other (by omega), updates.clean⟩

-----------------------------------------------------------------------------------------
-- Erasing pages
-----------------------------------------------------------------------------------------

/-- The cells from (cell) on are erased, (count) of them. -/
def Blank (memory : Memory α) (cell count : Nat) : Prop :=
  ∀ index < count, memory.cells (cell + index) = erased

/-- Erasing (count) pages in order, from page (first) on. -/
def erasePages (memory : Memory α) (first count : Nat) : Memory α :=
  (List.range count).foldl (fun memory index => memory.erasePage erased pageCells (first + index))
    memory

theorem erasePages_succ (memory : Memory α) (first count : Nat)
    : memory.erasePages erased pageCells first (count + 1)
      = (memory.erasePages erased pageCells first count).erasePage erased pageCells
          (first + count) := by
  simp [erasePages, List.range_succ]

/-- The cells of erased pages are erased and the others kept, by induction on the pages. -/
theorem erasePages_cells (memory : Memory α) (first count cell : Nat)
    : (memory.erasePages erased pageCells first count).cells cell
      = if first ≤ cell / pageCells ∧ cell / pageCells < first + count then
          erased
        else
          memory.cells cell := by
  induction count with
  | zero =>
      rw [if_neg (by omega)]
      rfl
  | succ count ih =>
      simp only [erasePages_succ, erasePage, ih]
      split
      · rw [if_pos (by omega)]
      · split
        · rw [if_pos (by omega)]
        · rw [if_neg (by omega)]

/-- Erasing pages adds to the log, by induction on the pages. -/
theorem erasePages_grows (memory : Memory α) (first count : Nat)
    : LogsOnly (fun _ => True) memory (memory.erasePages erased pageCells first count) := by
  induction count with
  | zero => exact .refl _ memory
  | succ count ih =>
      rw [erasePages_succ]
      exact ih.trans (LogsOnly.mono (erasePage_clean erased pageCells _ _) fun _ _ => trivial)

/-- Erasing pages changes them only. -/
theorem erasePages_changesWithin (memory : Memory α) (first count : Nat)
    (positive : 0 < pageCells)
    : ChangesWithin erased memory (memory.erasePages erased pageCells first count)
        (first * pageCells) (count * pageCells) where
  kept := by
    intro other outside
    rw [erasePages_cells, if_neg]
    intro bounds
    obtain ⟨above, below⟩ := bounds
    rw [Nat.le_div_iff_mul_le positive] at above
    rw [Nat.div_lt_iff_lt_mul positive, Nat.add_mul] at below
    omega
  clean := by
    induction count with
    | zero => exact .refl erased memory
    | succ count ih =>
        rw [erasePages_succ]
        exact ih.trans (erasePage_clean erased pageCells _ _)

/-- Erased pages are blank. -/
theorem erasePages_blank (memory : Memory α) (first count : Nat) (positive : 0 < pageCells)
    : (memory.erasePages erased pageCells first count).Blank erased (first * pageCells)
        (count * pageCells) := by
  intro index inside
  rw [erasePages_cells, if_pos]
  rw [Nat.le_div_iff_mul_le positive, Nat.div_lt_iff_lt_mul positive, Nat.add_mul]
  omega

-----------------------------------------------------------------------------------------
-- Programming cells one after another
-----------------------------------------------------------------------------------------

variable [DecidableEq α]

/-- Programming one cell, which is refused unless the cell is erased. -/
def program (memory : Memory α) (cell : Nat) (value : α) : Memory α :=
  {
    cells :=
      if memory.cells cell = erased then
        Function.update memory.cells cell value
      else
        memory.cells
    log := memory.log ++ [.program cell (memory.cells cell)]
  }

/-- Programming values into consecutive cells, in order. -/
def programAll (memory : Memory α) : Nat → List α → Memory α
  | _, [] => memory
  | cell, value :: rest => programAll (program erased memory cell value) (cell + 1) rest

/-- Programming two lists in succession is programming their concatenation. -/
theorem programAll_append (memory : Memory α) (cell : Nat) (left right : List α)
    : memory.programAll erased cell (left ++ right)
      = (memory.programAll erased cell left).programAll erased (cell + left.length) right := by
  induction left generalizing memory cell with
  | nil => rfl
  | cons value rest ih =>
      rw [List.cons_append, programAll, programAll, ih, List.length_cons]
      congr 1
      omega

/-- Programming the first of some blank cells leaves the others blank. -/
theorem Blank.program {erased : α} {memory : Memory α} {cell count : Nat} (value : α)
    (blank : memory.Blank erased cell (count + 1))
    : (memory.program erased cell value).Blank erased (cell + 1) count := by
  intro index inside
  have head : memory.cells cell = erased := blank 0 (by omega)
  have later := blank (index + 1) (by omega)
  simp only [Memory.program, head, if_true]
  rw [Function.update_of_ne (by omega)]
  simpa only [Nat.add_assoc, Nat.add_comm 1] using later

/-- Programming blank cells respects the medium, by induction on the values. -/
theorem programAll_clean (memory : Memory α) (cell : Nat) (values : List α)
    (blank : memory.Blank erased cell values.length)
    : CleanlyBecomes erased memory (memory.programAll erased cell values) := by
  induction values generalizing memory cell with
  | nil => exact .refl erased memory
  | cons value rest ih =>
      have head : memory.cells cell = erased := blank 0 (by simp)
      refine CleanlyBecomes.trans ⟨[.program cell (memory.cells cell)], rfl, ?_⟩
        (ih _ _ (blank.program value))
      simp [Op.Clean, head]

/-- Programming adds to the log, by induction on the values. -/
theorem programAll_grows (memory : Memory α) (cell : Nat) (values : List α)
    : LogsOnly (fun _ => True) memory (memory.programAll erased cell values) := by
  induction values generalizing memory cell with
  | nil => exact .refl _ memory
  | cons value rest ih =>
      exact LogsOnly.trans ⟨[.program cell (memory.cells cell)], rfl, fun _ _ => trivial⟩
        (ih (program erased memory cell value) (cell + 1))

/-- Programming leaves the cells before and after its range as they were. -/
theorem programAll_outside (memory : Memory α) (cell : Nat) (values : List α) {other : Nat}
    (outside : other < cell ∨ cell + values.length ≤ other)
    : (memory.programAll erased cell values).cells other = memory.cells other := by
  induction values generalizing memory cell with
  | nil => rfl
  | cons value rest ih =>
      simp only [List.length_cons] at outside
      rw [programAll, ih _ _ (by omega)]
      unfold program
      split
      · exact Function.update_of_ne (by omega) _ _
      · rfl

/-- Blank cells take the programmed values, by induction on the values. -/
theorem programAll_inside (memory : Memory α) (cell : Nat) (values : List α)
    (blank : memory.Blank erased cell values.length) {index : Nat}
    (inside : index < values.length)
    : (memory.programAll erased cell values).cells (cell + index) = values[index] := by
  induction values generalizing memory cell index with
  | nil => cases inside
  | cons value rest ih =>
      have head : memory.cells cell = erased := blank 0 (by simp)
      rw [programAll]
      cases index with
      | zero =>
          rw [programAll_outside erased _ _ _ (Or.inl (by omega))]
          simp [program, head]
      | succ index =>
          simp only [List.length_cons, Nat.add_lt_add_iff_right] at inside
          rw [show cell + (index + 1) = cell + 1 + index by omega,
            ih _ _ (blank.program value) inside]
          rfl

theorem programAll_updates (memory : Memory α) (cell : Nat) (values : List α)
    (blank : memory.Blank erased cell values.length)
    : Updates erased memory (memory.programAll erased cell values) cell values where
  written := fun _ inside => programAll_inside erased memory cell values blank inside
  kept := fun _ outside => programAll_outside erased memory cell values outside
  clean := programAll_clean erased memory cell values blank

/-- The cells of a page, in order. -/
def pageList (memory : Memory α) (page : Nat) : List α :=
  (List.range pageCells).map fun index => memory.cells (page * pageCells + index)

omit [DecidableEq α] in
@[simp] theorem pageList_length (memory : Memory α) (page : Nat)
    : (memory.pageList pageCells page).length = pageCells := by
  simp [pageList]

/-- Erasing a page and programming it whole, with some of its old cells replaced, updates
exactly the replaced ones.
-/
theorem rewritePage_updates (memory : Memory α) (page offset : Nat) (values : List α)
    (positive : 0 < pageCells) (fits : offset + values.length ≤ pageCells)
    : Updates erased memory
        ((memory.erasePage erased pageCells page).programAll erased (page * pageCells)
          (Buffer.splice (memory.pageList pageCells page) offset values))
        (page * pageCells + offset) values := by
  let merged := Buffer.splice (memory.pageList pageCells page) offset values
  have fitsPage : offset + values.length ≤ (memory.pageList pageCells page).length := by
    rw [pageList_length]
    exact fits
  have length : merged.length = pageCells := by
    rw [Buffer.splice_length _ _ _ fitsPage, pageList_length]
  have inPage {index : Nat} (inside : index < pageCells)
      : (page * pageCells + index) / pageCells = page := by
    rw [Nat.add_comm, Nat.add_mul_div_right _ _ (by omega), Nat.div_eq_of_lt inside,
      Nat.zero_add]
  have blank
      : (memory.erasePage erased pageCells page).Blank erased (page * pageCells)
          merged.length := by
    intro index inside
    simp [erasePage, inPage (length ▸ inside)]
  have whole := programAll_updates erased _ (page * pageCells) merged blank
  refine ⟨?_, ?_, (erasePage_clean erased pageCells memory page).trans whole.clean⟩
  · intro index inside
    rw [Nat.add_assoc, whole.written (offset + index) (by omega)]
    apply Option.some.inj
    rw [← List.getElem?_eq_getElem, ← List.getElem?_eq_getElem]
    exact Buffer.splice_inside _ offset values fitsPage inside
  · intro other outside
    by_cases here : page * pageCells ≤ other ∧ other < page * pageCells + pageCells
    · obtain ⟨index, rfl⟩ := Nat.exists_eq_add_of_le here.1
      rw [whole.written index (by omega)]
      apply Option.some.inj
      rw [← List.getElem?_eq_getElem, Buffer.splice_outside _ offset values fitsPage (by omega),
        pageList]
      simp only [List.getElem?_map]
      rw [List.getElem?_range (by omega)]
      rfl
    · have elsewhere : other / pageCells ≠ page := by
        rintro rfl
        have split := Nat.div_add_mod other pageCells
        have small := Nat.mod_lt other positive
        rw [Nat.mul_comm] at split
        omega
      rw [whole.kept other (by omega)]
      simp [erasePage, elsewhere]

end Memory

end NorFlash
