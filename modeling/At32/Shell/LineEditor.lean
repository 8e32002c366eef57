import At32.Shell.ShellSteps
import Mathlib.Data.List.Induction

/-! The shell as a line editor: it executes what an editor on a list of characters executes. -/

namespace At32.Shell

open CString

/-- The line, and the commands executed. -/
structure Reference where
  line : List UInt8
  executed : List ShellCommand
  deriving DecidableEq, Repr

def Reference.start : Reference := { line := [], executed := [] }

/-- A character appends, BACKSPACE removes the last character, TAB completes to the only name that
the line is a prefix of, and ENTER executes the command with the line as its name.
-/
def Reference.step (r : Reference) (rev : UInt8) : Reference :=
  if rev = ENTER then
    {
      line := []
      executed := r.executed ++ (shellCommand.find? fun entry => entry.name = r.line).toList
    }
  else if rev = TAB then
    match command.filter r.line.isPrefixOf with
    | [name] => { r with line := name }
    | _ => r
  else if rev = BACKSPACE then
    { r with line := r.line.dropLast }
  else
    { r with line := r.line ++ [rev] }

def Reference.run (received : List UInt8) : Reference := received.foldl Reference.step .start

/-- A printable character, or one of the keys of the editor. -/
def Key (rev : UInt8) : Prop :=
  (0x20 ≤ rev ∧ rev ≤ 0x7e) ∨ rev = BACKSPACE ∨ rev = TAB ∨ rev = ENTER

instance (rev : UInt8) : Decidable (Key rev) :=
  inferInstanceAs (Decidable ((0x20 ≤ rev ∧ rev ≤ 0x7e) ∨ rev = BACKSPACE ∨ rev = TAB
    ∨ rev = ENTER))

/-- The loop has the line of the reference in str, with terminators behind it. -/
structure Simulates (s : Loop) (r : Reference) : Prop where
  i : s.i = r.line.length
  str : s.str = holding 0 r.line
  flag : s.flag = false
  executed : s.executed = r.executed
  plain : ∀ c ∈ r.line, c ≠ 0 ∧ c ≠ ESC

/-- A loop with an empty line. -/
theorem Simulates.empty {s : Loop} {executed : List ShellCommand} (i : s.i = 0)
    (str : s.str = holding 0 []) (flag : s.flag = false) (same : s.executed = executed)
    : Simulates s { line := [], executed } :=
  ⟨i, str, flag, same, fun _ member => absurd member List.not_mem_nil⟩

-----------------------------------------------------------------------------------------
-- The keys
-----------------------------------------------------------------------------------------

section Keys

variable {s : Loop} {r : Reference}

theorem Simulates.noNul (simulates : Simulates s r) : 0 ∉ r.line :=
  fun member => (simulates.plain 0 member).1 rfl

/-- The terminator that TAB and ENTER put behind the line was there. -/
theorem Simulates.terminated (simulates : Simulates s r) (inside : r.line.length < SIZE)
    : (s.store s.i 0).str = holding 0 r.line := by
  rw [store_str s (by rwa [simulates.i]), simulates.str, simulates.i, update_holding_nul]

theorem Simulates.typed (simulates : Simulates s r) (inside : r.line.length < SIZE) {rev : UInt8}
    (plain : rev ≠ 0 ∧ rev ≠ ESC)
    : Simulates (s.typed rev) { r with line := r.line ++ [rev] } := by
  have stored : (s.extended rev).str = holding 0 (r.line ++ [rev]) := by
    rw [extended_str (by rwa [simulates.i]), simulates.str, simulates.i, update_holding_end]
  have all : ∀ c ∈ r.line ++ [rev], c ≠ 0 ∧ c ≠ ESC := by
    intro c member
    rcases List.mem_append.mp member with old | new
    · exact simulates.plain c old
    · exact List.mem_singleton.mp new ▸ plain
  have length : s.i + 1 = (r.line ++ [rev]).length := by
    rw [simulates.i, List.length_append, List.length_singleton]
  have flag := (store_flag s s.i rev).trans simulates.flag
  have executed := (store_executed s s.i rev).trans simulates.executed
  rw [typed_eq]
  split
  · rcases escapes_cases (s.extended rev) 0 (s.i + 1) with ⟨kept, -⟩ | ⟨⟨k, found⟩, -⟩
    · exact ⟨kept.i.trans length, kept.str.trans stored, kept.flag.trans flag,
        kept.executed.trans executed, all⟩
    · -- no character of the line starts an escape sequence
      rw [stored, holding, List.getD_eq_getElem?_getD] at found
      cases at' : (r.line ++ [rev])[k]? with
      | none =>
          rw [at'] at found
          cases found
      | some c =>
          rw [at'] at found
          exact ((all c (List.mem_of_getElem? at')).2 found).elim
  · exact ⟨length, stored, flag, executed, all⟩

theorem Simulates.backspace (simulates : Simulates s r) (inside : r.line.length < SIZE)
    : Simulates s.backspace { r with line := r.line.dropLast } := by
  rw [Loop.backspace]
  by_cases empty : s.i = 0
  · have none : r.line = [] := List.length_eq_zero_iff.mp (simulates.i ▸ empty)
    rw [if_pos empty, none]
    exact .empty empty (by rw [simulates.str, none]) simulates.flag simulates.executed
  · rw [if_neg empty]
    obtain ⟨line, c, split⟩ : ∃ line c, r.line = line ++ [c] := by
      have nonempty : r.line ≠ [] := fun none => empty (by rw [simulates.i, none]; rfl)
      exact ⟨_, _, (List.dropLast_append_getLast nonempty).symm⟩
    have length : s.i - 1 = line.length := by
      rw [simulates.i, split, List.length_append, List.length_singleton, Nat.add_sub_cancel]
    have shorter : line.length < SIZE := by
      rw [split, List.length_append] at inside
      exact Nat.lt_of_le_of_lt (Nat.le_add_right _ _) inside
    rw [split, List.dropLast_concat]
    dsimp only
    rw [length]
    refine ⟨store_i _ _ _, ?_, (store_flag _ _ _).trans simulates.flag,
      (store_executed _ _ _).trans simulates.executed, fun d member => ?_⟩
    · rw [store_str _ shorter]
      show Function.update s.str line.length 0 = holding 0 line
      rw [simulates.str, split, update_holding_last]
    · exact simulates.plain d (split ▸ List.mem_append_left [c] member)

/-- The names that start with the line are the ones it is a prefix of. -/
theorem Simulates.candidates (simulates : Simulates s r) (inside : r.line.length < SIZE)
    : s.candidates = command.filter r.line.isPrefixOf := by
  refine List.filter_congr fun name _ => Bool.eq_iff_iff.mpr ?_
  rw [Loop.starts, simulates.terminated inside, store_i, simulates.i, List.isPrefixOf_iff_prefix]
  exact equalUpTo_iff (holds_holding 0 r.line) simulates.noNul

theorem command_plain : ∀ name ∈ command, ∀ c ∈ name, c ≠ 0 ∧ c ≠ ESC := by decide +kernel

theorem Simulates.tab (simulates : Simulates s r) (inside : r.line.length < SIZE)
    : Simulates s.tab (r.step TAB) := by
  have candidates := simulates.candidates inside
  have terminated := simulates.terminated inside
  have other (many : s.candidates.length ≠ 1) : Simulates s.tab r := by
    have kept := tab_other s many
    exact ⟨kept.i.trans ((store_i s s.i 0).trans simulates.i), kept.str.trans terminated,
      kept.flag.trans ((store_flag s s.i 0).trans simulates.flag),
      kept.executed.trans ((store_executed s s.i 0).trans simulates.executed), simulates.plain⟩
  rw [Reference.step, if_neg (by decide), if_pos rfl]
  split
  · rename_i name unique
    rw [unique] at candidates
    obtain ⟨known, start⟩ := mem_command_of_only unique
    have longer := (List.isPrefixOf_iff_prefix.mp start).length_le
    obtain ⟨i, flag, executed, characters, behind⟩ := tab_unique s candidates
    refine ⟨i, funext fun k => ?_, flag.trans simulates.flag, executed.trans simulates.executed,
      command_plain name known⟩
    rw [holding, List.getD_eq_getElem?_getD]
    cases at' : name[k]? with
    | some c => rw [characters k c at', Option.getD_some]
    | none =>
        have outside := List.getElem?_eq_none_iff.mp at'
        rw [behind k outside, terminated, holding,
          List.getD_eq_default _ _ (Nat.le_trans longer outside), Option.getD_none]
  · rename_i several
    refine other fun one => ?_
    rw [candidates] at one
    obtain ⟨name, only⟩ := List.length_eq_one_iff.mp one
    exact several name only

theorem Simulates.enter (simulates : Simulates s r) (inside : r.line.length < SIZE)
    : Simulates s.enter (r.step ENTER) := by
  have terminated := simulates.terminated inside
  have names : ∀ entry ∈ shellCommand,
      (s.store s.i 0).names entry = true ↔ entry.name = r.line := by
    intro entry member
    rw [Loop.names, terminated]
    exact equal_iff (holds_holding 0 r.line) (shellCommand_plain entry member) simulates.noNul
  rw [Reference.step, if_pos rfl]
  cases found : shellCommand.find? fun entry => entry.name = r.line with
  | some entry =>
      have member := List.mem_of_find?_eq_some found
      have named := (names entry member).mpr (by simpa using List.find?_some found)
      obtain ⟨executed, i, flag, str⟩ := enter_named (by rwa [simulates.i]) member named
      exact .empty i str flag (by rw [executed, simulates.executed]; rfl)
  | none =>
      have unnamed : ∀ entry ∈ shellCommand, (s.store s.i 0).names entry = false := by
        intro entry member
        rw [Bool.eq_false_iff, Ne, names entry member]
        simpa using List.find?_eq_none.mp found entry member
      obtain ⟨executed, i, flag, str⟩ := enter_unnamed simulates.flag unnamed
      refine .empty i ?_ flag ?_
      · rw [str]
        split
        · rename_i empty
          have none : r.line = [] := List.length_eq_zero_iff.mp (simulates.i ▸ empty)
          rw [terminated, none]
        · rfl
      · rw [executed, simulates.executed]
        exact (List.append_nil _).symm

end Keys

-----------------------------------------------------------------------------------------
-- Runs
-----------------------------------------------------------------------------------------

/-- A pass and a step of the reference, for each key. -/
theorem Simulates.pass {s : Loop} {r : Reference} (simulates : Simulates s r)
    (inside : r.line.length < SIZE) {rev : UInt8} (key : Key rev)
    : Simulates (s.pass rev) (r.step rev) := by
  by_cases tab : rev = TAB
  · subst tab
    exact simulates.tab inside
  by_cases backspace : rev = BACKSPACE
  · subst backspace
    exact simulates.backspace inside
  by_cases enter : rev = ENTER
  · subst enter
    exact simulates.enter inside
  · have plain : rev ≠ 0 ∧ rev ≠ ESC := by
      rcases key with ⟨low, -⟩ | special
      · constructor <;> rintro rfl <;> exact absurd low (by decide)
      · tauto
    rw [Loop.pass, if_pos ⟨enter, tab, backspace⟩, Reference.step, if_neg enter, if_neg tab,
      if_neg backspace]
    exact simulates.typed inside plain

theorem run_simulates {received : List UInt8} (keys : ∀ rev ∈ received, Key rev)
    (fits
      : ∀ before after, received = before ++ after → (Reference.run before).line.length < SIZE)
    : Simulates (received.foldl Loop.pass .start) (Reference.run received) := by
  induction received using List.reverseRecOn with
  | nil => exact .empty rfl rfl rfl rfl
  | append_singleton received rev ih =>
      have before := ih (fun c member => keys c (List.mem_append_left [rev] member))
        fun before after split => fits before (after ++ [rev]) (by rw [split, List.append_assoc])
      rw [Reference.run, List.foldl_append, List.foldl_append]
      exact before.pass (fits received [rev] rfl)
        (keys rev (List.mem_append_right received (List.mem_singleton_self rev)))

/-- Few keys do not fill the line. -/
theorem run_length (received : List UInt8)
    : (Reference.run received).line.length ≤ 13 + received.length := by
  induction received using List.reverseRecOn with
  | nil => exact Nat.zero_le _
  | append_singleton received rev ih =>
      rw [Reference.run, List.foldl_append, List.length_append, List.length_singleton]
      change ((Reference.run received).step rev).line.length ≤ _
      rw [Reference.step]
      split_ifs
      · exact Nat.zero_le _
      · split
        · rename_i name unique
          have short := command_lengths name (mem_command_of_only unique).1
          exact Nat.le_trans short (Nat.le_add_right _ _)
        · exact Nat.le_succ_of_le ih
      · rw [List.length_dropLast]
        omega
      · rw [List.length_append, List.length_singleton, ← Nat.add_assoc]
        exact Nat.succ_le_succ ih

/-- For keys of the editor with which the line never has SIZE characters, the shell executes the
commands of the reference.
-/
theorem shellLoop_executes (received : List UInt8) (keys : ∀ rev ∈ received, Key rev)
    (fits
      : ∀ before after, received = before ++ after → (Reference.run before).line.length < SIZE)
    : (shellLoop [] received).executed = (Reference.run received).executed :=
  (run_simulates keys fits).executed

theorem shellLoop_executes_edited
    : (shellLoop [] (text "led_red_b\t\rtimerx\x7f\r")).executed
      = (Reference.run (text "led_red_b\t\rtimerx\x7f\r")).executed :=
  shellLoop_executes (text "led_red_b\t\rtimerx\x7f\r") (by decide +kernel)
    fun before after split => by
      have most := run_length before
      have size : (text "led_red_b\t\rtimerx\x7f\r").length = 19 := by decide
      have whole := congrArg List.length split
      rw [List.length_append, size] at whole
      exact Nat.lt_of_le_of_lt (show _ ≤ 32 by omega) (by decide)

end At32.Shell
