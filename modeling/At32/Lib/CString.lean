import Mathlib.Data.List.GetD
import Mathlib.Data.List.Infix
import Mathlib.Logic.Function.Basic
import Mathlib.Tactic.Common

/-! Strings in a memory that end at a terminator, and their comparison with a text. -/

namespace CString

variable {α : Type*} {nul : α} {memory : Nat → α}

/-- The memory from a place on holds a text and a terminator behind it. -/
def Holds (nul : α) (memory : Nat → α) (place : Nat) (line : List α) : Prop :=
  ∀ k ≤ line.length, memory (place + k) = line.getD k nul

/-- A memory that holds a text from its first place on, and else only terminators. -/
def holding (nul : α) (line : List α) : Nat → α := fun k => line.getD k nul

theorem holds_holding (nul : α) (line : List α) : Holds nul (holding nul line) 0 line :=
  fun k _ => by rw [Nat.zero_add]; rfl

theorem Holds.head {place : Nat} {line : List α} (holds : Holds nul memory place line)
    : memory place = line.getD 0 nul :=
  holds 0 (Nat.zero_le _)

theorem Holds.tail {place : Nat} {c : α} {rest : List α}
    (holds : Holds nul memory place (c :: rest))
    : Holds nul memory (place + 1) rest := by
  intro k inside
  have next := holds (k + 1) (Nat.succ_le_succ inside)
  rwa [List.getD_cons_succ, Nat.add_comm k, ← Nat.add_assoc] at next

-----------------------------------------------------------------------------------------
-- Comparisons
-----------------------------------------------------------------------------------------

section Comparisons

variable [DecidableEq α]

/-- Whether strcmp of a text and the string at a place is 0. -/
def equal (nul : α) (memory : Nat → α) : List α → Nat → Bool
  | [], place => memory place = nul
  | c :: rest, place => memory place = c && equal nul memory rest (place + 1)

/-- Whether strncmp of a text and the string at a place, for a number of characters, is 0. -/
def equalUpTo (nul : α) (memory : Nat → α) : List α → Nat → Nat → Bool
  | _, _, 0 => true
  | [], place, _ + 1 => memory place = nul
  | c :: rest, place, n + 1 => memory place = c && equalUpTo nul memory rest (place + 1) n

/-- strcmp finds the text that the memory holds; by induction on the text. -/
theorem equal_iff {text line : List α} {place : Nat} (holds : Holds nul memory place line)
    (plainText : nul ∉ text) (plainLine : nul ∉ line)
    : equal nul memory text place = true ↔ text = line := by
  induction text generalizing line place with
  | nil =>
      rw [equal, holds.head, decide_eq_true_iff]
      cases line with
      | nil => exact ⟨fun _ => rfl, fun _ => rfl⟩
      | cons c rest =>
          refine ⟨fun same => (plainLine ?_).elim, fun same => nomatch same⟩
          rw [← same]
          exact List.mem_cons_self
  | cons c rest ih =>
      rw [equal, holds.head, Bool.and_eq_true, decide_eq_true_iff]
      cases line with
      | nil =>
          refine ⟨fun both => (plainText ?_).elim, fun same => nomatch same⟩
          rw [← both.1]
          exact List.mem_cons_self
      | cons d later =>
          rw [ih holds.tail (mt (List.mem_cons_of_mem c) plainText)
            (mt (List.mem_cons_of_mem d) plainLine), List.getD_cons_zero, List.cons.injEq,
            eq_comm]

/-- strcmp finds one text only; by induction on it. -/
theorem equal_unique {left right : List α} {place : Nat}
    (first : equal nul memory left place = true) (second : equal nul memory right place = true)
    (plainLeft : nul ∉ left) (plainRight : nul ∉ right)
    : left = right := by
  induction left generalizing right place with
  | nil =>
      cases right with
      | nil => rfl
      | cons d later =>
          rw [equal, decide_eq_true_iff] at first
          rw [equal, Bool.and_eq_true, decide_eq_true_iff] at second
          exact (plainRight (first ▸ second.1 ▸ List.mem_cons_self)).elim
  | cons c rest ih =>
      rw [equal, Bool.and_eq_true, decide_eq_true_iff] at first
      cases right with
      | nil =>
          rw [equal, decide_eq_true_iff] at second
          exact (plainLeft (second ▸ first.1 ▸ List.mem_cons_self)).elim
      | cons d later =>
          rw [equal, Bool.and_eq_true, decide_eq_true_iff] at second
          rw [← first.1, ← second.1, ih first.2 second.2
            (mt (List.mem_cons_of_mem c) plainLeft) (mt (List.mem_cons_of_mem d) plainRight)]

/-- strncmp for the length of the text that the memory holds finds what it is the start of; by
induction on that text.
-/
theorem equalUpTo_iff {text line : List α} {place : Nat} (holds : Holds nul memory place line)
    (plainLine : nul ∉ line)
    : equalUpTo nul memory text place line.length = true ↔ line <+: text := by
  induction line generalizing text place with
  | nil =>
      rw [List.length_nil, equalUpTo]
      exact ⟨fun _ => List.nil_prefix, fun _ => rfl⟩
  | cons c rest ih =>
      cases text with
      | nil =>
          rw [List.length_cons, equalUpTo, holds.head, decide_eq_true_iff]
          refine ⟨fun same => (plainLine ?_).elim, fun start => ?_⟩
          · rw [← same]
            exact List.mem_cons_self
          · exact nomatch List.prefix_nil.mp start
      | cons d later =>
          rw [List.length_cons, equalUpTo, holds.head, Bool.and_eq_true, decide_eq_true_iff,
            ih holds.tail (mt (List.mem_cons_of_mem c) plainLine), List.getD_cons_zero,
            List.cons_prefix_cons]

end Comparisons

-----------------------------------------------------------------------------------------
-- The text of an array
-----------------------------------------------------------------------------------------

section Arrays

variable [DecidableEq α]

/-- The text in front of the first terminator, if there is one. -/
def text? (nul : α) : List α → Option (List α)
  | [] => none
  | c :: rest => if c = nul then some [] else (text? nul rest).map (c :: ·)

/-- A text with a terminator behind it; by induction on the text. -/
theorem text?_append {line : List α} (plain : nul ∉ line) (rest : List α)
    : text? nul (line ++ nul :: rest) = some line := by
  induction line with
  | nil => exact if_pos rfl
  | cons c later ih =>
      obtain ⟨other, plain⟩ := not_or.mp (mt List.mem_cons.mpr plain)
      rw [List.cons_append, text?, if_neg (Ne.symm other), ih plain, Option.map_some]

end Arrays

-----------------------------------------------------------------------------------------
-- Changes of the text
-----------------------------------------------------------------------------------------

/-- A character at the end. -/
theorem update_holding_end (line : List α) (c : α)
    : Function.update (holding nul line) line.length c = holding nul (line ++ [c]) := by
  funext k
  rw [Function.update_apply, holding, holding]
  rcases Nat.lt_trichotomy k line.length with before | rfl | behind
  · rw [if_neg (Nat.ne_of_lt before), List.getD_append _ _ _ _ before]
  · rw [if_pos rfl, List.getD_append_right _ _ _ _ (Nat.le_refl _), Nat.sub_self,
      List.getD_cons_zero]
  · rw [if_neg (Nat.ne_of_gt behind), List.getD_eq_default _ _ (Nat.le_of_lt behind),
      List.getD_eq_default]
    rw [List.length_append, List.length_singleton]
    exact behind

/-- A terminator at the end changes nothing. -/
theorem update_holding_nul (line : List α)
    : Function.update (holding nul line) line.length nul = holding nul line := by
  funext k
  rw [Function.update_apply]
  split
  · rename_i same
    rw [same, holding, List.getD_eq_default _ _ (Nat.le_refl _)]
  · rfl

/-- A terminator in place of the last character. -/
theorem update_holding_last (line : List α) (c : α)
    : Function.update (holding nul (line ++ [c])) line.length nul = holding nul line := by
  rw [← update_holding_end, Function.update_idem, update_holding_nul]

end CString
