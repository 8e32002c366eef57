import At32.Lib.Replay
import At32.Shell.LineEditor

/-! The indices of the shell: when all of them are inside their arrays. -/

namespace At32.Shell

open CString (equal)

def Action.Inside : Action → Prop
  | .index place n => n < place.size
  | _ => True

/-- All indices so far are inside their arrays. -/
def Loop.Safe (s : Loop) : Prop := ∀ action ∈ s.log, action.Inside

/-- What a pass needs for its indices: room behind the line but for BACKSPACE, on ENTER the name
of a command in the line, and no start of an escape sequence at the end of a full line.
-/
def Loop.Room (s : Loop) (rev : UInt8) : Prop :=
  if rev = BACKSPACE then True
  else if rev = TAB then s.i < SIZE
  else if rev = ENTER then
    s.i < SIZE
    ∧ ∃ entry ∈ shellCommand, equal 0 (Function.update s.str s.i 0) entry.name 0 = true
  else
    s.i < SIZE
    ∧ ¬(s.i + 1 = SIZE ∧ (rev = ESC ∨ rev = BRACKET ∧ s.str (SIZE - 2) = ESC))

/-- The states between passes: no flag, no more than SIZE characters, a terminator in the last
place unless the line is full, and no escape sequence inside the line.
-/
structure Loop.Regular (s : Loop) : Prop where
  flag : s.flag = false
  bounded : s.i ≤ SIZE
  last : s.i < SIZE → s.str (SIZE - 1) = 0
  searched : 2 < s.i → ∀ m, m + 1 < s.i → ¬(s.str m = ESC ∧ s.str (m + 1) = BRACKET)

-----------------------------------------------------------------------------------------
-- Single actions
-----------------------------------------------------------------------------------------

theorem safe_act (s : Loop) (action : Action) : (s.act action).Safe ↔ s.Safe ∧ action.Inside := by
  constructor
  · intro safe
    exact ⟨fun other member => safe other (List.mem_append_left [action] member),
      safe action (List.mem_append_right s.log (List.mem_singleton_self action))⟩
  · rintro ⟨safe, inside⟩ other member
    rcases List.mem_append.mp member with old | new
    · exact safe other old
    · exact List.mem_singleton.mp new ▸ inside

theorem safe_index (s : Loop) (place : Place) (n : Nat)
    : (s.index place n).Safe ↔ s.Safe ∧ n < place.size :=
  safe_act s _

theorem safe_index_inside (s : Loop) {place : Place} {n : Nat} (inside : n < place.size)
    : (s.index place n).Safe ↔ s.Safe :=
  (safe_index s place n).trans (and_iff_left inside)

theorem safe_print (s : Loop) (text : List UInt8) : (s.print text).Safe ↔ s.Safe :=
  (safe_act s _).trans (and_iff_left trivial)

theorem safe_store (s : Loop) (n : Nat) (c : UInt8)
    : (s.store n c).Safe ↔ s.Safe ∧ n < SIZE := by
  rw [← show (s.index .str n).Safe ↔ s.Safe ∧ n < SIZE from safe_index s .str n, Loop.store]
  split <;> rfl

-----------------------------------------------------------------------------------------
-- Escape sequences
-----------------------------------------------------------------------------------------

/-- The search takes back no index, by induction on the characters left. -/
theorem safe_of_escapes {s : Loop} {m left : Nat} (safe : (s.escapes m left).Safe) : s.Safe := by
  induction left generalizing s m with
  | zero => exact safe
  | succ left ih =>
      by_cases first : s.str m = ESC
      · have half (safe : ((s.index .str m).index .str (m + 1)).Safe) : s.Safe :=
          ((safe_index s _ _).mp ((safe_index _ _ _).mp safe).1).1
        by_cases second : s.str (m + 1) = BRACKET
        · rw [escapes_found first second] at safe
          exact half ((safe_index _ _ _).mp ((safe_print _ _).mp safe)).1
        · rw [escapes_half first second] at safe
          exact half (ih safe)
      · rw [escapes_other first] at safe
        exact ((safe_index s _ _).mp (ih safe)).1

/-- The search stays inside str where the line does not fill it, by induction on the characters
left.
-/
theorem safe_escapes {s : Loop} {m left : Nat} (below : m + left < SIZE)
    (last : s.str (SIZE - 1) ≠ BRACKET)
    : (s.escapes m left).Safe ↔ s.Safe := by
  have size : SIZE = 4096 := rfl
  induction left generalizing s m with
  | zero => exact Iff.rfl
  | succ left ih =>
      have here : (s.index .str m).Safe ↔ s.Safe :=
        safe_index_inside s (show m < SIZE by omega)
      by_cases first : s.str m = ESC
      · have half : ((s.index .str m).index .str (m + 1)).Safe ↔ s.Safe :=
          (safe_index_inside _ (show m + 1 < SIZE by omega)).trans here
        by_cases second : s.str (m + 1) = BRACKET
        · have inner : m + 1 ≠ SIZE - 1 := fun same => last (same ▸ second)
          rw [escapes_found first second]
          exact (safe_print _ _).trans
            ((safe_index_inside _ (show m + 2 < SIZE by omega)).trans half)
        · rw [escapes_half first second]
          exact (@ih ((s.index .str m).index .str (m + 1)) (m + 1) (by omega) last).trans half
      · rw [escapes_other first]
        exact (@ih (s.index .str m) (m + 1) (by omega) last).trans here

/-- The search at the last place of str leaves it exactly behind an ESC. -/
theorem safe_escapes_last {s : Loop} {m : Nat} (full : m + 1 = SIZE)
    : (s.escapes m 1).Safe ↔ s.Safe ∧ s.str m ≠ ESC := by
  have here : (s.index .str m).Safe ↔ s.Safe :=
    safe_index_inside s (show m < SIZE by omega)
  by_cases first : s.str m = ESC
  · have outside : ¬((s.index .str m).index .str (m + 1)).Safe := fun safe =>
      absurd ((safe_index _ .str (m + 1)).mp safe).2 (show ¬m + 1 < SIZE by omega)
    refine iff_of_false ?_ (fun both => both.2 first)
    by_cases second : s.str (m + 1) = BRACKET
    · rw [escapes_found first second]
      exact fun safe => outside ((safe_index _ _ _).mp ((safe_print _ _).mp safe)).1
    · rw [escapes_half first second]
      exact outside
  · rw [escapes_other first]
    exact here.trans (and_iff_left first).symm

/-- In a full line without a sequence before its end, the search leaves str exactly behind a start
of one at the end; by induction on the characters before the last two.
-/
theorem safe_escapes_full {s : Loop} {m left : Nat} (full : m + left + 2 = SIZE)
    (none : ∀ k, m ≤ k → k < m + left → ¬(s.str k = ESC ∧ s.str (k + 1) = BRACKET))
    : (s.escapes m (left + 2)).Safe
      ↔ s.Safe
        ∧ ¬(s.str (SIZE - 1) = ESC ∨ s.str (SIZE - 1) = BRACKET ∧ s.str (SIZE - 2) = ESC) := by
  have size : SIZE = 4096 := rfl
  have here : (s.index .str m).Safe ↔ s.Safe :=
    safe_index_inside s (show m < SIZE by omega)
  have half : ((s.index .str m).index .str (m + 1)).Safe ↔ s.Safe :=
    (safe_index_inside _ (show m + 1 < SIZE by omega)).trans here
  induction left generalizing s m with
  | zero =>
      obtain rfl : m = SIZE - 2 := by omega
      rw [show SIZE - 1 = SIZE - 2 + 1 from rfl]
      by_cases first : s.str (SIZE - 2) = ESC
      · by_cases second : s.str (SIZE - 2 + 1) = BRACKET
        · rw [escapes_found first second]
          refine iff_of_false (fun safe => ?_) (fun both => both.2 (.inr ⟨second, first⟩))
          have outside := ((safe_index _ _ _).mp ((safe_print _ _).mp safe)).2
          exact Nat.lt_irrefl SIZE outside
        · rw [escapes_half first second]
          refine (safe_escapes_last (by omega)).trans (and_congr half (not_congr ?_))
          exact ⟨.inl, fun either => either.elim id fun both => (second both.1).elim⟩
      · rw [escapes_other first]
        refine (safe_escapes_last (by omega)).trans (and_congr here (not_congr ?_))
        exact ⟨.inl, fun either => either.elim id fun both => (first both.2).elim⟩
  | succ left ih =>
      have later {t : Loop} (same : t.str = s.str) (safe : t.Safe ↔ s.Safe)
          : (t.escapes (m + 1) (left + 2)).Safe
            ↔ s.Safe ∧ ¬(s.str (SIZE - 1) = ESC
              ∨ s.str (SIZE - 1) = BRACKET ∧ s.str (SIZE - 2) = ESC) := by
        have rest := @ih t (m + 1) (by omega)
          (fun k behind below => same ▸ none k (by omega) (by omega))
          (safe_index_inside t (show m + 1 < SIZE by omega))
          ((safe_index_inside _ (show m + 1 + 1 < SIZE by omega)).trans
            (safe_index_inside t (show m + 1 < SIZE by omega)))
        rwa [same, safe] at rest
      by_cases first : s.str m = ESC
      · have second : s.str (m + 1) ≠ BRACKET := fun second =>
          none m (Nat.le_refl m) (by omega) ⟨first, second⟩
        rw [escapes_half first second]
        exact later rfl half
      · rw [escapes_other first]
        exact later rfl here

/-- A character is stored and searched inside str exactly where there is room for it. -/
theorem safe_typed {s : Loop} (regular : s.Regular) (rev : UInt8)
    : (s.typed rev).Safe
      ↔ s.Safe
        ∧ s.i < SIZE
        ∧ ¬(s.i + 1 = SIZE ∧ (rev = ESC ∨ rev = BRACKET ∧ s.str (SIZE - 2) = ESC)) := by
  have size : SIZE = 4096 := rfl
  have stored : (s.extended rev).Safe ↔ s.Safe ∧ s.i < SIZE := safe_store s s.i rev
  rw [typed_eq]
  by_cases inside : s.i < SIZE
  · have str := extended_str inside rev
    by_cases full : s.i + 1 = SIZE
    · have none : ∀ k, 0 ≤ k → k < 0 + (SIZE - 2)
          → ¬((s.extended rev).str k = ESC ∧ (s.extended rev).str (k + 1) = BRACKET) := by
        intro k _ below
        rw [str, Function.update_of_ne (by omega), Function.update_of_ne (by omega)]
        exact regular.searched (by omega) k (by omega)
      have search := safe_escapes_full (show 0 + (SIZE - 2) + 2 = SIZE from rfl) none
      have typed : (s.extended rev).str (SIZE - 1) = rev := by
        rw [str, show SIZE - 1 = s.i by omega, Function.update_self]
      have before : (s.extended rev).str (SIZE - 2) = s.str (SIZE - 2) := by
        rw [str, Function.update_of_ne (by omega)]
      rw [typed, before, stored, and_assoc] at search
      rw [if_pos (show s.i + 1 > 2 by omega), full]
      exact search.trans (by rw [eq_self, true_and])
    · have room : ¬(s.i + 1 = SIZE ∧ (rev = ESC ∨ rev = BRACKET ∧ s.str (SIZE - 2) = ESC)) :=
        fun both => full both.1
      rw [and_iff_left room, ← stored]
      split
      · refine safe_escapes (by omega) ?_
        rw [str, Function.update_of_ne (by omega), regular.last inside]
        decide
      · rfl
  · refine iff_of_false (fun safe => inside ?_) (fun both => inside both.2.1)
    split at safe
    · exact (stored.mp (safe_of_escapes safe)).2
    · exact (stored.mp safe).2

-----------------------------------------------------------------------------------------
-- The other keys
-----------------------------------------------------------------------------------------

theorem safe_backspace {s : Loop} (regular : s.Regular) : s.backspace.Safe ↔ s.Safe := by
  rw [Loop.backspace]
  split
  · rfl
  · rename_i typed
    have inside : s.i - 1 < SIZE :=
      Nat.lt_of_lt_of_le (Nat.sub_one_lt typed) regular.bounded
    exact (safe_store _ _ _).trans (and_iff_left inside)

/-- By induction on the names left, each of which takes a place of temp_command at most. -/
theorem safe_matching {s : Loop} {j k : Nat} {names : List (List UInt8)}
    (inside : j + names.length ≤ COM_SIZE) (fewer : k ≤ j)
    : (s.matching j k names).1.Safe ↔ s.Safe := by
  induction names generalizing s j k with
  | nil => rfl
  | cons name rest ih =>
      rw [List.length_cons] at inside
      have first : (s.index .command j).Safe ↔ s.Safe :=
        safe_index_inside s (show j < COM_SIZE by omega)
      by_cases start : s.starts name = true
      · have stored : (s.stored j k name).Safe ↔ s.Safe :=
          (safe_index_inside _ (show j < COM_SIZE by omega)).trans
            ((safe_index_inside _ (show k < COM_SIZE by omega)).trans first)
        rw [matching_start start]
        exact (ih (by omega) (by omega)).trans stored
      · rw [matching_other start]
        exact (ih (by omega) (by omega)).trans first

/-- By induction on what is left of the name. -/
theorem safe_copyCommand {s : Loop} {place i : Nat} {rest : List UInt8}
    (known : place < COM_SIZE) (fits : i + rest.length ≤ SIZE)
    : (s.copyCommand place i rest).Safe ↔ s.Safe := by
  induction rest generalizing s i with
  | nil => exact safe_index_inside s known
  | cons c rest ih =>
      rw [List.length_cons] at fits
      have copied : (s.copied place i c rest).Safe ↔ s.Safe :=
        (safe_store _ i c).trans ((and_iff_left (show i < SIZE by omega)).trans
          ((safe_index_inside _ known).trans (safe_index_inside s known)))
      rw [copyCommand_cons]
      exact (ih (by omega)).trans copied

theorem safe_listed {s : Loop} {k : Nat} (known : k ≤ COM_SIZE)
    : (s.listed k).Safe ↔ s.Safe := by
  have names {t : Loop} : (t.printNames k).Safe ↔ t.Safe := by
    induction k generalizing t with
    | zero => rfl
    | succ k ih =>
        have first : ((t.index .tempCommand k).print (t.tempCommand k ++ text "\t")).Safe
            ↔ t.Safe :=
          (safe_print _ _).trans (safe_index_inside t (show k < COM_SIZE by omega))
        exact (ih (Nat.le_of_succ_le known)).trans first
  exact (safe_print _ _).trans (names.trans (safe_print s _))

/-- TAB stays inside its arrays exactly if there is room for a terminator. -/
theorem safe_tab (s : Loop) : s.tab.Safe ↔ s.Safe ∧ s.i < SIZE := by
  have searched : ((s.store s.i 0).matching 0 0 command).1.Safe ↔ s.Safe ∧ s.i < SIZE :=
    (safe_matching (by decide) (Nat.le_refl 0)).trans (safe_store s s.i 0)
  obtain ⟨-, count, -, found⟩ := matching_spec (s.store s.i 0) 0 0 command
  rw [Nat.zero_add] at count
  have few := count ▸ List.length_filter_le (s.store s.i 0).starts command
  rcases pair : (s.store s.i 0).matching 0 0 command with ⟨t, k⟩
  rw [pair] at searched count found few
  refine Iff.trans ?_ searched
  by_cases none : k = 0
  · rw [tab_none (none ▸ pair)]
    exact safe_print _ _
  by_cases one : k = 1
  · subst one
    obtain ⟨name, only⟩ := List.length_eq_one_iff.mp count.symm
    have pointed : t.tempCommand 0 = name := found 0 name (by rw [only]; rfl)
    have fits : 0 + name.length ≤ SIZE := by
      rw [Nat.zero_add]
      exact Nat.le_trans (command_lengths name (mem_command_of_only only).1) (by decide)
    rw [tab_one pair, pointed]
    exact (safe_copyCommand (by decide) fits).trans
      ((safe_print _ _).trans ((safe_index_inside _ (by decide)).trans (safe_print _ _)))
  · rw [tab_several pair none one]
    exact safe_listed few

/-- By induction on the commands left. -/
theorem safe_commands {s : Loop} {j : Nat} {entries : List ShellCommand}
    (inside : j + entries.length ≤ COM_SIZE)
    : (s.commands j entries).1.Safe ↔ s.Safe := by
  induction entries generalizing s j with
  | nil => rfl
  | cons entry rest ih =>
      rw [List.length_cons] at inside
      have place : j < COM_SIZE := by omega
      have first : (s.index .shellCommand j).Safe ↔ s.Safe := safe_index_inside s place
      by_cases named : s.names entry = true
      · have ran : (s.ran j entry).Safe ↔ s.Safe :=
          (safe_act _ _).trans ((and_iff_left trivial).trans
            ((safe_index_inside _ place).trans ((safe_index_inside _ place).trans first)))
        by_cases restart : entry.fp = .reset
        · rw [commands_reset named restart]
          exact (safe_print (s.ran j entry) _).trans ran
        · have answered : ((s.ran j entry).answered j entry.name).Safe ↔ s.Safe :=
            (safe_act _ _).trans ((and_iff_left trivial).trans
              ((safe_index_inside _ place).trans ((safe_print _ _).trans ran)))
          rw [commands_named named restart]
          exact (ih (by omega)).trans answered
      · rw [commands_other named]
        exact (ih (by omega)).trans first

/-- ENTER stays inside its arrays exactly if there is room for a terminator and the line is the
name of a command; else it reads behind the commands.
-/
theorem safe_enter {s : Loop} (down : s.flag = false)
    : s.enter.Safe
      ↔ s.Safe
        ∧ s.i < SIZE
        ∧ ∃ entry ∈ shellCommand, (s.store s.i 0).names entry = true := by
  have searched : ((s.store s.i 0).commands 0 shellCommand).1.Safe ↔ s.Safe ∧ s.i < SIZE :=
    (safe_commands (by decide)).trans (safe_store s s.i 0)
  by_cases some : ∃ entry ∈ shellCommand, (s.store s.i 0).names entry = true
  · obtain ⟨entry, member, named⟩ := some
    have ends := (commands_some 0 member named shellCommand_plain shellCommand_distinct).2
    rcases tried : (s.store s.i 0).commands 0 shellCommand with ⟨t, restarted⟩
    rw [tried] at searched ends
    have kept : s.enter.Safe ↔ t.Safe := by
      rcases ends with ⟨restart, -⟩ | ⟨running, -, -, set⟩
      · obtain rfl : restarted = true := restart
        rw [enter_restarted tried]
      · obtain rfl : restarted = false := running
        rw [enter_set tried set]
        split <;> rfl
    rw [kept, searched]
    exact ⟨fun both => ⟨both.1, both.2, entry, member, named⟩, fun all => ⟨all.1, all.2.1⟩⟩
  · refine iff_of_false (fun safe => ?_) (fun all => some all.2.2)
    have unnamed : ∀ entry ∈ shellCommand, (s.store s.i 0).names entry = false :=
      fun entry member => Bool.eq_false_iff.mpr fun named => some ⟨entry, member, named⟩
    obtain ⟨running, alike⟩ := commands_none 0 unnamed
    rcases tried : (s.store s.i 0).commands 0 shellCommand with ⟨t, restarted⟩
    rw [tried] at running alike
    obtain rfl : restarted = false := running
    have unset : t.flag = false := alike.flag.trans ((store_flag s s.i 0).trans down)
    have refused : t.refused.Safe := by
      rw [enter_unset tried unset] at safe
      split at safe <;> exact safe
    exact Nat.lt_irrefl COM_SIZE ((safe_index _ _ _).mp ((safe_act _ _).mp refused).1).2

-----------------------------------------------------------------------------------------
-- Passes
-----------------------------------------------------------------------------------------

/-- The name of a command in the line, once it has its terminator. -/
theorem named_iff {s : Loop} (inside : s.i < SIZE)
    : (∃ entry ∈ shellCommand, (s.store s.i 0).names entry = true)
      ↔ ∃ entry ∈ shellCommand, equal 0 (Function.update s.str s.i 0) entry.name 0 = true := by
  rw [← store_str s inside]
  rfl

/-- A pass stays inside the arrays exactly where there is room for it. -/
theorem safe_pass {s : Loop} (regular : s.Regular) (safe : s.Safe) (rev : UInt8)
    : (s.pass rev).Safe ↔ s.Room rev := by
  by_cases backspace : rev = BACKSPACE
  · subst backspace
    exact (safe_backspace regular).trans (iff_of_true safe trivial)
  by_cases tab : rev = TAB
  · subst tab
    exact (safe_tab s).trans (and_iff_right safe)
  by_cases enter : rev = ENTER
  · subst enter
    exact (safe_enter regular.flag).trans
      ((and_iff_right safe).trans (and_congr_right named_iff))
  · rw [Loop.pass, if_pos ⟨enter, tab, backspace⟩, Loop.Room, if_neg backspace, if_neg tab,
      if_neg enter]
    exact (safe_typed regular rev).trans (and_iff_right safe)

/-- A loop with an empty line. -/
theorem regular_empty {s : Loop} (flag : s.flag = false) (i : s.i = 0)
    (str : s.str = fun _ => 0)
    : s.Regular where
  flag := flag
  bounded := i ▸ Nat.zero_le SIZE
  last _ := congrFun str _
  searched typed := by
    rw [i] at typed
    exact absurd typed (by decide)

theorem regular_typed {s : Loop} (regular : s.Regular) (inside : s.i < SIZE) (rev : UInt8)
    : (s.typed rev).Regular := by
  have size : SIZE = 4096 := rfl
  have str := extended_str inside rev
  have flag : (s.extended rev).flag = false := (store_flag s s.i rev).trans regular.flag
  have last (room : s.i + 1 < SIZE) : (s.extended rev).str (SIZE - 1) = 0 := by
    rw [str, Function.update_of_ne (by omega), regular.last inside]
  rw [typed_eq]
  split
  · rcases escapes_cases (s.extended rev) 0 (s.i + 1) with ⟨kept, none⟩ | ⟨-, cleared⟩
    · have i : ((s.extended rev).escapes 0 (s.i + 1)).i = s.i + 1 := kept.i
      exact
        {
          flag := kept.flag.trans flag
          bounded := by
            rw [i]
            exact inside
          last := fun room => by
            rw [i] at room
            rw [kept.str, last room]
          searched := fun _ m below => by
            rw [i] at below
            rw [kept.str]
            exact none m (Nat.zero_le m) (by omega)
        }
    · exact regular_empty (cleared.flag.trans flag) cleared.i cleared.str
  · rename_i short
    exact
      {
        flag := flag
        bounded := inside
        last := last
        searched := fun long => (short long).elim
      }

/-- A terminator behind the line, as BACKSPACE and TAB leave it. -/
theorem regular_terminated {s t : Loop} (regular : s.Regular) (inside : t.i < SIZE)
    (shorter : t.i ≤ s.i ∧ s.i ≤ t.i + 1) (flag : t.flag = false)
    (str : t.str = Function.update s.str t.i 0)
    : t.Regular := by
  have size : SIZE = 4096 := rfl
  have bounded := regular.bounded
  exact
    {
      flag := flag
      bounded := Nat.le_of_lt inside
      last := fun _ => by
        rw [str, Function.update_apply]
        split
        · rfl
        · exact regular.last (by omega)
      searched := fun long m below => by
        rw [str, Function.update_of_ne (by omega), Function.update_of_ne (by omega)]
        exact regular.searched (by omega) m (by omega)
    }

theorem regular_backspace {s : Loop} (regular : s.Regular) : s.backspace.Regular := by
  rw [Loop.backspace]
  split
  · exact regular
  · rename_i typed
    have inside : s.i - 1 < SIZE :=
      Nat.lt_of_lt_of_le (Nat.sub_one_lt typed) regular.bounded
    have i : (Loop.store { s with i := s.i - 1 } (s.i - 1) 0).i = s.i - 1 := store_i _ _ _
    change (Loop.store { s with i := s.i - 1 } (s.i - 1) 0).Regular
    refine regular_terminated regular (by rwa [i]) (by rw [i]; omega) ?_ ?_
    · exact (store_flag _ _ _).trans regular.flag
    · rw [i]
      exact store_str _ inside 0

theorem regular_tab {s : Loop} (regular : s.Regular) (inside : s.i < SIZE) : s.tab.Regular := by
  have size : SIZE = 4096 := rfl
  by_cases one : s.candidates.length = 1
  · obtain ⟨name, unique⟩ := List.length_eq_one_iff.mp one
    have ⟨member, _⟩ := mem_command_of_only unique
    have short := command_lengths name member
    obtain ⟨i, flag, -, characters, behind⟩ := tab_unique s unique
    exact
      {
        flag := flag.trans regular.flag
        bounded := by
          rw [i]
          omega
        last := fun _ => by
          rw [behind _ (by omega), store_str s inside, Function.update_apply]
          split
          · rfl
          · exact regular.last inside
        searched := fun _ m below both => by
          rw [i] at below
          have here := List.getElem?_eq_getElem (Nat.lt_of_succ_lt below)
          rw [characters m _ here] at both
          exact (command_plain name member _ (List.getElem_mem _)).2 both.1
      }
  · have kept := tab_other s one
    have i : s.tab.i = s.i := kept.i.trans (store_i s s.i 0)
    refine regular_terminated regular (by rwa [i]) (by rw [i]; omega) ?_ ?_
    · exact kept.flag.trans ((store_flag s s.i 0).trans regular.flag)
    · rw [kept.str, store_str s inside, i]

/-- A pass with room for it keeps the states regular. -/
theorem regular_pass {s : Loop} (regular : s.Regular) {rev : UInt8} (room : s.Room rev)
    : (s.pass rev).Regular := by
  by_cases backspace : rev = BACKSPACE
  · subst backspace
    exact regular_backspace regular
  by_cases tab : rev = TAB
  · subst tab
    exact regular_tab regular room
  by_cases enter : rev = ENTER
  · subst enter
    obtain ⟨inside, named⟩ := room
    obtain ⟨entry, member, named⟩ := (named_iff inside).mpr named
    obtain ⟨-, i, flag, str⟩ := enter_named inside member named
    exact regular_empty flag i str
  · rw [Loop.Room, if_neg backspace, if_neg tab, if_neg enter] at room
    rw [Loop.pass, if_pos ⟨enter, tab, backspace⟩]
    exact regular_typed regular room.1 rev

-----------------------------------------------------------------------------------------
-- Runs
-----------------------------------------------------------------------------------------

theorem safe_start : Loop.start.Safe :=
  fun _ member => List.mem_singleton.mp member ▸ trivial

/-- All indices of the shell are inside their arrays, up to any character received, exactly if
each character finds room for it, or the shell exits at once.
-/
theorem shellLoop_safe_iff (uartRxBuf received : List UInt8)
    : (∀ before after, received = before ++ after → (shellLoop uartRxBuf before).Safe)
      ↔ exits uartRxBuf = true
        ∨ ∀ before rev after,
            received = before ++ rev :: after
            → (shellLoop uartRxBuf before).Room rev := by
  by_cases leaves : exits uartRxBuf = true
  · refine iff_of_true (fun before _ _ => ?_) (.inl leaves)
    rw [shellLoop, if_pos leaves]
    exact (safe_print _ _).mpr safe_start
  · rw [or_iff_right leaves]
    simp only [shellLoop, if_neg leaves]
    exact @Replay.every_iff_steps _ _ Loop.pass Loop.Regular Loop.Safe Loop.Room
      (fun s rev regular safe => safe_pass regular safe rev)
      (fun s rev regular room => regular_pass regular room) _ (regular_empty rfl rfl rfl)
      safe_start received

/-- A single ENTER reads behind the commands. -/
theorem shellLoop_outside_enter : ¬(shellLoop [] [ENTER]).Safe :=
  fun safe => Nat.lt_irrefl COM_SIZE (safe (.index .shellCommand COM_SIZE) (by decide))

end At32.Shell
