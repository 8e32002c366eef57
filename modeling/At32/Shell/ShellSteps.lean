import At32.Shell.ShellLoop

/-! What each part of a pass of the shell does to the line, and what it executes. -/

namespace At32.Shell

open CString (equal equalUpTo equal_unique)

/-- A part of a pass that leaves the line, the flag, and the commands executed. -/
structure Alike (s t : Loop) : Prop where
  str : t.str = s.str
  i : t.i = s.i
  flag : t.flag = s.flag
  executed : t.executed = s.executed

theorem Alike.refl (s : Loop) : Alike s s := ⟨rfl, rfl, rfl, rfl⟩

theorem Alike.trans {s t u : Loop} (first : Alike s t) (second : Alike t u) : Alike s u :=
  ⟨second.str.trans first.str, second.i.trans first.i, second.flag.trans first.flag,
    second.executed.trans first.executed⟩

/-- A part of a pass that leaves an empty line, the flag, and the commands executed. -/
structure Cleared (s t : Loop) : Prop where
  str : t.str = fun _ => 0
  i : t.i = 0
  flag : t.flag = s.flag
  executed : t.executed = s.executed

theorem Alike.cleared {s t u : Loop} (first : Alike s t) (second : Cleared t u) : Cleared s u :=
  ⟨second.str, second.i, second.flag.trans first.flag, second.executed.trans first.executed⟩

-----------------------------------------------------------------------------------------
-- Single actions
-----------------------------------------------------------------------------------------

theorem executed_act (s : Loop) (action : Action)
    : (s.act action).executed = s.executed ++ action.executed?.toList := by
  rw [Loop.executed, Loop.act, List.filterMap_append]
  cases action <;> rfl

theorem alike_act (s : Loop) {action : Action} (silent : action.executed? = none)
    : Alike s (s.act action) :=
  ⟨rfl, rfl, rfl, by rw [executed_act, silent, Option.toList_none, List.append_nil]⟩

theorem alike_index (s : Loop) (place : Place) (n : Nat) : Alike s (s.index place n) :=
  alike_act s rfl

theorem alike_print (s : Loop) (text : List UInt8) : Alike s (s.print text) := alike_act s rfl

theorem store_str (s : Loop) {n : Nat} (inside : n < SIZE) (c : UInt8)
    : (s.store n c).str = Function.update s.str n c := by
  rw [Loop.store, if_pos inside]
  rfl

theorem store_i (s : Loop) (n : Nat) (c : UInt8) : (s.store n c).i = s.i := by
  rw [Loop.store]
  split <;> rfl

theorem store_flag (s : Loop) (n : Nat) (c : UInt8) : (s.store n c).flag = s.flag := by
  rw [Loop.store]
  split <;> rfl

theorem store_executed (s : Loop) (n : Nat) (c : UInt8)
    : (s.store n c).executed = s.executed := by
  rw [← (alike_index s .str n).executed, Loop.store]
  split <;> rfl

-----------------------------------------------------------------------------------------
-- Characters
-----------------------------------------------------------------------------------------

theorem escapes_found {s : Loop} {m : Nat} (first : s.str m = ESC)
    (second : s.str (m + 1) = BRACKET) (left : Nat)
    : s.escapes m (left + 1)
      = ((((s.index .str m).index .str (m + 1)).index .str (m + 2)).print
          (arrow (s.str (m + 2)))).clear :=
  (if_pos first).trans (if_pos second)

theorem escapes_half {s : Loop} {m : Nat} (first : s.str m = ESC)
    (second : s.str (m + 1) ≠ BRACKET) (left : Nat)
    : s.escapes m (left + 1)
      = ((s.index .str m).index .str (m + 1)).escapes (m + 1) left :=
  (if_pos first).trans (if_neg second)

theorem escapes_other {s : Loop} {m : Nat} (first : s.str m ≠ ESC) (left : Nat)
    : s.escapes m (left + 1) = (s.index .str m).escapes (m + 1) left :=
  if_neg first

/-- The search for escape sequences finds none and leaves the line, or finds one and clears it;
by induction on the characters left.
-/
theorem escapes_cases (s : Loop) (m left : Nat)
    : (Alike s (s.escapes m left)
        ∧ ∀ k, m ≤ k → k < m + left → ¬(s.str k = ESC ∧ s.str (k + 1) = BRACKET))
      ∨ (∃ k, s.str k = ESC) ∧ Cleared s (s.escapes m left) := by
  induction left generalizing s m with
  | zero =>
      exact .inl ⟨.refl s, fun k first below => absurd below (Nat.not_lt.mpr first)⟩
  | succ left ih =>
      -- what is searched behind a place without a sequence
      have next {t : Loop} (same : Alike s t)
          (none : ¬(s.str m = ESC ∧ s.str (m + 1) = BRACKET))
          : (Alike s (t.escapes (m + 1) left)
              ∧ ∀ k, m ≤ k → k < m + (left + 1) → ¬(s.str k = ESC ∧ s.str (k + 1) = BRACKET))
            ∨ (∃ k, s.str k = ESC) ∧ Cleared s (t.escapes (m + 1) left) := by
        have later := ih t (m + 1)
        rw [same.str] at later
        rcases later with ⟨kept, others⟩ | ⟨found, cleared⟩
        · refine .inl ⟨same.trans kept, fun k first below => ?_⟩
          rcases Nat.eq_or_lt_of_le first with rfl | behind
          · exact none
          · exact others k behind (by omega)
        · exact .inr ⟨found, same.cleared cleared⟩
      by_cases first : s.str m = ESC
      · have half := (alike_index s .str m).trans (alike_index _ .str (m + 1))
        by_cases second : s.str (m + 1) = BRACKET
        · rw [escapes_found first second]
          have kept := (half.trans (alike_index _ .str (m + 2))).trans
            (alike_print _ (arrow (s.str (m + 2))))
          exact .inr ⟨⟨m, first⟩, rfl, rfl, kept.flag, kept.executed⟩
        · rw [escapes_half first second]
          exact next half (fun both => second both.2)
      · rw [escapes_other first]
        exact next (alike_index s .str m) (fun both => first both.1)

/-- The line with one more character. -/
def Loop.extended (s : Loop) (rev : UInt8) : Loop := { s.store s.i rev with i := s.i + 1 }

theorem typed_eq (s : Loop) (rev : UInt8)
    : s.typed rev
      = if s.i + 1 > 2 then (s.extended rev).escapes 0 (s.i + 1) else s.extended rev := by
  simp only [Loop.typed, store_i]
  rfl

theorem extended_str {s : Loop} (inside : s.i < SIZE) (rev : UInt8)
    : (s.extended rev).str = Function.update s.str s.i rev :=
  store_str s inside rev

-----------------------------------------------------------------------------------------
-- Completion
-----------------------------------------------------------------------------------------

/-- Whether the line is the start of a name. -/
def Loop.starts (s : Loop) (name : List UInt8) : Bool := equalUpTo 0 s.str name 0 s.i

/-- A name that is put into temp_command. -/
def Loop.stored (s : Loop) (j k : Nat) (name : List UInt8) : Loop :=
  let s := ((s.index .command j).index .tempCommand k).index .command j
  { s with tempCommand := Function.update s.tempCommand k name }

theorem matching_start {s : Loop} {name : List UInt8} (start : s.starts name = true) (j k : Nat)
    (rest : List (List UInt8))
    : s.matching j k (name :: rest) = (s.stored j k name).matching (j + 1) (k + 1) rest :=
  if_pos start

theorem matching_other {s : Loop} {name : List UInt8} (other : ¬s.starts name = true)
    (j k : Nat) (rest : List (List UInt8))
    : s.matching j k (name :: rest) = (s.index .command j).matching (j + 1) k rest :=
  if_neg other

theorem alike_stored (s : Loop) (j k : Nat) (name : List UInt8)
    : Alike s (s.stored j k name) :=
  have kept := ((alike_index s .command j).trans (alike_index _ .tempCommand k)).trans
    (alike_index _ .command j)
  ⟨kept.str, kept.i, kept.flag, kept.executed⟩

/-- The names that start with str are in temp_command, in their order; by induction on the names
left.
-/
theorem matching_spec (s : Loop) (j k : Nat) (names : List (List UInt8))
    : Alike s (s.matching j k names).1
      ∧ (s.matching j k names).2 = k + (names.filter s.starts).length
      ∧ (∀ n < k, (s.matching j k names).1.tempCommand n = s.tempCommand n)
      ∧ ∀ n name,
          (names.filter s.starts)[n]? = some name
          → (s.matching j k names).1.tempCommand (k + n) = name := by
  induction names generalizing s j k with
  | nil => exact ⟨.refl s, rfl, fun _ _ => rfl, fun _ _ none => nomatch none⟩
  | cons name rest ih =>
      by_cases start : s.starts name = true
      · obtain ⟨alike, count, before, behind⟩ := ih (s.stored j k name) (j + 1) (k + 1)
        rw [matching_start start, List.filter_cons_of_pos start]
        refine ⟨(alike_stored s j k name).trans alike, ?_, fun n below => ?_, ?_⟩
        · rw [count, List.length_cons, Nat.add_assoc, Nat.add_comm 1]
          rfl
        · rw [before n (Nat.lt_succ_of_lt below)]
          exact Function.update_of_ne (Nat.ne_of_lt below) ..
        · intro n other found
          cases n with
          | zero =>
              rw [← Option.some.inj found]
              exact (before k (Nat.lt_succ_self k)).trans (Function.update_self ..)
          | succ n =>
              rw [← behind n other found, Nat.add_assoc, Nat.add_comm 1]
      · rw [matching_other start, List.filter_cons_of_neg start]
        obtain ⟨alike, count, before, behind⟩ := ih (s.index .command j) (j + 1) k
        exact ⟨(alike_index s .command j).trans alike, count, before, behind⟩

/-- A character that is copied from temp_command. -/
def Loop.copied (s : Loop) (place i : Nat) (c : UInt8) (rest : List UInt8) : Loop :=
  let s := (s.index .tempCommand place).index .tempCommand place
  let s := { s with tempCommand := Function.update s.tempCommand place rest }
  s.store i c

theorem copyCommand_cons (s : Loop) (place i : Nat) (c : UInt8) (rest : List UInt8)
    : s.copyCommand place i (c :: rest)
      = (s.copied place i c rest).copyCommand place (i + 1) rest :=
  rfl

/-- The copy of a name replaces what str holds there, as far as the name goes; by induction on
what is left of it.
-/
theorem copyCommand_spec (s : Loop) (place i : Nat) (rest : List UInt8)
    (fits : i + rest.length ≤ SIZE)
    : (s.copyCommand place i rest).i = i + rest.length
      ∧ (s.copyCommand place i rest).flag = s.flag
      ∧ (s.copyCommand place i rest).executed = s.executed
      ∧ (∀ k c, rest[k]? = some c → (s.copyCommand place i rest).str (i + k) = c)
      ∧ ∀ n, n < i ∨ i + rest.length ≤ n → (s.copyCommand place i rest).str n = s.str n := by
  induction rest generalizing s i with
  | nil =>
      exact ⟨rfl, rfl, (alike_index s .tempCommand place).executed,
        fun _ _ none => (nomatch none), fun _ _ => rfl⟩
  | cons c rest ih =>
      rw [List.length_cons] at fits
      have inside : i < SIZE := by omega
      have stored : (s.copied place i c rest).str = Function.update s.str i c :=
        store_str _ inside c
      obtain ⟨length, flag, executed, characters, others⟩ :=
        ih (s.copied place i c rest) (i + 1) (by omega)
      rw [copyCommand_cons]
      refine ⟨?_, ?_, ?_, fun k d found => ?_, fun n outside => ?_⟩
      · rw [length, List.length_cons, Nat.add_assoc, Nat.add_comm 1]
      · rw [flag]
        exact store_flag _ i c
      · rw [executed]
        exact (store_executed _ i c).trans
          ((alike_index s .tempCommand place).trans (alike_index _ .tempCommand place)).executed
      · cases k with
        | zero =>
            rw [← Option.some.inj found]
            refine (others i (.inl (Nat.lt_succ_self i))).trans ?_
            rw [stored, Function.update_self]
        | succ k =>
            rw [← characters k d found, Nat.add_assoc, Nat.add_comm 1]
      · rw [List.length_cons] at outside
        rw [others n (by omega), stored, Function.update_of_ne (by omega)]

theorem alike_printNames (s : Loop) (k : Nat) : Alike s (s.printNames k) := by
  induction k generalizing s with
  | zero => exact .refl s
  | succ k ih =>
      have first := (alike_index s .tempCommand k).trans
        (alike_print _ (s.tempCommand k ++ text "\t"))
      exact first.trans (ih _)

/-- The terminal with a name in place of the line. -/
def Loop.completed (s : Loop) (name : List UInt8) : Loop :=
  ((s.print (List.replicate (s.i + TAB_SIZE + 1) BACKSPACE)).index .tempCommand 0).print name

theorem alike_completed (s : Loop) (name : List UInt8) : Alike s (s.completed name) :=
  ((alike_print s _).trans (alike_index _ .tempCommand 0)).trans (alike_print _ name)

/-- The terminal with the names and the line again. -/
def Loop.listed (s : Loop) (k : Nat) : Loop :=
  let s := (s.print (text "\r\n")).printNames k
  s.print (text "\r\nbai@AT32:" ++ ((List.range s.i).map s.str).takeWhile (· ≠ 0))

theorem alike_listed (s : Loop) (k : Nat) : Alike s (s.listed k) :=
  ((alike_print s _).trans (alike_printNames _ k)).trans (alike_print _ _)

section Tab

variable {s t : Loop} {k : Nat}

theorem tab_none (searched : (s.store s.i 0).matching 0 0 command = (t, 0))
    : s.tab = t.print (text "This command does not exist\r\n") := by
  simp only [Loop.tab, searched, if_true]

theorem tab_one (searched : (s.store s.i 0).matching 0 0 command = (t, 1))
    : s.tab = (t.completed (t.tempCommand 0)).copyCommand 0 0 (t.tempCommand 0) := by
  simp only [Loop.tab, searched]
  rfl

theorem tab_several (searched : (s.store s.i 0).matching 0 0 command = (t, k)) (some : k ≠ 0)
    (several : k ≠ 1)
    : s.tab = t.listed k := by
  simp only [Loop.tab, searched, if_neg some, if_neg several]
  rfl

end Tab

/-- The names that start with the line, once it has its terminator. -/
def Loop.candidates (s : Loop) : List (List UInt8) :=
  command.filter (s.store s.i 0).starts

theorem command_lengths : ∀ name ∈ command, name.length ≤ 13 := by decide

/-- The one name that a search keeps. -/
theorem mem_command_of_only {p : List UInt8 → Bool} {name : List UInt8}
    (only : command.filter p = [name])
    : name ∈ command ∧ p name := by
  have member : name ∈ command.filter p := by
    rw [only]
    exact List.mem_singleton_self name
  exact List.mem_filter.mp member

/-- TAB with one name that starts with the line: the line is that name. -/
theorem tab_unique (s : Loop) {name : List UInt8} (unique : s.candidates = [name])
    : s.tab.i = name.length
      ∧ s.tab.flag = s.flag
      ∧ s.tab.executed = s.executed
      ∧ (∀ k c, name[k]? = some c → s.tab.str k = c)
      ∧ ∀ n, name.length ≤ n → s.tab.str n = (s.store s.i 0).str n := by
  have ⟨member, _⟩ := mem_command_of_only unique
  obtain ⟨alike, count, -, found⟩ := matching_spec (s.store s.i 0) 0 0 command
  rw [show command.filter (s.store s.i 0).starts = [name] from unique] at count found
  rcases searched : (s.store s.i 0).matching 0 0 command with ⟨t, k⟩
  rw [searched] at alike count found
  obtain rfl : k = 1 := count
  have pointed : t.tempCommand 0 = name := found 0 name rfl
  have fits : 0 + name.length ≤ SIZE := by
    rw [Nat.zero_add]
    exact Nat.le_trans (command_lengths name member) (by decide)
  have printed := alike_completed t name
  obtain ⟨length, flag, executed, characters, others⟩ :=
    copyCommand_spec (t.completed name) 0 0 name fits
  rw [tab_one searched, pointed]
  refine ⟨?_, ?_, ?_, fun k c at' => ?_, fun n behind => ?_⟩
  · rw [length, Nat.zero_add]
  · rw [flag, printed.flag, alike.flag, store_flag]
  · rw [executed, printed.executed, alike.executed, store_executed]
  · rw [← characters k c at', Nat.zero_add]
  · rw [others n (.inr (by rwa [Nat.zero_add])), printed.str, alike.str]

/-- TAB with no such name, or with more than one: the line stays. -/
theorem tab_other (s : Loop) (other : s.candidates.length ≠ 1)
    : Alike (s.store s.i 0) s.tab := by
  obtain ⟨alike, count, -, -⟩ := matching_spec (s.store s.i 0) 0 0 command
  rw [Nat.zero_add] at count
  rcases searched : (s.store s.i 0).matching 0 0 command with ⟨t, k⟩
  rw [searched] at alike count
  have many : k ≠ 1 := fun one => other (count.symm.trans one)
  by_cases none : k = 0
  · rw [tab_none (none ▸ searched)]
    exact alike.trans (alike_print _ _)
  · rw [tab_several searched none many]
    exact alike.trans (alike_listed t k)

-----------------------------------------------------------------------------------------
-- Execution
-----------------------------------------------------------------------------------------

/-- Whether the line is the name of a command. -/
def Loop.names (s : Loop) (entry : ShellCommand) : Bool := equal 0 s.str entry.name 0

theorem commands_other {s : Loop} {entry : ShellCommand} (other : ¬s.names entry = true)
    (j : Nat) (rest : List ShellCommand)
    : s.commands j (entry :: rest) = (s.index .shellCommand j).commands (j + 1) rest :=
  if_neg other

/-- No command is executed where none has the line as its name; by induction on the commands. -/
theorem commands_none {s : Loop} (j : Nat) {entries : List ShellCommand}
    (none : ∀ entry ∈ entries, s.names entry = false)
    : (s.commands j entries).2 = false ∧ Alike s (s.commands j entries).1 := by
  induction entries generalizing s j with
  | nil => exact ⟨rfl, .refl s⟩
  | cons entry rest ih =>
      rw [commands_other (Bool.eq_false_iff.mp (none entry List.mem_cons_self))]
      obtain ⟨running, alike⟩ := @ih (s.index .shellCommand j) (j + 1)
        fun other member => none other (List.mem_cons_of_mem entry member)
      exact ⟨running, (alike_index s .shellCommand j).trans alike⟩

/-- The execution of a command. -/
def Loop.ran (s : Loop) (j : Nat) (entry : ShellCommand) : Loop :=
  let s := { s.index .shellCommand j with flag := true }
  ((s.index .shellCommand j).index .shellCommand j).act (.execute entry)

theorem ran_executed (s : Loop) (j : Nat) (entry : ShellCommand)
    : (s.ran j entry).executed = s.executed ++ [entry] := by
  have before : ({ s.index .shellCommand j with flag := true } : Loop).executed = s.executed :=
    (alike_index s .shellCommand j).executed
  rw [Loop.ran, executed_act, (alike_index _ .shellCommand j).executed,
    (alike_index _ .shellCommand j).executed, before]
  rfl

/-- The start after RESET. -/
def Loop.restarted (s : Loop) : Loop := { Loop.start with log := s.log ++ Loop.start.log }

/-- What comes after another command. -/
def Loop.answered (s : Loop) (j : Nat) (name : List UInt8) : Loop :=
  ((s.print (text "bai@AT32:")).index .shellCommand j).act (.installHead (some name))

theorem alike_answered (s : Loop) (j : Nat) (name : List UInt8) : Alike s (s.answered j name) :=
  ((alike_print s _).trans (alike_index _ .shellCommand j)).trans (alike_act _ rfl)

theorem commands_reset {s : Loop} {entry : ShellCommand} (named : s.names entry = true)
    (restart : entry.fp = .reset) (j : Nat) (rest : List ShellCommand)
    : s.commands j (entry :: rest) = ((s.ran j entry).restarted, true) :=
  (if_pos named).trans (if_pos restart)

theorem commands_named {s : Loop} {entry : ShellCommand} (named : s.names entry = true)
    (goesOn : ¬entry.fp = .reset) (j : Nat) (rest : List ShellCommand)
    : s.commands j (entry :: rest)
      = ((s.ran j entry).answered j entry.name).commands (j + 1) rest :=
  (if_pos named).trans (if_neg goesOn)

/-- The one command with the line as its name is executed; after RESET the line is empty, else
the flag is set. By induction on the commands.
-/
theorem commands_some {s : Loop} (j : Nat) {entries : List ShellCommand} {entry : ShellCommand}
    (member : entry ∈ entries) (named : s.names entry = true)
    (plain : ∀ other ∈ entries, 0 ∉ other.name)
    (distinct : (entries.map ShellCommand.name).Nodup)
    : (s.commands j entries).1.executed = s.executed ++ [entry]
      ∧ ((s.commands j entries).2 = true
          ∧ (s.commands j entries).1.str = (fun _ => 0)
          ∧ (s.commands j entries).1.i = 0
          ∧ (s.commands j entries).1.flag = false
        ∨ (s.commands j entries).2 = false
          ∧ (s.commands j entries).1.str = s.str
          ∧ (s.commands j entries).1.i = s.i
          ∧ (s.commands j entries).1.flag = true) := by
  induction entries generalizing s j with
  | nil => exact nomatch member
  | cons first rest ih =>
      obtain ⟨others, distinct⟩ := List.nodup_cons.mp distinct
      by_cases here : s.names first = true
      · have none : ∀ other ∈ rest, s.names other = false := by
          refine fun other later => Bool.eq_false_iff.mpr fun again => others ?_
          have names := equal_unique here again (plain first List.mem_cons_self)
            (plain other (List.mem_cons_of_mem first later))
          exact names ▸ List.mem_map_of_mem later
        obtain rfl : entry = first := by
          rcases List.mem_cons.mp member with same | later
          · exact same
          · exact absurd named (Bool.eq_false_iff.mp (none entry later))
        by_cases restart : entry.fp = .reset
        · rw [commands_reset here restart]
          refine ⟨?_, .inl ⟨rfl, rfl, rfl, rfl⟩⟩
          rw [← ran_executed s j entry, Loop.executed, Loop.restarted, List.filterMap_append]
          exact List.append_nil _
        · obtain ⟨running, alike⟩ :=
            @commands_none ((s.ran j entry).answered j entry.name) (j + 1) rest none
          have after := (alike_answered (s.ran j entry) j entry.name).trans alike
          rw [commands_named here restart]
          exact ⟨after.executed.trans (ran_executed s j entry),
            .inr ⟨running, after.str, after.i, after.flag⟩⟩
      · rw [commands_other here]
        have later : entry ∈ rest := by
          rcases List.mem_cons.mp member with rfl | later
          · exact (here named).elim
          · exact later
        have executed := (alike_index s .shellCommand j).executed
        have rest := @ih (s.index .shellCommand j) (j + 1) later named
          (fun other member => plain other (List.mem_cons_of_mem first member)) distinct
        rw [executed] at rest
        exact rest

theorem shellCommand_plain : ∀ entry ∈ shellCommand, 0 ∉ entry.name := by decide

theorem shellCommand_distinct : (shellCommand.map ShellCommand.name).Nodup := by decide

theorem shellCommand_nonempty : ∀ entry ∈ shellCommand, entry.name ≠ [] := by decide

/-- The line of a command is not empty. -/
theorem names_nonempty {s : Loop} {entry : ShellCommand} (member : entry ∈ shellCommand)
    (named : s.names entry = true)
    : s.str 0 ≠ 0 := by
  have plain := shellCommand_plain entry member
  have nonempty := shellCommand_nonempty entry member
  rw [Loop.names] at named
  generalize entry.name = name at named plain nonempty
  cases name with
  | nil => exact (nonempty rfl).elim
  | cons c rest =>
      rw [equal, Bool.and_eq_true, decide_eq_true_iff] at named
      rw [named.1]
      exact fun zero => plain (zero ▸ List.mem_cons_self)

/-- What a line that names no command leads to: install_head with the entry behind the last. -/
def Loop.refused (s : Loop) : Loop :=
  let s := s.print (text "bai@AT32:please enter again!\r\nbai@AT32:")
  (s.index .shellCommand COM_SIZE).act (.installHead none)

theorem alike_refused (s : Loop) : Alike s s.refused :=
  ((alike_print s _).trans (alike_index _ .shellCommand COM_SIZE)).trans (alike_act _ rfl)

section Enter

variable {s t : Loop}

theorem enter_restarted (tried : (s.store s.i 0).commands 0 shellCommand = (t, true))
    : s.enter = t := by
  simp only [Loop.enter, tried, if_true]

theorem enter_set (tried : (s.store s.i 0).commands 0 shellCommand = (t, false))
    (set : t.flag = true)
    : s.enter = if t.i = 0 then t else { t.clear with flag := false } := by
  simp only [Loop.enter, tried, set, if_true, Bool.false_eq_true, if_false]

theorem enter_unset (tried : (s.store s.i 0).commands 0 shellCommand = (t, false))
    (unset : t.flag = false)
    : s.enter = if t.i = 0 then t.refused else { t.refused.clear with flag := false } := by
  rw [← (alike_refused t).i]
  simp only [Loop.enter, tried, unset, Bool.false_eq_true, if_false]
  rfl

/-- ENTER on the name of a command: it is executed, and the line is empty. -/
theorem enter_named (inside : s.i < SIZE) {entry : ShellCommand} (member : entry ∈ shellCommand)
    (named : (s.store s.i 0).names entry = true)
    : s.enter.executed = s.executed ++ [entry]
      ∧ s.enter.i = 0
      ∧ s.enter.flag = false
      ∧ s.enter.str = fun _ => 0 := by
  obtain ⟨executed, ends⟩ :=
    commands_some 0 member named shellCommand_plain shellCommand_distinct
  rw [store_executed] at executed
  rcases tried : (s.store s.i 0).commands 0 shellCommand with ⟨t, restarted⟩
  rw [tried] at executed ends
  rcases ends with ⟨restart, str, i, flag⟩ | ⟨running, str, i, flag⟩
  · obtain rfl : restarted = true := restart
    rw [enter_restarted tried]
    exact ⟨executed, i, flag, str⟩
  · obtain rfl : restarted = false := running
    -- an empty line is no name
    have typed : t.i ≠ 0 := by
      intro zero
      rw [i, store_i] at zero
      have first := names_nonempty member named
      rw [store_str s inside, zero, Function.update_self] at first
      exact first rfl
    rw [enter_set tried flag, if_neg typed]
    exact ⟨executed, rfl, rfl, rfl⟩

/-- ENTER on another line: none is executed, and the line is empty. -/
theorem enter_unnamed (down : s.flag = false)
    (none : ∀ entry ∈ shellCommand, (s.store s.i 0).names entry = false)
    : s.enter.executed = s.executed
      ∧ s.enter.i = 0
      ∧ s.enter.flag = false
      ∧ s.enter.str = if s.i = 0 then (s.store s.i 0).str else fun _ => 0 := by
  obtain ⟨running, alike⟩ := commands_none 0 none
  rcases tried : (s.store s.i 0).commands 0 shellCommand with ⟨t, restarted⟩
  rw [tried] at running alike
  obtain rfl : restarted = false := running
  have length : t.i = s.i := alike.i.trans (store_i s s.i 0)
  have unset : t.flag = false := alike.flag.trans ((store_flag s s.i 0).trans down)
  have kept := alike.trans (alike_refused t)
  have executed := kept.executed.trans (store_executed s s.i 0)
  rw [enter_unset tried unset, length]
  by_cases empty : s.i = 0
  · rw [if_pos empty, if_pos empty]
    exact ⟨executed, (alike_refused t).i.trans (length.trans empty),
      (alike_refused t).flag.trans unset, kept.str⟩
  · rw [if_neg empty, if_neg empty]
    exact ⟨executed, rfl, rfl, rfl⟩

end Enter

end At32.Shell
