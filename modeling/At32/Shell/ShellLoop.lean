import At32.Lib.CString

/-! The loop of the shell: a line editor with completion, and the commands that it runs. Every
index into one of its arrays is recorded.
-/

namespace At32.Shell

open CString (equal equalUpTo)

abbrev SIZE : Nat := 4096
abbrev COM_SIZE : Nat := 6
abbrev BACKSPACE : UInt8 := 0x7f
abbrev TAB_SIZE : Nat := 6
abbrev ENTER : UInt8 := 0x0d
abbrev TAB : UInt8 := 0x09
abbrev ESC : UInt8 := 27
abbrev BRACKET : UInt8 := 0x5b

/-- The characters of a string literal. -/
def text (literal : String) : List UInt8 := literal.toList.map fun c => UInt8.ofNat c.toNat

/-- The functions of the commands. -/
inductive Functional
  | ledRedCtrl
  | getTimer
  | reset
  | clearScreen
  deriving DecidableEq, Repr

/-- struct shell_functional -/
structure ShellCommand where
  fp : Functional
  name : List UInt8
  data : Int
  deriving DecidableEq, Repr

/-- shell_command, which has COM_SIZE entries -/
def shellCommand : List ShellCommand :=
  [
    { fp := .ledRedCtrl, name := text "led_red_ON", data := 1 },
    { fp := .ledRedCtrl, name := text "led_red_OFF", data := 0 },
    { fp := .getTimer, name := text "timer", data := 1 },
    { fp := .reset, name := text "RESET", data := 1 },
    { fp := .ledRedCtrl, name := text "led_red_blink", data := 2 },
    { fp := .clearScreen, name := text "clear", data := 0 }
  ]

/-- command, which has COM_SIZE entries -/
def command : List (List UInt8) :=
  [text "led_red_ON", text "led_red_OFF", text "timer", text "RESET", text "led_red_blink",
    text "clear"]

/-- The arrays of shell_loop. -/
inductive Place
  | str
  | shellCommand
  | command
  | tempCommand
  deriving DecidableEq, Repr

def Place.size : Place → Nat
  | .str => SIZE
  | .shellCommand => COM_SIZE
  | .command => COM_SIZE
  | .tempCommand => COM_SIZE

/-- What the loop does: an index into an array, a text on the terminal, a command that is
executed, and install_head, with a name or with what is behind the commands.
-/
inductive Action
  | index (place : Place) (n : Nat)
  | print (text : List UInt8)
  | execute (command : ShellCommand)
  | installHead (name : Option (List UInt8))
  deriving DecidableEq, Repr

/-- The variables of shell_loop, and all that it did. A pointer of temp_command is the rest of
the string that it points to.
-/
structure Loop where
  str : Nat → UInt8
  i : Nat
  flag : Bool
  tempCommand : Nat → List UInt8
  log : List Action

def Loop.start : Loop :=
  {
    str := fun _ => 0
    i := 0
    flag := false
    tempCommand := fun _ => []
    log := [.print (text "welcome to shell")]
  }

def Loop.act (s : Loop) (action : Action) : Loop := { s with log := s.log ++ [action] }

def Loop.index (s : Loop) (place : Place) (n : Nat) : Loop := s.act (.index place n)

def Loop.print (s : Loop) (text : List UInt8) : Loop := s.act (.print text)

/-- A write to str. One outside is only recorded. -/
def Loop.store (s : Loop) (n : Nat) (c : UInt8) : Loop :=
  let s := s.index .str n
  if n < SIZE then { s with str := Function.update s.str n c } else s

/-- str with i = 0, after memset -/
def Loop.clear (s : Loop) : Loop := { s with i := 0, str := fun _ => 0 }

/-- What is printed for a sequence of an arrow key. -/
def arrow (c : UInt8) : List UInt8 :=
  if c = 0x41 then [ESC, BRACKET, 0x42]
  else if c = 0x42 then [ESC, BRACKET, 0x41]
  else if c = 0x43 then text "left"
  else if c = 0x44 then text "right"
  else []

/-- The search for an escape sequence from m on, for the characters left; the i = 0 of a sequence
ends it.
-/
def Loop.escapes (s : Loop) (m : Nat) : Nat → Loop
  | 0 => s
  | left + 1 =>
      let s := s.index .str m
      if s.str m = ESC then
        let s := s.index .str (m + 1)
        if s.str (m + 1) = BRACKET then
          let s := s.index .str (m + 2)
          let s := s.print (arrow (s.str (m + 2)))
          s.clear
        else
          s.escapes (m + 1) left
      else
        s.escapes (m + 1) left

/-- A character for the line. -/
def Loop.typed (s : Loop) (rev : UInt8) : Loop :=
  let s := s.store s.i rev
  let s := { s with i := s.i + 1 }
  if s.i > 2 then s.escapes 0 s.i else s

/-- The names that start with str, into temp_command from k on. -/
def Loop.matching (s : Loop) (j k : Nat) : List (List UInt8) → Loop × Nat
  | [] => (s, k)
  | name :: rest =>
      let s := s.index .command j
      if equalUpTo 0 s.str name 0 s.i then
        let s := (s.index .tempCommand k).index .command j
        let s := { s with tempCommand := Function.update s.tempCommand k name }
        s.matching (j + 1) (k + 1) rest
      else
        s.matching (j + 1) k rest

/-- The copy of temp_command[place], whose rest is given, to str from i on. -/
def Loop.copyCommand (s : Loop) (place i : Nat) : List UInt8 → Loop
  | [] => { s.index .tempCommand place with i }
  | c :: rest =>
      let s := (s.index .tempCommand place).index .tempCommand place
      let s := { s with tempCommand := Function.update s.tempCommand place rest }
      let s := s.store i c
      s.copyCommand place (i + 1) rest

/-- The names of temp_command from the last one on. -/
def Loop.printNames (s : Loop) : Nat → Loop
  | 0 => s
  | k + 1 =>
      let s := s.index .tempCommand k
      let s := s.print (s.tempCommand k ++ text "\t")
      s.printNames k

def Loop.tab (s : Loop) : Loop :=
  let s := s.store s.i 0
  let (s, k) := s.matching 0 0 command
  if k = 0 then
    s.print (text "This command does not exist\r\n")
  else if k = 1 then
    let s := s.print (List.replicate (s.i + TAB_SIZE + 1) BACKSPACE)
    let s := s.index .tempCommand (k - 1)
    let s := s.print (s.tempCommand (k - 1))
    s.copyCommand (k - 1) 0 (s.tempCommand (k - 1))
  else
    let s := s.print (text "\r\n")
    let s := s.printNames k
    s.print (text "\r\nbai@AT32:" ++ ((List.range s.i).map s.str).takeWhile (· ≠ 0))

def Loop.backspace (s : Loop) : Loop :=
  if s.i = 0 then
    s
  else
    let s := { s with i := s.i - 1 }
    s.store s.i 0

/-- The commands that str is the name of, executed; RESET starts the shell anew. -/
def Loop.commands (s : Loop) (j : Nat) : List ShellCommand → Loop × Bool
  | [] => (s, false)
  | entry :: rest =>
      let s := s.index .shellCommand j
      if equal 0 s.str entry.name 0 then
        let s := { s with flag := true }
        let s := ((s.index .shellCommand j).index .shellCommand j).act (.execute entry)
        if entry.fp = .reset then
          ({ Loop.start with log := s.log ++ Loop.start.log }, true)
        else
          let s := s.print (text "bai@AT32:")
          let s := (s.index .shellCommand j).act (.installHead (some entry.name))
          s.commands (j + 1) rest
      else
        s.commands (j + 1) rest

def Loop.enter (s : Loop) : Loop :=
  let s := s.store s.i 0
  let (s, restarted) := s.commands 0 shellCommand
  if restarted then
    s
  else
    let s :=
      if s.flag then
        s
      else
        let s := s.print (text "bai@AT32:please enter again!\r\nbai@AT32:")
        (s.index .shellCommand COM_SIZE).act (.installHead none)
    if s.i = 0 then s else { s.clear with flag := false }

/-- One pass of the loop, for the character that fgetc gives. -/
def Loop.pass (s : Loop) (rev : UInt8) : Loop :=
  if rev ≠ ENTER ∧ rev ≠ TAB ∧ rev ≠ BACKSPACE then
    s.typed rev
  else if rev = TAB then
    s.tab
  else if rev = BACKSPACE then
    s.backspace
  else
    s.enter

/-- The test of uart_rx_buf at the start of each pass; nothing writes to that buffer. -/
def exits (uartRxBuf : List UInt8) : Bool :=
  uartRxBuf.length ≠ 0 && (text "shell_exit").isPrefixOf uartRxBuf

/-- shell_loop, after some characters -/
def shellLoop (uartRxBuf : List UInt8) (received : List UInt8) : Loop :=
  if exits uartRxBuf then
    Loop.start.print (text "exit\r\n")
  else
    received.foldl Loop.pass .start

def Action.executed? : Action → Option ShellCommand
  | .execute command => some command
  | _ => none

/-- The commands that were executed, in their order. -/
def Loop.executed (s : Loop) : List ShellCommand := s.log.filterMap Action.executed?

end At32.Shell
