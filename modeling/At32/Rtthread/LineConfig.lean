import At32.Lib.LastWrite
import At32.Lib.Replay
import At32.Rtthread.PinIrq

/-! Configuration histories of the external interrupt lines: when the registers hold what the
last calls ask for, whatever was configured before.
-/

namespace At32.LineConfig

open Exti LastWrite PinIrq
open Gpio (HwGpio afioInit_exticPort)

/-- What a call asks for: the port that the line of a pin is taken from, or the mode and the
edges of a line.
-/
inductive Request
  | port (pin : Nat) (port : HwGpio)
  | line (line : Nat) (mode : ExtiMode) (trigger : TriggerMode) (newStatus : Bool)
  deriving DecidableEq, Repr

/-- A call of the drivers or of the device layer, for the pins of a port and for the lines that
a register of 32 bits has.
-/
inductive Call
  | afioInit (port : HwGpio) (pin : Fin 16)
  | extiInit (line : Fin 32) (mode : ExtiMode) (trigger : TriggerMode) (newStatus : Bool)
  | attachIrq (pin : Nat) (mode hdr args : UInt32)
  | dettachIrq (pin : Nat)
  | irqEnable (port : HwGpio) (pin : Fin 16) (enabled : Bool)
  deriving DecidableEq, Repr

def Call.apply (s : Board) : Call → Board
  | .afioInit port pin => { s with gpio := Gpio.afioInit port pin s.gpio }
  | .extiInit line mode trigger newStatus =>
      { s with exti := Exti.extiInit line mode trigger newStatus s.exti }
  | .attachIrq pin mode hdr args => (at32PinAttachIrq pin mode hdr args s).2
  | .dettachIrq pin => (at32PinDettachIrq pin s).2
  | .irqEnable port pin enabled => (at32PinIrqEnable port pin enabled s).2

/-- Enabling the interrupt of a pin asks for its port and for the line of the same number, if
a handler is attached to it.
-/
def Call.requests (s : Board) : Call → List Request
  | .afioInit port pin => [.port pin port]
  | .extiInit line mode trigger newStatus => [.line line mode trigger newStatus]
  | .attachIrq _ _ _ _ | .dettachIrq _ => []
  | .irqEnable port pin enabled =>
      if (s.tab pin).pin = -1 then []
      else
        [.port pin port, .line pin .interrupt (triggerMode (s.tab pin).mode) enabled]

-----------------------------------------------------------------------------------------
-- What is asked for last
-----------------------------------------------------------------------------------------

def Request.portOf (pin : Nat) : Request → Option HwGpio
  | .port other asked => if other = pin then some asked else none
  | .line _ _ _ _ => none

/-- Whether a request enables a line in a mode. -/
def Request.statusOf (line : Nat) (mode : ExtiMode) : Request → Option Bool
  | .port _ _ => none
  | .line other otherMode _ newStatus =>
      if other = line ∧ otherMode = mode then some newStatus else none

/-- The edges of a request that enables a line. -/
def Request.triggerOf (line : Nat) : Request → Option TriggerMode
  | .port _ _ => none
  | .line other _ trigger newStatus => if other = line ∧ newStatus then some trigger else none

/-- The port asked for last, and after reset port A. -/
def wantedPort (asked : List Request) (pin : Nat) : BitVec 4 :=
  ((last (Request.portOf pin) asked).getD .a).field

/-- The bits of a line that the last requests for it ask for. -/
def wantedLine (asked : List Request) (line : Nat) : Line :=
  {
    inten := (last (Request.statusOf line .interrupt) asked).getD false
    evten := (last (Request.statusOf line .event) asked).getD false
    rtrsel := ((last (Request.triggerOf line) asked).map TriggerMode.rises).getD false
    ftrsel := ((last (Request.triggerOf line) asked).map TriggerMode.falls).getD false
  }

/-- A request in the place of what a line was. -/
def Line.replace (bits : Line) (mode : ExtiMode) (trigger : TriggerMode) (newStatus : Bool)
    : Line :=
  {
    inten := if mode = .interrupt then newStatus else bits.inten
    evten := if mode = .event then newStatus else bits.evten
    rtrsel := if newStatus then trigger.rises else bits.rtrsel
    ftrsel := if newStatus then trigger.falls else bits.ftrsel
  }

theorem wantedPort_port (asked : List Request) (pin : Nat) (port : HwGpio) (other : Nat)
    : wantedPort (asked ++ [.port pin port]) other
      = if other = pin then port.field else wantedPort asked other := by
  unfold wantedPort
  rw [last_append_singleton]
  by_cases same : pin = other
  · simp [Request.portOf, same]
  · simp [Request.portOf, same, Ne.symm same]

theorem wantedPort_line (asked : List Request) (line : Nat) (mode : ExtiMode)
    (trigger : TriggerMode) (newStatus : Bool) (pin : Nat)
    : wantedPort (asked ++ [.line line mode trigger newStatus]) pin = wantedPort asked pin := by
  unfold wantedPort
  rw [last_append_singleton]
  rfl

theorem wantedLine_port (asked : List Request) (pin : Nat) (port : HwGpio) (line : Nat)
    : wantedLine (asked ++ [.port pin port]) line = wantedLine asked line := by
  unfold wantedLine
  rw [last_append_singleton, last_append_singleton, last_append_singleton]
  rfl

theorem wantedLine_line (asked : List Request) (line : Nat) (mode : ExtiMode)
    (trigger : TriggerMode) (newStatus : Bool) (other : Nat)
    : wantedLine (asked ++ [.line line mode trigger newStatus]) other
      = if other = line then Line.replace (wantedLine asked line) mode trigger newStatus
        else wantedLine asked other := by
  unfold wantedLine
  rw [last_append_singleton, last_append_singleton, last_append_singleton]
  by_cases same : line = other
  · subst same
    cases mode <;> cases newStatus <;> simp [Request.statusOf, Request.triggerOf, Line.replace]
  · simp [Request.statusOf, Request.triggerOf, same, Ne.symm same]

-----------------------------------------------------------------------------------------
-- Steps
-----------------------------------------------------------------------------------------

/-- The registers, and all that has been asked for. -/
structure Machine where
  board : Board
  asked : List Request

def Machine.step (m : Machine) (call : Call) : Machine :=
  { board := call.apply m.board, asked := m.asked ++ call.requests m.board }

def Machine.reset : Machine :=
  {
    board :=
      {
        gpio := Gpio.resetBoard
        exti := { inten := 0, evten := 0, rtrsel := 0, ftrsel := 0, pnd := 0 }
        nvic := Nvic.resetRegisters
        tab := fun _ => .none
      }
    asked := []
  }

def run (calls : List Call) : Machine := calls.foldl Machine.step .reset

/-- Every field and every bit is what has been asked for last. -/
structure Machine.Follows (m : Machine) : Prop where
  port : ∀ pin < 16, m.board.gpio.exticPort pin = wantedPort m.asked pin
  line : ∀ line < 32, m.board.exti.line line = wantedLine m.asked line

/-- The field holds no bit but bit 0 that the port lacks. -/
def PortFits (field : BitVec 4) (port : HwGpio) : Prop :=
  field &&& ~~~1#4 &&& ~~~port.field = 0

/-- The line has no edge that the trigger lacks. -/
def EdgesFit (bits : Line) (trigger : TriggerMode) : Prop :=
  (bits.rtrsel = true → trigger.rises = true) ∧ (bits.ftrsel = true → trigger.falls = true)

/-- The line is already as it is asked to be. -/
def AlreadyAsked (bits : Line) (trigger : TriggerMode) (enabled : Bool) : Prop :=
  bits.inten = enabled
  ∧ (enabled = true → bits.rtrsel = trigger.rises ∧ bits.ftrsel = trigger.falls)

/-- The line already has all that the call joins to it. -/
def AlreadyJoined (bits : Line) (trigger : TriggerMode) (enabled : Bool) : Prop :=
  bits.inten = enabled
  ∧ (enabled = true
    → (trigger.rises = true → bits.rtrsel = true)
      ∧ (trigger.falls = true → bits.ftrsel = true))

/-- A call does what it is asked: no old bit of a port or of an edge is in its way. Where the
device layer passes on the number of the port, that is the number of the pin; or else there is
nothing to be done, neither for the line of the pin nor for that of the port.
-/
def Machine.Served (m : Machine) : Call → Prop
  | .afioInit port pin => PortFits (m.board.gpio.exticPort pin) port
  | .extiInit line _ trigger newStatus =>
      newStatus = true → EdgesFit (m.board.exti.line line) trigger
  | .attachIrq _ _ _ _ | .dettachIrq _ => True
  | .irqEnable port pin enabled =>
      let trigger := triggerMode (m.board.tab pin).mode
      (m.board.tab pin).pin ≠ -1
      → PortFits (m.board.gpio.exticPort pin) port
        ∧ if port.bits.toNat = pin.val then
            enabled = true → EdgesFit (m.board.exti.line pin) trigger
          else
            AlreadyAsked (m.board.exti.line pin) trigger enabled
            ∧ AlreadyJoined (m.board.exti.line port.bits.toNat) trigger enabled

theorem portFits_iff (field : BitVec 4) (port : HwGpio)
    : field &&& ~~~1#4 ||| port.field = port.field ↔ PortFits field port := by
  unfold PortFits
  revert field
  cases port <;> decide

theorem edgesFit_iff (bits : Line) (mode : ExtiMode) (trigger : TriggerMode) (newStatus : Bool)
    : bits.init mode trigger newStatus = Line.replace bits mode trigger newStatus
      ↔ (newStatus = true → EdgesFit bits trigger) := by
  obtain ⟨inten, evten, rtrsel, ftrsel⟩ := bits
  unfold Line.init Line.replace EdgesFit
  cases newStatus <;> cases rtrsel <;> cases ftrsel <;> cases trigger <;>
    simp [TriggerMode.rises, TriggerMode.falls]

theorem alreadyAsked_iff (bits : Line) (trigger : TriggerMode) (enabled : Bool)
    : bits = Line.replace bits .interrupt trigger enabled
      ↔ AlreadyAsked bits trigger enabled := by
  obtain ⟨inten, evten, rtrsel, ftrsel⟩ := bits
  unfold Line.replace AlreadyAsked
  cases enabled <;> simp

theorem alreadyJoined_iff (bits : Line) (trigger : TriggerMode) (enabled : Bool)
    : bits.init .interrupt trigger enabled = bits ↔ AlreadyJoined bits trigger enabled := by
  obtain ⟨inten, evten, rtrsel, ftrsel⟩ := bits
  unfold Line.init AlreadyJoined
  cases enabled <;> cases rtrsel <;> cases ftrsel <;> cases trigger <;>
    simp [TriggerMode.rises, TriggerMode.falls, eq_comm]

/-- The ports behind an AFIO_Init. -/
theorem ports_iff {gpio : Gpio.Board} {asked : List Request}
    (before : ∀ pin < 16, gpio.exticPort pin = wantedPort asked pin) (port : HwGpio) {pin : Nat}
    (inside : pin < 16)
    : (∀ other < 16,
        (Gpio.afioInit port pin gpio).exticPort other
          = wantedPort (asked ++ [.port pin port]) other)
      ↔ PortFits (gpio.exticPort pin) port := by
  rw [← portFits_iff]
  constructor
  · intro every
    have here := every pin inside
    rwa [afioInit_exticPort, if_pos rfl, wantedPort_port, if_pos rfl] at here
  · intro fits other within
    rw [afioInit_exticPort, wantedPort_port]
    by_cases same : other = pin
    · rw [if_pos same, if_pos same, fits]
    · rw [if_neg same, if_neg same, before other within]

/-- The lines behind an Exti_Init for the line that is asked for. -/
theorem lines_iff {exti : Exti.Registers} {asked : List Request}
    (before : ∀ line < 32, exti.line line = wantedLine asked line) {line : Nat}
    (inside : line < 32) (mode : ExtiMode) (trigger : TriggerMode) (newStatus : Bool)
    : (∀ other < 32,
        (extiInit line mode trigger newStatus exti).line other
          = wantedLine (asked ++ [.line line mode trigger newStatus]) other)
      ↔ (newStatus = true → EdgesFit (exti.line line) trigger) := by
  rw [← edgesFit_iff _ mode]
  constructor
  · intro every
    have here := every line inside
    rwa [extiInit_line inside, if_pos rfl, wantedLine_line, if_pos rfl, ← before line inside]
      at here
  · intro fits other within
    rw [extiInit_line inside, wantedLine_line]
    by_cases same : other = line
    · rw [if_pos same, if_pos same, ← before line inside, fits]
    · rw [if_neg same, if_neg same, before other within]

/-- The lines behind an Exti_Init for another line than is asked for. -/
theorem otherLine_iff {exti : Exti.Registers} {asked : List Request}
    (before : ∀ line < 32, exti.line line = wantedLine asked line) {line passed : Nat}
    (inside : line < 32) (passedInside : passed < 32) (apart : passed ≠ line)
    (trigger : TriggerMode) (enabled : Bool)
    : (∀ other < 32,
        (extiInit passed .interrupt trigger enabled exti).line other
          = wantedLine (asked ++ [.line line .interrupt trigger enabled]) other)
      ↔ AlreadyAsked (exti.line line) trigger enabled
        ∧ AlreadyJoined (exti.line passed) trigger enabled := by
  rw [← alreadyAsked_iff, ← alreadyJoined_iff]
  constructor
  · intro every
    have here := every line inside
    have there := every passed passedInside
    rw [extiInit_line passedInside, if_neg (Ne.symm apart), wantedLine_line, if_pos rfl,
      ← before line inside] at here
    rw [extiInit_line passedInside, if_pos rfl, wantedLine_line, if_neg apart,
      ← before passed passedInside] at there
    exact ⟨here, there⟩
  · intro ⟨here, there⟩ other within
    rw [extiInit_line passedInside, wantedLine_line]
    by_cases same : other = passed
    · rw [if_pos same, if_neg (same ▸ apart), there, same, before passed passedInside]
    · rw [if_neg same]
      by_cases sameLine : other = line
      · rw [if_pos sameLine, ← before line inside, ← here, sameLine]
      · rw [if_neg sameLine, before other within]

theorem bits_lt (port : HwGpio) : port.bits.toNat < 32 := by
  cases port <;> decide

/-- A step that changes neither the registers nor what is asked for. -/
theorem Machine.Follows.of_same {m next : Machine} (follows : m.Follows)
    (gpio : next.board.gpio = m.board.gpio) (exti : next.board.exti = m.board.exti)
    (asked : next.asked = m.asked)
    : next.Follows := by
  constructor
  · rw [gpio, asked]
    exact follows.port
  · rw [exti, asked]
    exact follows.line

theorem at32PinAttachIrq_registers (pin : Nat) (mode hdr args : UInt32) (s : Board)
    : (at32PinAttachIrq pin mode hdr args s).2.gpio = s.gpio
      ∧ (at32PinAttachIrq pin mode hdr args s).2.exti = s.exti := by
  unfold at32PinAttachIrq
  simp only
  split
  · exact ⟨rfl, rfl⟩
  · split <;> exact ⟨rfl, rfl⟩

theorem at32PinDettachIrq_registers (pin : Nat) (s : Board)
    : (at32PinDettachIrq pin s).2.gpio = s.gpio
      ∧ (at32PinDettachIrq pin s).2.exti = s.exti := by
  unfold at32PinDettachIrq
  simp only
  split <;> exact ⟨rfl, rfl⟩

/-- Enabling the interrupt of a pin with a handler. -/
theorem Machine.step_irqEnable {m : Machine} {pin : Fin 16}
    (attached : (m.board.tab pin).pin ≠ -1) (port : HwGpio) (enabled : Bool)
    : (m.step (.irqEnable port pin enabled)).board.gpio
        = Gpio.afioInit port pin (Gpio.gpioInit port pin .inFloating m.board.gpio)
      ∧ (m.step (.irqEnable port pin enabled)).board.exti
        = extiInit port.bits.toNat .interrupt (triggerMode (m.board.tab pin).mode) enabled
            m.board.exti
      ∧ (m.step (.irqEnable port pin enabled)).asked
        = m.asked ++ [.port pin port]
            ++ [.line pin .interrupt (triggerMode (m.board.tab pin).mode) enabled] := by
  refine ⟨?_, ?_, ?_⟩
  · simp only [Machine.step, Call.apply, at32PinIrqEnable, if_neg attached]
  · simp only [Machine.step, Call.apply, at32PinIrqEnable, if_neg attached]
  · simp only [Machine.step, Call.requests, if_neg attached, List.append_assoc,
      List.singleton_append]

/-- A step from registers that follow keeps them following exactly when the call is served, by
cases on the call.
-/
theorem Machine.Follows.step_iff {m : Machine} (follows : m.Follows) (call : Call)
    : (m.step call).Follows ↔ m.Served call := by
  have parts (next : Machine)
      : next.Follows
        ↔ (∀ pin < 16, next.board.gpio.exticPort pin = wantedPort next.asked pin)
          ∧ ∀ line < 32, next.board.exti.line line = wantedLine next.asked line :=
    ⟨fun after => ⟨after.port, after.line⟩, fun after => { port := after.1, line := after.2 }⟩
  cases call with
  | afioInit port pin =>
      rw [parts]
      refine Iff.trans (and_iff_left fun line inside => ?_)
        (ports_iff follows.port port pin.isLt)
      exact (follows.line line inside).trans (wantedLine_port _ _ _ _).symm
  | extiInit line mode trigger newStatus =>
      rw [parts]
      refine Iff.trans (and_iff_right fun pin inside => ?_)
        (lines_iff follows.line line.isLt mode trigger newStatus)
      exact (follows.port pin inside).trans (wantedPort_line _ _ _ _ _ _).symm
  | attachIrq pin mode hdr args =>
      have kept := at32PinAttachIrq_registers pin mode hdr args m.board
      exact iff_of_true (follows.of_same kept.1 kept.2 (List.append_nil _)) trivial
  | dettachIrq pin =>
      have kept := at32PinDettachIrq_registers pin m.board
      exact iff_of_true (follows.of_same kept.1 kept.2 (List.append_nil _)) trivial
  | irqEnable port pin enabled =>
      by_cases none : (m.board.tab pin).pin = -1
      · refine iff_of_true (follows.of_same ?_ ?_ ?_) (fun attached => absurd none attached)
        · simp only [Machine.step, Call.apply, at32PinIrqEnable, if_pos none]
        · simp only [Machine.step, Call.apply, at32PinIrqEnable, if_pos none]
        · simp only [Machine.step, Call.requests, if_pos none, List.append_nil]
      · have ⟨gpio, exti, asked⟩ := Machine.step_irqEnable none port enabled
        have lines : ∀ line < 32,
            m.board.exti.line line = wantedLine (m.asked ++ [.port pin port]) line :=
          fun line inside => (follows.line line inside).trans (wantedLine_port _ _ _ _).symm
        rw [parts, gpio, exti, asked]
        simp only [wantedPort_line, Machine.Served, forall_prop_of_true none]
        have ports := @ports_iff (Gpio.gpioInit port pin .inFloating m.board.gpio) _
          follows.port port pin.val pin.isLt
        refine and_congr ports ?_
        by_cases same : port.bits.toNat = pin.val
        · rw [if_pos same, same]
          exact lines_iff lines (Nat.lt_of_lt_of_le pin.isLt (by decide)) _ _ _
        · rw [if_neg same]
          exact otherLine_iff lines (Nat.lt_of_lt_of_le pin.isLt (by decide)) (bits_lt port) same
            _ _

theorem Machine.follows_reset : Machine.reset.Follows :=
  {
    port := by decide
    line := by decide
  }

/-- In every state of a sequence of calls from reset the registers hold what has been asked for
last exactly when every call is served.
-/
theorem lineConfig_follows_iff (calls : List Call)
    : (∀ before after, calls = before ++ after → (run before).Follows)
      ↔ ∀ before call after, calls = before ++ call :: after → (run before).Served call :=
  @Replay.every_iff_steps _ _ Machine.step (fun _ => True) Machine.Follows Machine.Served
    (fun _ call _ follows => follows.step_iff call) (fun _ _ _ _ => trivial) .reset trivial
    Machine.follows_reset calls

/-- Enabling the interrupt of pin 5 of port A configures line 0. -/
theorem irqEnable_otherLine
    : ¬(run [.attachIrq 5 1 0x08001000 0, .irqEnable .a 5 true]).Follows := by
  intro follows
  exact absurd (follows.line 0 (by decide)) (by decide)

end At32.LineConfig
