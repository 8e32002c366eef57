import At32.Devices.EepromStore
import At32.Drivers.Gpio

/-! The pins of the I2C master: the operations that the project hands to IIC_Init, on the
registers of port B, act as the two lines of the bus; sessions of the EEPROM driver over them.
-/

namespace At32.SimulationIic

open At24c02 BitField CellStore Gpio I2c Transducer

-----------------------------------------------------------------------------------------
-- The operations on the registers
-----------------------------------------------------------------------------------------

/-- simulation_iic_init -/
def simulationIicInit (s : Board) : Board := gpioInit .b 9 .outPp (gpioInit .b 8 .outPp s)

/-- A write to the alias PBout of a bit of the latch, which takes bit 0 of the value. -/
def pbOut (pin : Nat) (value : UInt8) (g : Gpio.Port) : Gpio.Port :=
  if value.toBitVec.getLsbD 0 then { g with optdt := g.optdt ||| 1#16 <<< pin }
  else { g with optdt := g.optdt &&& ~~~(1#16 <<< pin) }

/-- simulation_sda_out; its two writes are one step. -/
def simulationSdaOut (g : Gpio.Port) : Gpio.Port :=
  { g with ctrlh := g.ctrlh &&& 0xFFFFFF0F#32 ||| 3#32 <<< 4 }

/-- simulation_sda_in; its two writes are one step. -/
def simulationSdaIn (g : Gpio.Port) : Gpio.Port :=
  { g with ctrlh := g.ctrlh &&& 0xFFFFFF0F#32 ||| 8#32 <<< 4 }

/-- simulation_sda -/
def simulationSda (status : UInt8) : Gpio.Port → Gpio.Port := pbOut 9 status

/-- simulation_scl -/
def simulationScl (status : UInt8) : Gpio.Port → Gpio.Port := pbOut 8 status

/-- The statuses that the driver passes. -/
def statusOf (status : Bool) : UInt8 := if status then 1 else 0

/-- The operations of ops, as the driver calls them; delay_time changes no register. -/
def ops : Action → Gpio.Port → Gpio.Port
  | .sdaOut => simulationSdaOut
  | .sdaIn => simulationSdaIn
  | .scl status => simulationScl (statusOf status)
  | .sda status => simulationSda (statusOf status)
  | .delay _ => id

/-- IIC_Init with these operations. -/
def iicInit (s : Board) : Board :=
  let s := simulationIicInit s
  let s := s.modify .b (simulationScl 1)
  s.modify .b (simulationSda 1)

-----------------------------------------------------------------------------------------
-- The bus behind the registers
-----------------------------------------------------------------------------------------

/-- What the registers make of pins 8 and 9, where pin 8 is an output. -/
def pinsOf (g : Gpio.Port) : Pins :=
  {
    scl := g.optdt.getLsbD 8
    out := g.nibble 9 = GpioMode.outPp.code
    latch := g.optdt.getLsbD 9
  }

/-- The board, with a slave and an observer on pins 8 and 9 of port B. -/
structure Wired (τ : Type) where
  board : Board
  slave : τ
  lines : Lines
  events : List Event

variable {τ : Type} (w : Wiring) (slave : Slave τ)

/-- The bus as the slave and the observer have it. -/
def Wired.bus (s : Wired τ) : Bus τ :=
  {
    pins := pinsOf (s.board.gpio .b)
    slave := s.slave
    lines := s.lines
    events := s.events
  }

/-- The observer looks at the lines. -/
def Wired.watch (s : Wired τ) : Wired τ :=
  let seen := s.bus.watch w slave
  { s with lines := seen.lines, events := seen.events }

/-- An operation changes the registers, then the slave moves; the observer looks after each.
-/
def Wired.tick (s : Wired τ) (action : Action) : Wired τ :=
  let s := Wired.watch w slave { s with board := s.board.modify .b (ops action) }
  Wired.watch w slave
    { s with slave := slave.react s.slave s.bus.pins.scl (s.bus.sda w slave) }

/-- The board as what is behind the operations; simulation_sda_read is PBin(9), the level of
the line.
-/
def pinPort : Port.Device Action Bool (Wired τ) :=
  {
    apply := Wired.tick w slave
    look := fun s => s.bus.sda w slave
  }

/-- The board with a new list of events. -/
def Wired.fresh (s : Wired τ) : Wired τ := { s with events := [] }

/-- The pins are the two of the bus, and the rest of the board is as it was before. -/
structure Owned (before now : Board) : Prop where
  scl : (now.gpio .b).nibble 8 = GpioMode.outPp.code
  sda : (now.gpio .b).nibble 9 = GpioMode.outPp.code
    ∨ (now.gpio .b).nibble 9 = GpioMode.ipu.code
  nibbles : ∀ pin < 16,
    pin ≠ 8 → pin ≠ 9 → (now.gpio .b).nibble pin = (before.gpio .b).nibble pin
  latches : ∀ pin < 16,
    pin ≠ 8
    → pin ≠ 9
    → (now.gpio .b).optdt.getLsbD pin = (before.gpio .b).optdt.getLsbD pin
  ports : ∀ port ≠ .b, now.gpio port = before.gpio port
  clocks : now.apb2en = before.apb2en ||| HwGpio.b.enableBit
  extic : now.extic = before.extic

-----------------------------------------------------------------------------------------
-- What an operation changes
-----------------------------------------------------------------------------------------

/-- The field of pin 9 and every other one, after a code is written to it. -/
theorem sdaField_nibble (g : Gpio.Port) (code : BitVec 4) {pin : Nat} (inside : pin < 16)
    : ({ g with ctrlh := g.ctrlh &&& ~~~(0xf#32 <<< 4) ||| code.setWidth 32 <<< 4 }
        : Gpio.Port).nibble pin
      = if pin = 9 then code else g.nibble pin := by
  unfold Gpio.Port.nibble
  by_cases low : pin < 8
  · have apart : pin ≠ 9 := by omega
    rw [if_pos low, if_pos low, if_neg apart]
  · rw [if_neg low, if_neg low]
    by_cases same : pin = 9
    · subst same
      exact extract_insert_self nibbleMask_getLsbD (by decide)
    · rw [if_neg same]
      exact extract_insert_apart nibbleMask_getLsbD (by omega) (by omega)

theorem simulationSdaOut_nibble (g : Gpio.Port) {pin : Nat} (inside : pin < 16)
    : (simulationSdaOut g).nibble pin
      = if pin = 9 then GpioMode.outPp.code else g.nibble pin := by
  rw [← sdaField_nibble g GpioMode.outPp.code inside, simulationSdaOut]
  rfl

theorem simulationSdaIn_nibble (g : Gpio.Port) {pin : Nat} (inside : pin < 16)
    : (simulationSdaIn g).nibble pin
      = if pin = 9 then GpioMode.ipu.code else g.nibble pin := by
  rw [← sdaField_nibble g GpioMode.ipu.code inside, simulationSdaIn]
  rfl

/-- A write to the alias of a bit changes this bit only. -/
theorem pbOut_latch (status : Bool) {pin : Nat} (inside : pin < 16) (g : Gpio.Port) (other : Nat)
    : (pbOut pin (statusOf status) g).optdt.getLsbD other
      = if other = pin then status else g.optdt.getLsbD other := by
  cases status with
  | false => exact getLsbD_clear g.optdt inside other
  | true => exact getLsbD_set g.optdt inside other

theorem pbOut_nibble (pin : Nat) (value : UInt8) (g : Gpio.Port) (other : Nat)
    : (pbOut pin value g).nibble other = g.nibble other := by
  unfold pbOut
  split <;> rfl

/-- What an operation does to the registers is what it does to the two lines. -/
theorem pinsOf_ops (action : Action) (g : Gpio.Port)
    : pinsOf (ops action g) = (pinsOf g).set action := by
  have codes : GpioMode.ipu.code ≠ GpioMode.outPp.code := by decide
  cases action with
  | sdaOut =>
      simp only [pinsOf, ops, Pins.set, simulationSdaOut_nibble g (show 9 < 16 by decide),
        if_true, decide_true]
      rfl
  | sdaIn =>
      simp only [pinsOf, ops, Pins.set, simulationSdaIn_nibble g (show 9 < 16 by decide),
        if_true, codes, decide_false]
      rfl
  | scl status =>
      simp only [pinsOf, ops, Pins.set, simulationScl, pbOut_nibble,
        pbOut_latch status (show 8 < 16 by decide)]
      rfl
  | sda status =>
      simp only [pinsOf, ops, Pins.set, simulationSda, pbOut_nibble,
        pbOut_latch status (show 9 < 16 by decide)]
      rfl
  | delay time => rfl

/-- The configuration of pin 9 alone changes, between the two modes. -/
theorem ops_nibble (action : Action) (g : Gpio.Port) (pin : Nat) (inside : pin < 16)
    : (ops action g).nibble pin
      = match action with
        | .sdaOut => if pin = 9 then GpioMode.outPp.code else g.nibble pin
        | .sdaIn => if pin = 9 then GpioMode.ipu.code else g.nibble pin
        | _ => g.nibble pin := by
  cases action with
  | sdaOut => exact simulationSdaOut_nibble g inside
  | sdaIn => exact simulationSdaIn_nibble g inside
  | scl status | sda status => exact pbOut_nibble _ _ g pin
  | delay time => rfl

/-- The latches of the other pins do not. -/
theorem ops_latch (action : Action) (g : Gpio.Port) {pin : Nat} (notScl : pin ≠ 8)
    (notSda : pin ≠ 9)
    : (ops action g).optdt.getLsbD pin = g.optdt.getLsbD pin := by
  cases action with
  | sdaOut | sdaIn | delay => rfl
  | scl status => exact (pbOut_latch status (by decide) g pin).trans (if_neg notScl)
  | sda status => exact (pbOut_latch status (by decide) g pin).trans (if_neg notSda)

theorem modify_self (s : Board) (port : HwGpio) (change : Gpio.Port → Gpio.Port)
    : (s.modify port change).gpio port = change (s.gpio port) := by
  simp only [Board.modify, Function.update_self]

/-- An operation keeps to its pins. -/
theorem Owned.ops {before now : Board} (owned : Owned before now) (action : Action)
    : Owned before (now.modify .b (ops action)) := by
  have port := modify_self now .b (SimulationIic.ops action)
  have still := ops_nibble action (now.gpio .b)
  refine
    {
      scl := ?_
      sda := ?_
      nibbles := fun pin inside notScl notSda => ?_
      latches := fun pin inside notScl notSda => ?_
      ports := fun other apart => ?_
      clocks := owned.clocks
      extic := owned.extic
    }
  · rw [port, still 8 (by decide), ← owned.scl]
    cases action <;> rfl
  · rw [port, still 9 (by decide)]
    cases action with
    | sdaOut => exact .inl rfl
    | sdaIn => exact .inr rfl
    | scl | sda | delay => exact owned.sda
  · rw [port, still pin inside, ← owned.nibbles pin inside notScl notSda]
    cases action with
    | sdaOut | sdaIn => exact if_neg notSda
    | scl | sda | delay => rfl
  · rw [port, ops_latch action _ notScl notSda]
    exact owned.latches pin inside notScl notSda
  · exact (Function.update_of_ne apart _ _).trans (owned.ports other apart)

-----------------------------------------------------------------------------------------
-- After IIC_Init
-----------------------------------------------------------------------------------------

/-- A pin that becomes an output keeps its latch, and every other pin is as it was. -/
theorem gpioInit_output (port : HwGpio) {pin : Nat} (inside : pin < 16) (s : Board)
    : (∀ other < 16,
          ((gpioInit port pin .outPp s).gpio port).nibble other
            = if other = pin then GpioMode.outPp.code else (s.gpio port).nibble other)
        ∧ ((gpioInit port pin .outPp s).gpio port).optdt = (s.gpio port).optdt := by
  have configured := gpioInit_configured port inside .outPp s
  exact ⟨fun other within => configured.nibble inside within, configured.optdt⟩

/-- The two pins are outputs behind it, and the rest of the board is as it was. -/
theorem simulationIicInit_owned (s : Board) : Owned s (simulationIicInit s) := by
  obtain ⟨sclNibbles, sclLatch⟩ := gpioInit_output .b (show 8 < 16 by decide) s
  obtain ⟨sdaNibbles, sdaLatch⟩ :=
    gpioInit_output .b (show 9 < 16 by decide) (gpioInit .b 8 .outPp s)
  exact
    {
      scl := by
        rw [simulationIicInit, sdaNibbles 8 (by decide), sclNibbles 8 (by decide)]
        rfl
      sda := .inl (sdaNibbles 9 (by decide))
      nibbles := fun pin inside notScl notSda => by
        rw [simulationIicInit, sdaNibbles pin inside, if_neg notSda, sclNibbles pin inside,
          if_neg notScl]
      latches := fun pin _ _ _ => by rw [simulationIicInit, sdaLatch, sclLatch]
      ports := fun port apart =>
        (Function.update_of_ne apart _ _).trans (Function.update_of_ne apart _ _)
      clocks := by
        rw [simulationIicInit, gpioInit, gpioInit, Board.modify, Board.modify, BitVec.or_assoc,
          BitVec.or_self]
      extic := rfl
    }

/-- IIC_Init leaves both lines high, with SDA an output. -/
theorem iicInit_owned (s : Board)
    : Owned s (iicInit s) ∧ pinsOf ((iicInit s).gpio .b) = ⟨true, true, true⟩ := by
  have owned := simulationIicInit_owned s
  refine ⟨(owned.ops (.scl true)).ops (.sda true), ?_⟩
  have outputs : ((simulationIicInit s).gpio .b).nibble 9 = GpioMode.outPp.code :=
    (gpioInit_output .b (by decide) _).1 9 (by decide)
  rw [iicInit, modify_self, modify_self]
  refine (pinsOf_ops (.sda true) _).trans ?_
  rw [show simulationScl 1 = ops (.scl true) from rfl, pinsOf_ops]
  simp only [pinsOf, Pins.set, outputs, decide_true]

-----------------------------------------------------------------------------------------
-- Programs over the pins
-----------------------------------------------------------------------------------------

variable {w slave}

/-- One operation on the registers is one action on the bus. -/
theorem tick_bus (s : Wired τ) (action : Action)
    : (s.tick w slave action).bus = s.bus.tick w slave action := by
  have pins : pinsOf ((s.board.modify .b (ops action)).gpio .b)
      = (pinsOf (s.board.gpio .b)).set action := by rw [modify_self, pinsOf_ops]
  simp only [Wired.tick, Wired.watch, Wired.bus, Bus.tick, Bus.watch, Bus.sda, pins]

/-- Every program over the operations runs on the registers as it does on the bus, and keeps to
the two pins.
-/
theorem pinPort_simulates (before : Board)
    : Port.Simulates (pinPort w slave) (port w slave) (fun s => Owned before s.board)
        Wired.bus where
  keeps _ action owned := owned.ops action
  acts s action _ := tick_bus s action
  shows _ _ := rfl

-----------------------------------------------------------------------------------------
-- Sessions
-----------------------------------------------------------------------------------------

/-- The EEPROM on the pins. -/
def pinDevice (w : Wiring) : ByteDevice (Wired (Prompt Chip)) where
  readbyte s addr := (at24cxxReadbyte addr).run (pinPort w eeprom) s.fresh
  writebyte s addr byte := ((at24cxxWritebyte addr byte).run (pinPort w eeprom) s.fresh).2

/-- On the pins the byte operations are those on the cells too, by the run on the bus. -/
theorem pinDevice_ideal (w : Wiring) (before : Board)
    : (pinDevice w).Ideal
        (fun s => Owned before s.board ∧ s.bus.Idle w eeprom ∧ Standby s.bus)
        (fun s => s.slave.chip.memory) where
  read s addr ready inChip := by
    obtain ⟨owned, ready⟩ := ready
    obtain ⟨byte, bus, still⟩ :=
      (pinPort_simulates before).run (at24cxxReadbyte addr) (s := s.fresh) owned
    obtain ⟨cell, cells, after⟩ := (busDevice_ideal w).read s.bus addr ready inChip
    rw [show (busDevice w).readbyte s.bus addr
      = (at24cxxReadbyte addr).run (port w eeprom) s.fresh.bus from rfl] at cell cells after
    rw [← bus] at cells after
    exact ⟨byte.trans cell, cells, still, after⟩
  write s addr byte ready inChip := by
    obtain ⟨owned, ready⟩ := ready
    obtain ⟨-, bus, still⟩ :=
      (pinPort_simulates before).run (at24cxxWritebyte addr byte) (s := s.fresh) owned
    obtain ⟨cells, after⟩ := (busDevice_ideal w).write s.bus addr byte ready inChip
    rw [show (busDevice w).writebyte s.bus addr byte
      = ((at24cxxWritebyte addr byte).run (port w eeprom) s.fresh.bus).2 from rfl] at cells after
    rw [← bus] at cells after
    exact ⟨cells, still, after⟩

/-- The lines are at rest behind IIC_Init, and the EEPROM is in no frame. -/
structure Started (board : Board) (s : Wired (Prompt Chip)) : Prop where
  board : s.board = iicInit board
  lines : s.lines = { scl := true, sda := true, sampled := s.lines.sampled }
  released : eeprom.level s.slave = true
  standby : Standby s.bus

theorem Started.idle {board : Board} {s : Wired (Prompt Chip)} (started : Started board s)
    : s.bus.Idle w eeprom := by
  have pins : s.bus.pins = ⟨true, true, true⟩ := by
    rw [Wired.bus, started.board]
    exact (iicInit_owned board).2
  have lines : s.bus.lines
      = { scl := true, sda := w.level true true true, sampled := s.lines.sampled } := by
    rw [w.released]
    exact started.lines
  exact
    ⟨s.lines.sampled, true,
      {
        lines := lines
        high := rfl
        pins := pins
        level := started.released
        events := rfl
      }⟩

/-- In every session of the driver behind IIC_Init, on whatever board: each call ends, reads
show the bytes that were written last, and the chip is left with them; the bus is idle again.
Of the board the clock of port B and its pins 8 and 9 have changed, and nothing else.
-/
theorem session_overPins (w : Wiring) (board : Board) {s : Wired (Prompt Chip)}
    (started : Started board s) (calls : List StoreCall) (legal : ∀ call ∈ calls, call.Legal)
    : ∃ t answers,
        trace (StoreCall.serve (pinDevice w)) s calls = .ok (t, answers)
        ∧ Owned board t.board
        ∧ t.bus.Idle w eeprom
        ∧ Standby t.bus
        ∧ t.slave.chip.memory = found s.slave.chip.memory (calls.map StoreCall.meaning)
        ∧ (∀ before addr bufnum later,
          calls = before ++ .at24cxxRead addr bufnum :: later
          → answers[before.length]?
            = some ((List.range bufnum.toNat).map fun k =>
                found s.slave.chip.memory (before.map StoreCall.meaning)
                  (addr.toUInt8 + UInt8.ofNat k)))
        ∧ ∀ before later,
          calls = before ++ .at24cxxCheck :: later → answers[before.length]? = some [1] := by
  have owned : Owned board s.board := by
    rw [started.board]
    exact (iicInit_owned board).1
  obtain ⟨t, answers, served, done, answered⟩ :=
    storeCall_session (pinDevice_ideal w board) ⟨owned, started.idle, started.standby⟩ legal
  exact ⟨t, answers, served, done.1, done.2.1, done.2.2, answered⟩

/-- A blank EEPROM on a board behind a reset and IIC_Init. -/
def blankBoard : Wired (Prompt Chip) :=
  {
    board := iicInit resetBoard
    slave := blank.slave
    lines := blank.lines
    events := []
  }

theorem blankBoard_started : Started resetBoard blankBoard where
  board := rfl
  lines := rfl
  released := rfl
  standby := { phase := rfl, lines := .refl _ }

theorem session_overPins_overEnd
    : ∃ t answers,
        trace (StoreCall.serve (pinDevice wiredAnd)) blankBoard overEndCalls = .ok (t, answers)
        ∧ Owned resetBoard t.board
        ∧ t.bus.Idle wiredAnd eeprom
        ∧ Standby t.bus
        ∧ t.slave.chip.memory = found (fun _ => 0xFF) (overEndCalls.map StoreCall.meaning)
        ∧ (∀ before addr bufnum later,
          overEndCalls = before ++ .at24cxxRead addr bufnum :: later
          → answers[before.length]?
            = some ((List.range bufnum.toNat).map fun k =>
                found (fun _ => 0xFF) (before.map StoreCall.meaning)
                  (addr.toUInt8 + UInt8.ofNat k)))
        ∧ ∀ before later,
          overEndCalls = before ++ .at24cxxCheck :: later
          → answers[before.length]? = some [1] :=
  session_overPins wiredAnd resetBoard blankBoard_started overEndCalls
    (by simp [overEndCalls, StoreCall.Legal, EEPROM_ENDADDR])

end At32.SimulationIic
