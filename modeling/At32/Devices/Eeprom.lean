import At32.Devices.At24c02
import At32.Lib.I2cSlave
import Mathlib.Logic.Function.Basic

/-! The EEPROM on the other end of the bus, bit by bit: the byte operations write exactly
one of its cells and read one.
-/

namespace At32.At24c02

open GpioIic I2c Port

/-- The 24C02 between two events of the bus. The bytes of a page that have been received
and the cells that they are for are kept until the STOP.
-/
structure Chip where
  memory : UInt8 → UInt8
  pointer : UInt8
  addressed : Bool
  page : List (UInt8 × UInt8)
  phase : Phase

namespace Chip

/-- The first byte behind the address of the device is that of a cell, the others are data.
-/
def received (c : Chip) (byte : UInt8) : Chip :=
  if c.addressed then
    { c with
      page := c.page ++ [(c.pointer, byte)]
      -- a page of eight cells rolls over
      pointer := (c.pointer &&& 0xF8) ||| ((c.pointer + 1) &&& 0x07) }
  else
    { c with pointer := byte, addressed := true }

/-- What an event does besides the turn on SDA. -/
def take (c : Chip) : Event → Chip
  | .start => { c with addressed := false, page := [] }
  | .stop =>
      { c with
        memory := c.page.foldl (fun memory (cell, byte) => Function.update memory cell byte)
          c.memory
        page := [] }
  | .bit level =>
      match c.phase with
      | .fromMaster false bits =>
          if bits.length < 7 then c else c.received (byteOf (bits ++ [level]))
      | .masterAck => { c with pointer := c.pointer + 1 }
      | _ => c

def next (c : Chip) (event : Event) : Chip :=
  { c.take event with phase := c.phase.next deviceAddress event }

/-- The level that it puts on SDA. -/
def level (c : Chip) : Bool :=
  match c.phase with
  | .ack _ => false
  | .fromSlave bits => (byteBits (c.memory c.pointer)).getD bits.length true
  | _ => true

/-- The chip follows the protocol under its address, by cases on the phase. -/
def peer : Peer Chip deviceAddress where
  next := next
  level := level
  phase := phase
  follows _ _ := rfl
  drives c required asks := by
    rw [level]
    cases turn : c.phase with
    | idle | fromMaster first bits | ack reading | masterAck =>
        rw [turn] at asks
        exact Option.some.inj asks
    | fromSlave bits =>
        rw [turn] at asks
        cases asks

/-- From standby it keeps to the protocol. -/
theorem obeys {c : Chip} (standby : c.phase = .idle)
    : Obeys deviceAddress (presented next level c) :=
  peer.obeys standby

/-- The address of the device with either direction is acknowledged. -/
theorem foldl_write {c : Chip} (turn : c.phase = .fromMaster true [])
    : (transfer 0xA0 true).foldl next c = { c with phase := .fromMaster false [] } := by
  obtain ⟨memory, pointer, addressed, page, phase⟩ := c
  subst turn
  rfl

theorem foldl_read {c : Chip} (turn : c.phase = .fromMaster true [])
    : (transfer 0xA1 true).foldl next c = { c with phase := .fromSlave [] } := by
  obtain ⟨memory, pointer, addressed, page, phase⟩ := c
  subst turn
  rfl

/-- A byte behind it is received and acknowledged. -/
theorem foldl_byte {c : Chip} (byte : UInt8) (turn : c.phase = .fromMaster false [])
    : (transfer byte true).foldl next c
      = { c.received byte with phase := .fromMaster false [] } := by
  have whole : (transfer byte true).foldl next c
      = { c.received (byteOf (byteBits byte)) with phase := .fromMaster false [] } := by
    obtain ⟨memory, pointer, addressed, page, phase⟩ := c
    subst turn
    cases addressed <;> rfl
  rw [whole, byteOf_byteBits]

/-- A byte of its own that the master does not acknowledge ends the turn. -/
theorem foldl_sent {c : Chip} (turn : c.phase = .fromSlave []) (byte : UInt8)
    : (transfer byte false).foldl next c
      = { c with pointer := c.pointer + 1, phase := .idle } := by
  obtain ⟨memory, pointer, addressed, page, phase⟩ := c
  subst turn
  rfl

theorem foldl_start (c : Chip)
    : [.start].foldl next c
      = { c with addressed := false, page := [], phase := .fromMaster true [] } := by
  obtain ⟨memory, pointer, addressed, page, phase⟩ := c
  cases phase <;> rfl

/-- The write changes the one cell. -/
theorem foldl_writeTrace (c : Chip) (cell byte : UInt8)
    : ((writeTrace cell byte).foldl next c).memory = Function.update c.memory cell byte
      ∧ ((writeTrace cell byte).foldl next c).phase = .idle := by
  rw [writeTrace, List.foldl_append, List.foldl_append, List.foldl_append, List.foldl_append,
    foldl_start c, foldl_write rfl, foldl_byte cell rfl, foldl_byte byte rfl]
  exact ⟨rfl, rfl⟩

/-- The read selects the cell. -/
theorem foldl_readRequest (c : Chip) (cell : UInt8)
    : (readRequest cell).foldl next c
      = { c with pointer := cell, addressed := false, page := [], phase := .fromSlave [] } := by
  rw [readRequest, List.foldl_append, List.foldl_append, List.foldl_append, List.foldl_append,
    foldl_start c, foldl_write rfl, foldl_byte cell rfl, foldl_start, foldl_read rfl]
  rfl

/-- The byte that it sends is that of the cell. -/
theorem driven_cell (c : Chip) (turn : c.phase = .fromSlave [])
    : driven (presented next level c) 8 [] = byteBits (c.memory c.pointer) := by
  obtain ⟨memory, pointer, addressed, page, phase⟩ := c
  subst turn
  rfl

/-- The read changes no cell. -/
theorem foldl_readTrace (c : Chip) (cell byte : UInt8)
    : ((readTrace cell byte).foldl next c).memory = c.memory
      ∧ ((readTrace cell byte).foldl next c).phase = .idle := by
  rw [readTrace, List.foldl_append, List.foldl_append, foldl_readRequest, foldl_sent rfl]
  exact ⟨rfl, rfl⟩

end Chip

-----------------------------------------------------------------------------------------
-- The byte operations
-----------------------------------------------------------------------------------------

/-- The bus after a write, with the events of the call. -/
def written {τ : Type} (w : Wiring) (slave : Slave τ) (addr : UInt32) (buf : UInt8) (s : Bus τ)
    : Bus τ :=
  ((at24cxxWritebyte addr buf).run (port w slave) s.fresh).2

/-- The byte read and the bus after it, with the events of the call. -/
def readOut {τ : Type} (w : Wiring) (slave : Slave τ) (addr : UInt32) (s : Bus τ)
    : UInt8 × Bus τ :=
  (at24cxxReadbyte addr).run (port w slave) s.fresh

/-- In this run the slave presents levels of the protocol, and moves SDA only while SCL is
low.
-/
def IdealIn {τ ρ : Type} (w : Wiring) (slave : Slave τ) (drive : List Event → Bool)
    (program : Gpio ρ) (s : Bus τ)
    : Prop :=
  Obeys deviceAddress drive ∧ program.Meets (port w slave) (IdealTick w slave drive) s.fresh

/-- The EEPROM as a slave. -/
abbrev eeprom : Slave (Prompt Chip) := prompt Chip.next Chip.level

/-- The EEPROM has seen what is on the lines and is in no frame. -/
structure Standby (s : Bus (Prompt Chip)) : Prop where
  phase : s.slave.chip.phase = .idle
  lines : s.slave.lines.Agree s.lines

/-- On an idle bus it is attached from its own state on. -/
theorem Standby.attached {w : Wiring} {s : Bus (Prompt Chip)} (standby : Standby s)
    (idle : s.Idle w eeprom)
    : Attached Chip.next Chip.level s.slave.chip s.fresh :=
  .of_idle idle standby.lines

/-- The EEPROM is ideal in every run from standby. -/
theorem Standby.idealIn {w : Wiring} {s : Bus (Prompt Chip)} (standby : Standby s)
    (idle : s.Idle w eeprom) {ρ : Type} (program : Gpio ρ)
    : IdealIn w eeprom (presented Chip.next Chip.level s.slave.chip) program s :=
  ⟨Chip.obeys standby.phase, ((standby.attached idle).meets program).1⟩

section Traces

variable {τ : Type} {w : Wiring} {slave : Slave τ} {drive : List Event → Bool} {s : Bus τ}

theorem written_trace (idle : s.Idle w slave) {addr : UInt32} {buf : UInt8}
    (ideal : IdealIn w slave drive (at24cxxWritebyte addr buf) s)
    : (written w slave addr buf s).events = writeTrace addr.toUInt8 buf
      ∧ (written w slave addr buf s).Idle w slave := by
  obtain ⟨sampled, out, here⟩ := idle.fresh
  have after := at24cxxWritebyte_spec ideal.1 addr buf s.fresh here ideal.2
  exact ⟨after.events, after.idle⟩

theorem readOut_trace (idle : s.Idle w slave) {addr : UInt32}
    (ideal : IdealIn w slave drive (at24cxxReadbyte addr) s)
    : byteBits (readOut w slave addr s).1 = driven drive 8 (readRequest addr.toUInt8)
      ∧ (readOut w slave addr s).2.events
        = readTrace addr.toUInt8 (readOut w slave addr s).1
      ∧ (readOut w slave addr s).2.Idle w slave := by
  obtain ⟨sampled, out, here⟩ := idle.fresh
  obtain ⟨bits, after⟩ := at24cxxReadbyte_spec ideal.1 addr s.fresh here ideal.2
  exact ⟨bits, after.events, after.idle⟩

end Traces

/-- The state of the EEPROM after a run from standby is that of its trace. -/
theorem Standby.chip {w : Wiring} {s : Bus (Prompt Chip)} (standby : Standby s)
    (idle : s.Idle w eeprom) {ρ : Type} (program : Gpio ρ)
    : (program.run (port w eeprom) s.fresh).2.slave.chip
        = (program.run (port w eeprom) s.fresh).2.events.foldl Chip.next s.slave.chip
      ∧ (program.run (port w eeprom) s.fresh).2.slave.lines.Agree
          (program.run (port w eeprom) s.fresh).2.lines := by
  have attached := ((standby.attached idle).meets (w := w) program).2
  exact ⟨attached.chip, attached.lines⟩

theorem written_eeprom {w : Wiring} {s : Bus (Prompt Chip)} (idle : s.Idle w eeprom)
    (standby : Standby s) (addr : UInt32) (buf : UInt8)
    : (written w eeprom addr buf s).slave.chip.memory
        = Function.update s.slave.chip.memory addr.toUInt8 buf
      ∧ (written w eeprom addr buf s).Idle w eeprom
      ∧ Standby (written w eeprom addr buf s) := by
  obtain ⟨events, still⟩ := written_trace idle (standby.idealIn idle _)
  obtain ⟨chip, lines⟩ := standby.chip idle (at24cxxWritebyte addr buf)
  obtain ⟨memory, phase⟩ := s.slave.chip.foldl_writeTrace addr.toUInt8 buf
  rw [written] at events
  rw [events] at chip
  rw [← chip] at memory phase
  exact ⟨memory, still, { phase := phase, lines := lines }⟩

theorem readOut_eeprom {w : Wiring} {s : Bus (Prompt Chip)} (idle : s.Idle w eeprom)
    (standby : Standby s) (addr : UInt32)
    : (readOut w eeprom addr s).1 = s.slave.chip.memory addr.toUInt8
      ∧ (readOut w eeprom addr s).2.slave.chip.memory = s.slave.chip.memory
      ∧ (readOut w eeprom addr s).2.Idle w eeprom
      ∧ Standby (readOut w eeprom addr s).2 := by
  obtain ⟨bits, events, still⟩ := readOut_trace idle (standby.idealIn idle _)
  obtain ⟨chip, lines⟩ := standby.chip idle (at24cxxReadbyte addr)
  obtain ⟨memory, phase⟩ :=
    s.slave.chip.foldl_readTrace addr.toUInt8 (readOut w eeprom addr s).1
  rw [readOut] at events
  rw [events] at chip
  rw [readOut, ← chip] at memory phase
  refine ⟨byteBits_inj ?_, memory, still, { phase := phase, lines := lines }⟩
  rw [bits, driven_presented, Chip.foldl_readRequest, Chip.driven_cell _ rfl]

/-- The byte operations on an idle bus. With every slave that is ideal in the run, the events
of a write are START, 0xA0, the address and the byte, each acknowledged, and STOP; those of a
read are START, 0xA0 and the address, START, 0xA1, the byte of the slave, not acknowledged,
and STOP. A change of SDA while SCL is high would be a further START or STOP. On the EEPROM
a write changes exactly the cell (addr) modulo 256, and a read returns it and changes none.
The bus is idle again.
-/
theorem at24cxx_bytes (w : Wiring) (addr : UInt32) (buf : UInt8)
    : (∀ {τ : Type} (slave : Slave τ) (drive : List Event → Bool) (s : Bus τ),
        s.Idle w slave
        → (IdealIn w slave drive (at24cxxWritebyte addr buf) s
            → (written w slave addr buf s).events = writeTrace addr.toUInt8 buf
              ∧ (written w slave addr buf s).Idle w slave)
          ∧ (IdealIn w slave drive (at24cxxReadbyte addr) s
            → byteBits (readOut w slave addr s).1 = driven drive 8 (readRequest addr.toUInt8)
              ∧ (readOut w slave addr s).2.events
                = readTrace addr.toUInt8 (readOut w slave addr s).1
              ∧ (readOut w slave addr s).2.Idle w slave))
      ∧ ∀ s : Bus (Prompt Chip),
        s.Idle w eeprom
        → Standby s
        → ((written w eeprom addr buf s).slave.chip.memory
              = Function.update s.slave.chip.memory addr.toUInt8 buf
            ∧ (written w eeprom addr buf s).Idle w eeprom
            ∧ Standby (written w eeprom addr buf s))
          ∧ (readOut w eeprom addr s).1 = s.slave.chip.memory addr.toUInt8
          ∧ (readOut w eeprom addr s).2.slave.chip.memory = s.slave.chip.memory
          ∧ (readOut w eeprom addr s).2.Idle w eeprom
          ∧ Standby (readOut w eeprom addr s).2 := by
  constructor
  · intro τ slave drive s idle
    exact ⟨written_trace idle, readOut_trace idle⟩
  · intro s idle standby
    exact ⟨written_eeprom idle standby addr buf, readOut_eeprom idle standby addr⟩

/-- SDA is low when one side pulls it low. -/
def wiredAnd : Wiring :=
  {
    level := fun _ latch slave => latch && slave
    released := fun latch => Bool.and_true latch
    input := fun slave => Bool.true_and slave
  }

/-- An idle bus with a blank EEPROM. -/
def blank : Bus (Prompt Chip) :=
  {
    pins := { scl := true, out := true, latch := true }
    slave :=
      {
        lines := { scl := true, sda := true, sampled := none }
        chip :=
          {
            memory := fun _ => 0xFF
            pointer := 0
            addressed := false
            page := []
            phase := .idle
          }
        out := true
      }
    lines := { scl := true, sda := true, sampled := none }
    events := []
  }

theorem blank_idle : blank.Idle wiredAnd eeprom :=
  ⟨none, true, { lines := rfl, high := rfl, pins := rfl, level := rfl, events := rfl }⟩

theorem blank_standby : Standby blank := { phase := rfl, lines := .refl _ }

/-- There, a write to the address 0x105 is one to the cell 5. -/
theorem at24cxx_bytes_blank
    : (written wiredAnd eeprom 0x105 0x5A blank).events = writeTrace 0x05 0x5A
      ∧ (written wiredAnd eeprom 0x105 0x5A blank).slave.chip.memory
        = Function.update (fun _ => 0xFF) 0x05 0x5A
      ∧ (readOut wiredAnd eeprom 0x105 blank).1 = 0xFF := by
  obtain ⟨traces, operations⟩ := at24cxx_bytes wiredAnd 0x105 0x5A
  obtain ⟨⟨memory, _⟩, temp, _⟩ := operations blank blank_idle blank_standby
  have trace := (traces eeprom _ blank blank_idle).1 (blank_standby.idealIn blank_idle _)
  exact ⟨trace.1, memory, temp⟩

end At32.At24c02
