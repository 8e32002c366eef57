import At32.Lib.Port
import Mathlib.Data.List.Basic

/-! The two lines of an I2C bus between one master, which sets its pins action by action,
and one slave, which may move after every action: what an observer of the lines decodes, and
what a slave that keeps to the protocol drives.
-/

namespace I2c

-----------------------------------------------------------------------------------------
-- What an observer of the lines decodes
-----------------------------------------------------------------------------------------

inductive Event
  | start
  | stop
  | bit (level : Bool)
  deriving DecidableEq, Repr

/-- The levels seen last, and the level of SDA at the rise of SCL while no condition has
come since.
-/
structure Lines where
  scl : Bool
  sda : Bool
  sampled : Option Bool
  deriving DecidableEq, Repr

/-- SDA that changes while SCL is high is a START or a STOP; a bit is complete when SCL falls.
-/
def Lines.observe (l : Lines) (scl sda : Bool) : Lines × Option Event :=
  match l.scl, scl with
  | false, false => ({ l with sda := sda }, none)
  | false, true => ({ scl := true, sda := sda, sampled := some sda }, none)
  | true, false => ({ scl := false, sda := sda, sampled := none }, l.sampled.map .bit)
  | true, true =>
      if l.sda = sda then (l, none)
      else
        ({ scl := true, sda := sda, sampled := none }, some (if sda then .stop else .start))

/-- The bits of a byte, the highest first. -/
def byteBits (byte : UInt8) : List Bool := (List.range 8).map byte.toBitVec.getMsbD

/-- A byte with one more bit shifted in. -/
def shiftIn (byte : UInt8) (level : Bool) : UInt8 :=
  if level then byte <<< 1 + 1 else byte <<< 1

/-- The byte of bits that come the highest first. -/
def byteOf (bits : List Bool) : UInt8 := bits.foldl shiftIn 0

/-- The events of a byte and the bit that acknowledges it. -/
def transfer (byte : UInt8) (acknowledged : Bool) : List Event :=
  (byteBits byte).map .bit ++ [.bit (!acknowledged)]

@[simp] theorem byteBits_length (byte : UInt8) : (byteBits byte).length = 8 := by
  simp [byteBits]

/-- Eight bits shifted in are the bits of the byte, by cases on each. -/
theorem byteBits_byteOf {bits : List Bool} (eight : bits.length = 8)
    : byteBits (byteOf bits) = bits := by
  obtain ⟨b7, b6, b5, b4, b3, b2, b1, b0, rfl⟩
      : ∃ b7 b6 b5 b4 b3 b2 b1 b0, bits = [b7, b6, b5, b4, b3, b2, b1, b0] := by
    match bits, eight with
    | [b7, b6, b5, b4, b3, b2, b1, b0], _ => exact ⟨b7, b6, b5, b4, b3, b2, b1, b0, rfl⟩
  revert b7 b6 b5 b4 b3 b2 b1 b0
  decide

theorem byteBits_inj {byte other : UInt8} (same : byteBits byte = byteBits other)
    : byte = other := by
  rw [byteBits, byteBits, List.map_inj_left] at same
  rw [← UInt8.toBitVec_inj]
  apply BitVec.eq_of_getMsbD_eq
  intro i inside
  exact same i (List.mem_range.mpr inside)

/-- A byte is what its bits give when they are shifted in. -/
theorem byteOf_byteBits (byte : UInt8) : byteOf (byteBits byte) = byte :=
  byteBits_inj (byteBits_byteOf (byteBits_length byte))

-----------------------------------------------------------------------------------------
-- The protocol as the slave of one address sees it
-----------------------------------------------------------------------------------------

/-- Whose turn it is on SDA, with the bits of the byte so far. -/
inductive Phase
  | idle
  | fromMaster (first : Bool) (bits : List Bool)
  | ack (reading : Bool)
  | fromSlave (bits : List Bool)
  | masterAck
  deriving DecidableEq, Repr

/-- The first byte of a frame is an address of seven bits and the direction. -/
def Phase.next (address : List Bool) : Phase → Event → Phase
  | _, .start => .fromMaster true []
  | _, .stop => .idle
  | .idle, .bit _ => .idle
  | .fromMaster first bits, .bit level =>
      if bits.length < 7 then .fromMaster first (bits ++ [level])
      else if first then
        if bits = address then .ack level else .idle
      else .ack false
  | .ack reading, .bit _ => if reading then .fromSlave [] else .fromMaster false []
  | .fromSlave bits, .bit level =>
      if bits.length < 7 then .fromSlave (bits ++ [level]) else .masterAck
  | .masterAck, .bit level => if level then .idle else .fromSlave []

/-- The phase after these events on an idle bus. -/
def phase (address : List Bool) (events : List Event) : Phase :=
  events.foldl (Phase.next address) .idle

/-- The level at which the slave keeps SDA for the next bit; a byte of its own is free. -/
def Phase.required : Phase → Option Bool
  | .idle | .fromMaster .. | .masterAck => some true
  | .ack _ => some false
  | .fromSlave _ => none

/-- A slave that presents these levels, one for the events so far, keeps to the protocol. -/
def Obeys (address : List Bool) (drive : List Event → Bool) : Prop :=
  ∀ events level, (phase address events).required = some level → drive events = level

/-- The levels that a slave presents for the next bits, each one seen by it. -/
def driven (drive : List Event → Bool) : Nat → List Event → List Bool
  | 0, _ => []
  | count + 1, events =>
      drive events :: driven drive count (events ++ [.bit (drive events)])

theorem driven_length (drive : List Event → Bool) (count : Nat) (events : List Event)
    : (driven drive count events).length = count := by
  induction count generalizing events with
  | zero => rfl
  | succ count ih => rw [driven, List.length_cons, ih]

theorem phase_append (address : List Bool) (events more : List Event)
    : phase address (events ++ more) = more.foldl (Phase.next address) (phase address events) :=
  List.foldl_append

variable {address : List Bool} {events : List Event}

/-- A START begins a frame in every phase. -/
theorem phase_start : phase address (events ++ [.start]) = .fromMaster true [] := by
  rw [phase_append, List.foldl_cons, List.foldl_nil]
  cases phase address events <;> rfl

/-- A STOP ends it in every phase. -/
theorem phase_stop : phase address (events ++ [.stop]) = .idle := by
  rw [phase_append, List.foldl_cons, List.foldl_nil]
  cases phase address events <;> rfl

/-- The address of the slave is for the slave to acknowledge, with the direction behind it.
-/
theorem phase_address {control : UInt8} (turn : phase address events = .fromMaster true [])
    (same : (byteBits control).take 7 = address)
    : phase address (events ++ (byteBits control).map .bit)
      = .ack (control.toBitVec.getMsbD 7) := by
  rw [phase_append, turn, ← same]
  exact if_pos rfl

/-- A frame for another address is none of the slave's. -/
theorem phase_other {control : UInt8} (turn : phase address events = .fromMaster true [])
    (other : (byteBits control).take 7 ≠ address)
    : phase address (events ++ (byteBits control).map .bit) = .idle := by
  rw [phase_append, turn]
  exact if_neg other

/-- Every byte behind the address is for the slave to acknowledge too. -/
theorem phase_data {byte : UInt8} (turn : phase address events = .fromMaster false [])
    : phase address (events ++ (byteBits byte).map .bit) = .ack false := by
  rw [phase_append, turn]
  rfl

theorem phase_acknowledged (level : Bool) {reading : Bool}
    (turn : phase address events = .ack reading)
    : phase address (events ++ [.bit level])
      = if reading then .fromSlave [] else .fromMaster false [] := by
  rw [phase_append, turn]
  rfl

/-- A byte of the slave is for the master to acknowledge. -/
theorem phase_driven (drive : List Event → Bool) (turn : phase address events = .fromSlave [])
    : phase address (events ++ (driven drive 8 events).map .bit) = .masterAck := by
  rw [phase_append, turn]
  rfl

/-- A byte that the master does not acknowledge is the last one. -/
theorem phase_refused (turn : phase address events = .masterAck)
    : phase address (events ++ [.bit true]) = .idle := by
  rw [phase_append, turn]
  rfl

-----------------------------------------------------------------------------------------
-- The bus
-----------------------------------------------------------------------------------------

/-- The pins of the master: the level of SCL, whether SDA is an output, and its latch. -/
structure Pins where
  scl : Bool
  out : Bool
  latch : Bool
  deriving DecidableEq, Repr

inductive Action
  | sdaOut
  | sdaIn
  | scl (status : Bool)
  | sda (status : Bool)
  | delay (time : Nat)
  deriving DecidableEq, Repr

def Pins.set (pins : Pins) : Action → Pins
  | .sdaOut => { pins with out := true }
  | .sdaIn => { pins with out := false }
  | .scl status => { pins with scl := status }
  | .sda status => { pins with latch := status }
  | .delay _ => pins

/-- The level of SDA: with the slave released, that of the master's output; with the master
an input pulled up, that of the slave. Nothing is assumed where both drive.
-/
structure Wiring where
  level : (out latch slave : Bool) → Bool
  released : ∀ latch, level true latch true = latch
  input : ∀ slave, level false true slave = slave

/-- A slave: the level it puts on SDA (high when released), and how it moves on the levels
of SCL and SDA that it sees.
-/
structure Slave (τ : Type) where
  level : τ → Bool
  react : τ → (scl sda : Bool) → τ

/-- The bus with an observer that keeps the events. -/
structure Bus (τ : Type) where
  pins : Pins
  slave : τ
  lines : Lines
  events : List Event

variable {τ : Type} (w : Wiring) (slave : Slave τ)

def Bus.sda (s : Bus τ) : Bool := w.level s.pins.out s.pins.latch (slave.level s.slave)

/-- The level of SDA when the master has acted and the slave has not moved yet. -/
def Bus.sdaAfter (s : Bus τ) (action : Action) : Bool :=
  w.level (s.pins.set action).out (s.pins.set action).latch (slave.level s.slave)

/-- The observer looks at the lines. -/
def Bus.watch (s : Bus τ) : Bus τ :=
  let (lines, event) := s.lines.observe s.pins.scl (s.sda w slave)
  { s with lines := lines, events := s.events ++ event.toList }

/-- The master acts, then the slave moves; the observer looks after each. -/
def Bus.tick (s : Bus τ) (action : Action) : Bus τ :=
  let s := Bus.watch w slave { s with pins := s.pins.set action }
  Bus.watch w slave { s with slave := slave.react s.slave s.pins.scl (s.sda w slave) }

/-- The bus as what is behind the pins of the master. -/
def port : Port.Device Action Bool (Bus τ) :=
  {
    apply := Bus.tick w slave
    look := Bus.sda w slave
  }

/-- The slave moves SDA only while SCL is low, and has its level ready when SCL rises. -/
structure IdealTick (drive : List Event → Bool) (s : Bus τ) (action : Action) : Prop where
  steady : (s.pins.set action).scl = true
    → slave.level (s.tick w slave action).slave = slave.level s.slave
  ready : s.pins.scl = false
    → (s.pins.set action).scl = true
    → slave.level s.slave = drive s.events

/-- SCL is low. -/
structure Low (events : List Event) (pins : Pins) (s : Bus τ) : Prop where
  scl : s.lines.scl = false
  low : pins.scl = false
  pins : s.pins = pins
  events : s.events = events

/-- SCL is high, with the slave at a level. -/
structure High (events : List Event) (sampled : Option Bool) (pins : Pins) (level : Bool)
    (s : Bus τ)
    : Prop where
  lines : s.lines
    = { scl := true, sda := w.level pins.out pins.latch level, sampled := sampled }
  high : pins.scl = true
  pins : s.pins = pins
  level : slave.level s.slave = level
  events : s.events = events

/-- The bus with a new list of events. -/
def Bus.fresh (s : Bus τ) : Bus τ := { s with events := [] }

/-- The bus is idle: the master leaves both lines high and the slave has released SDA. -/
def Bus.Idle (s : Bus τ) : Prop :=
  ∃ sampled out, High w slave s.events sampled ⟨true, out, true⟩ true s

-----------------------------------------------------------------------------------------
-- How an action moves the bus
-----------------------------------------------------------------------------------------

variable {w slave} {drive : List Event → Bool} {s : Bus τ} {sampled : Option Bool}
  {pins : Pins} {level : Bool} {action : Action}

theorem Bus.Idle.fresh (idle : s.Idle w slave)
    : ∃ sampled out, High w slave [] sampled ⟨true, out, true⟩ true s.fresh := by
  obtain ⟨sampled, out, here⟩ := idle
  refine ⟨sampled, out, ?_⟩
  exact
    {
      lines := here.lines
      high := rfl
      pins := here.pins
      level := here.level
      events := rfl
    }

/-- While SCL stays low the slave may do anything. -/
theorem Low.stay (here : Low events pins s) (low : (pins.set action).scl = false)
    : Low events (pins.set action) (s.tick w slave action) := by
  obtain ⟨scl, _, rfl, rfl⟩ := here
  refine { scl := ?_, low := low, pins := ?_, events := ?_ } <;>
    simp [Bus.tick, Bus.watch, Lines.observe, scl, low]

/-- Lines seen with SCL high are the last ones seen. -/
theorem Lines.observe_high (l : Lines) (sda : Bool)
    : (l.observe true sda).1.scl = true ∧ (l.observe true sda).1.sda = sda := by
  cases scl : l.scl with
  | false => simp [Lines.observe, scl]
  | true =>
      by_cases same : l.sda = sda
      · simp [Lines.observe, scl, same]
      · simp [Lines.observe, scl, same]

/-- Seeing them again changes nothing. -/
theorem Lines.observe_same {l : Lines} {sda : Bool} (scl : l.scl = true) (same : l.sda = sda)
    : l.observe true sda = (l, none) := by
  simp [Lines.observe, scl, same]

theorem Lines.observe_rise {l : Lines} (scl : l.scl = false) (sda : Bool)
    : l.observe true sda = ({ scl := true, sda := sda, sampled := some sda }, none) := by
  simp [Lines.observe, scl]

theorem Lines.observe_change {l : Lines} {sda : Bool} (scl : l.scl = true)
    (changed : l.sda = !sda)
    : l.observe true sda
      = ({ scl := true, sda := sda, sampled := none },
        some (if sda then .stop else .start)) := by
  simp [Lines.observe, scl, changed]

/-- While SCL is high, a tick is what the observer sees of the action of the master. -/
theorem Bus.tick_high (high : (s.pins.set action).scl = true)
    (steady : slave.level (s.tick w slave action).slave = slave.level s.slave) {seen : Lines}
    {event : Option Event}
    (observed : s.lines.observe true (s.sdaAfter w slave action) = (seen, event))
    : (s.tick w slave action).pins = s.pins.set action
      ∧ (s.tick w slave action).lines = seen
      ∧ (s.tick w slave action).events = s.events ++ event.toList := by
  have last := s.lines.observe_high (s.sdaAfter w slave action)
  rw [observed] at last
  have again := Lines.observe_same last.1 last.2
  rw [Bus.sdaAfter] at observed again
  simp only [Bus.tick, Bus.watch, Bus.sda, high, observed] at steady ⊢
  rw [steady, again]
  simp

/-- When SCL rises, the level of SDA is sampled with the slave at its level. -/
theorem Low.rise (here : Low events pins s) (high : (pins.set action).scl = true)
    (ideal : IdealTick w slave drive s action)
    : High w slave events
        (some (w.level (pins.set action).out (pins.set action).latch (drive events)))
        (pins.set action) (drive events) (s.tick w slave action) := by
  obtain ⟨scl, low, rfl, rfl⟩ := here
  have ready := ideal.ready low high
  have steady := ideal.steady high
  obtain ⟨pins, lines, events⟩ := Bus.tick_high high steady (Lines.observe_rise scl _)
  rw [Bus.sdaAfter, ready] at lines
  rw [ready] at steady
  refine { lines := lines, high := high, pins := pins, level := steady, events := ?_ }
  rw [events]
  simp

/-- While SCL stays high and the line does not change, nothing happens. -/
theorem High.stay (here : High w slave events sampled pins level s)
    (high : (pins.set action).scl = true)
    (same
      : w.level (pins.set action).out (pins.set action).latch level
        = w.level pins.out pins.latch level)
    (ideal : IdealTick w slave drive s action)
    : High w slave events sampled (pins.set action) level (s.tick w slave action) := by
  obtain ⟨lines, _, rfl, rfl, rfl⟩ := here
  have steady := ideal.steady high
  have seen : s.lines.sda = s.sdaAfter w slave action := by rw [lines, Bus.sdaAfter, same]
  obtain ⟨pins, unchanged, events⟩ :=
    Bus.tick_high high steady (Lines.observe_same (by rw [lines]) seen)
  refine { lines := ?_, high := high, pins := pins, level := steady, events := ?_ }
  · rw [unchanged, lines, same]
  · rw [events]
    simp

/-- A line that changes while SCL is high is a START or a STOP. -/
theorem High.change (here : High w slave events sampled pins level s)
    (high : (pins.set action).scl = true) {sda : Bool}
    (before : w.level pins.out pins.latch level = !sda)
    (after : w.level (pins.set action).out (pins.set action).latch level = sda)
    (ideal : IdealTick w slave drive s action)
    : High w slave (events ++ [if sda then .stop else .start]) none (pins.set action) level
        (s.tick w slave action) := by
  obtain ⟨lines, _, rfl, rfl, rfl⟩ := here
  have steady := ideal.steady high
  have seen : s.lines.sda = !s.sdaAfter w slave action := by
    rw [lines, before, Bus.sdaAfter, after]
  obtain ⟨pins, changed, events⟩ :=
    Bus.tick_high high steady (Lines.observe_change (by rw [lines]) seen)
  rw [Bus.sdaAfter, after] at changed events
  refine { lines := ?_, high := high, pins := pins, level := steady, events := events }
  rw [changed, after]

theorem High.idle {out : Bool} (here : High w slave events sampled ⟨true, out, true⟩ true s)
    : s.Idle w slave := by
  obtain rfl := here.events
  exact ⟨sampled, out, here⟩

/-- When SCL falls, the bit sampled is complete; the slave may already move. -/
theorem High.fall (here : High w slave events sampled pins level s)
    (low : (pins.set action).scl = false)
    : Low (events ++ (sampled.map .bit).toList) (pins.set action)
        (s.tick w slave action) := by
  obtain ⟨lines, _, rfl, rfl, rfl⟩ := here
  refine { scl := ?_, low := low, pins := ?_, events := ?_ } <;>
    simp [Bus.tick, Bus.watch, Lines.observe, lines, low]

/-- Events stay on the record. -/
theorem Bus.tick_events (s : Bus τ) (action : Action)
    : s.events <+: (s.tick w slave action).events := by
  change s.events <+: s.events ++ _ ++ _
  rw [List.append_assoc]
  exact List.prefix_append _ _

/-- So they do in every run, by induction on the program. -/
theorem run_events {ρ : Type} (program : Port.Program Action Bool ρ) (s : Bus τ)
    : s.events <+: (program.run (port w slave) s).2.events := by
  induction program generalizing s with
  | done result => exact List.prefix_refl _
  | act action next ih => exact (s.tick_events action).trans (ih _)
  | look next ih => exact ih _ s

-----------------------------------------------------------------------------------------
-- The same as pre- and postconditions
-----------------------------------------------------------------------------------------

variable (w slave drive)

/-- A program of the master, with a slave that is ideal throughout the run. -/
abbrev Spec {ρ : Type} (pre : Bus τ → Prop) (program : Port.Program Action Bool ρ)
    (post : ρ → Bus τ → Prop)
    : Prop :=
  Port.Triple (port w slave) (IdealTick w slave drive) pre program post

variable {w slave drive}

theorem Spec.low (low : (pins.set action).scl = false)
    : Spec w slave drive (Low events pins) (.emit action)
        (fun _ => Low events (pins.set action)) :=
  .emit fun _ here _ => here.stay low

theorem Spec.rise {sda : Bool} (high : (pins.set action).scl = true)
    (driven : drive events = level)
    (line : w.level (pins.set action).out (pins.set action).latch level = sda)
    : Spec w slave drive (Low events pins) (.emit action)
        (fun _ => High w slave events (some sda) (pins.set action) level) := by
  subst driven line
  exact .emit fun _ here ideal => here.rise high ideal

theorem Spec.high (high : (pins.set action).scl = true)
    (same
      : w.level (pins.set action).out (pins.set action).latch level
        = w.level pins.out pins.latch level)
    : Spec w slave drive (High w slave events sampled pins level) (.emit action)
        (fun _ => High w slave events sampled (pins.set action) level) :=
  .emit fun _ here ideal => here.stay high same ideal

theorem Spec.change (sda : Bool) (high : (pins.set action).scl = true)
    (before : w.level pins.out pins.latch level = !sda)
    (after : w.level (pins.set action).out (pins.set action).latch level = sda)
    : Spec w slave drive (High w slave events sampled pins level) (.emit action)
        (fun _ =>
          High w slave (events ++ [if sda then .stop else .start]) none (pins.set action)
            level) :=
  .emit fun _ here ideal => here.change high before after ideal

/-- SCL falls behind a START or a STOP. -/
theorem Spec.fall (low : (pins.set action).scl = false)
    : Spec w slave drive (High w slave events none pins level) (.emit action)
        (fun _ => Low events (pins.set action)) := by
  refine .emit fun s here _ => ?_
  have fallen
      : Low (events ++ (none.map Event.bit).toList) (pins.set action)
          (s.tick w slave action) :=
    here.fall low
  rwa [Option.map_none, Option.toList_none, List.append_nil] at fallen

/-- SCL falls behind a bit. -/
theorem Spec.complete {sda : Bool} (low : (pins.set action).scl = false)
    : Spec w slave drive (High w slave events (some sda) pins level) (.emit action)
        (fun _ => Low (events ++ [.bit sda]) (pins.set action)) :=
  .emit fun _ here _ => here.fall low

/-- The master sees the line while SCL is high. -/
theorem Spec.read {ρ : Type} {sda : Bool} {rest : Bool → Port.Program Action Bool ρ}
    {post : ρ → Bus τ → Prop} (line : w.level pins.out pins.latch level = sda)
    (tail : Spec w slave drive (High w slave events sampled pins level) (rest sda) post)
    : Spec w slave drive (High w slave events sampled pins level) (.read >>= rest) post := by
  refine Port.Triple.read (fun s here => ?_) tail
  rw [← line, ← here.pins, ← here.level]
  rfl

/-- What has come on the bus stays there whatever follows. -/
theorem Spec.keeps {ρ : Type} {pre : Bus τ → Prop} (program : Port.Program Action Bool ρ)
    (seen : ∀ s, pre s → events <+: s.events)
    : Spec w slave drive pre program (fun _ s => events <+: s.events) :=
  fun s here _ => (seen s here).trans (run_events program s)

end I2c
