import At32.Devices.EepromStore
import Mathlib.Algebra.Ring.Nat

/-! The bus without the EEPROM: what the driver does with a slave that keeps to the protocol under
another address.
-/

namespace At32.At24c02

open GpioIic I2c Port Transducer

/-- What a byte operation puts on the bus: the address of the EEPROM, which nobody acknowledges.
-/
def refusedTrace : List Event := [.start] ++ transfer 0xA0 false ++ [.stop]

/-- The byte operations with any slave on the bus. -/
def slaveDevice {τ : Type} (w : Wiring) (slave : Slave τ) : ByteDevice (Bus τ) where
  readbyte s addr := readOut w slave addr s
  writebyte s addr byte := written w slave addr byte s

/-- While (ready) holds, every byte operation is refused: a read returns 0, and what is (seen) of
the device only moves by (passes).
-/
structure ByteDevice.Refuses {σ κ : Type} (dev : ByteDevice σ) (ready : σ → Prop) (seen : σ → κ)
    (passes : κ → κ)
    : Prop where
  read
    : ∀ s addr,
        ready s
        → (dev.readbyte s addr).1 = 0
          ∧ seen (dev.readbyte s addr).2 = passes (seen s)
          ∧ ready (dev.readbyte s addr).2
  write
    : ∀ s addr byte,
        ready s
        → seen (dev.writebyte s addr byte) = passes (seen s)
          ∧ ready (dev.writebyte s addr byte)

-----------------------------------------------------------------------------------------
-- A byte operation
-----------------------------------------------------------------------------------------

section Refused

variable {τ κ : Type} {w : Wiring} {slave : Slave τ} {drive : List Event → Bool}
  {address : List Bool} {events : List Event}

/-- A frame that nobody acknowledges is given up with a STOP. -/
theorem addressed_refused {ρ : Type} (obeys : Obeys address drive)
    (other : address ≠ deviceAddress) {rest : Gpio ρ} {result : ρ} {sampled : Option Bool}
    {out : Bool}
    : Spec w slave drive (High w slave events sampled ⟨true, out, true⟩ true)
        (do
          iicStart
          iicSendData 0xA0
          if (← iicWaitAck) ≠ 0 then
            rest
          else
            return result)
        (fun ret s =>
          ret = result
          ∧ High w slave (events ++ refusedTrace) none ⟨true, true, true⟩ true s) := by
  have passed : phase address (events ++ [.start] ++ (byteBits 0xA0).map .bit) = .idle :=
    phase_other phase_start other.symm
  have silent := obeys _ true (by rw [passed]; rfl)
  have free := obeys (events ++ [.start] ++ (byteBits 0xA0).map .bit ++ [.bit true]) true (by
    rw [phase_append, passed]
    rfl)
  refine iicStart_idle.bind fun _ => ?_
  refine (iicSendData_spec obeys 0xA0 phase_start).bind fun _ => .exists_pre fun latch => ?_
  refine (iicWaitAck_refused silent free).bind fun ret => .and_pre fun zero => ?_
  subst zero
  refine .done fun s here => ⟨rfl, ?_⟩
  simpa only [refusedTrace, transfer, Bool.not_false, List.append_assoc] using here

end Refused

variable {κ : Type} {w : Wiring} {address : List Bool} {peer : Peer κ address}
  {s : Bus (Prompt κ)}

/-- Behind a program that has put the refused frame on the bus, the slave of the other address has
taken it and waits for the next one.
-/
theorem standby_refused {ρ : Type} {program : Gpio ρ} (idle : s.Idle w peer.slave)
    (standby : peer.Standby s)
    (after
      : High w peer.slave refusedTrace none ⟨true, true, true⟩ true
          (program.run (port w peer.slave) s.fresh).2)
    : (program.run (port w peer.slave) s.fresh).2.slave.chip
        = refusedTrace.foldl peer.next s.slave.chip
      ∧ (program.run (port w peer.slave) s.fresh).2.Idle w peer.slave
      ∧ peer.Standby (program.run (port w peer.slave) s.fresh).2 := by
  obtain ⟨_, attached⟩ := (Attached.of_idle idle standby.lines).meets program
  have chip := attached.chip
  rw [after.events] at chip
  refine ⟨chip, after.idle, { phase := ?_, lines := attached.lines }⟩
  rw [chip, peer.phase_foldl, standby.phase]
  exact phase_stop

/-- Both byte operations are refused on an idle bus. -/
theorem slaveDevice_refuses (w : Wiring) (peer : Peer κ address)
    (other : address ≠ deviceAddress)
    : (slaveDevice w peer.slave).Refuses (fun s => s.Idle w peer.slave ∧ peer.Standby s)
        (fun s => s.slave.chip) (refusedTrace.foldl peer.next ·) where
  read s addr ready := by
    obtain ⟨idle, standby⟩ := ready
    obtain ⟨sampled, out, here⟩ := idle.fresh
    obtain ⟨zero, after⟩ := addressed_refused (peer.obeys standby.phase) other s.fresh here
      ((Attached.of_idle idle standby.lines).meets (at24cxxReadbyte addr)).1
    exact ⟨zero, standby_refused idle standby after⟩
  write s addr byte ready := by
    obtain ⟨idle, standby⟩ := ready
    obtain ⟨sampled, out, here⟩ := idle.fresh
    obtain ⟨_, after⟩ := addressed_refused (peer.obeys standby.phase) other s.fresh here
      ((Attached.of_idle idle standby.lines).meets (at24cxxWritebyte addr byte)).1
    exact standby_refused idle standby after

-----------------------------------------------------------------------------------------
-- Blocks and sessions
-----------------------------------------------------------------------------------------

section Blocks

variable {σ : Type} {dev : ByteDevice σ} {ready : σ → Prop} {seen : σ → κ} {passes : κ → κ}

/-- A block that is refused reads as zeros, by induction on its bytes. -/
theorem ByteDevice.Refuses.readAll (refuses : dev.Refuses ready seen passes) (addr : UInt32)
    (count : Nat) {s : σ} (here : ready s)
    : (dev.readAll addr count s).1 = List.replicate count 0
      ∧ seen (dev.readAll addr count s).2 = passes^[count] (seen s)
      ∧ ready (dev.readAll addr count s).2 := by
  induction count generalizing addr s with
  | zero => exact ⟨rfl, rfl, here⟩
  | succ count ih =>
      obtain ⟨zero, next, still⟩ := refuses.read s addr here
      obtain ⟨zeros, last, still⟩ := ih (nextAddr addr) still
      refine ⟨congrArg₂ List.cons zero zeros, ?_, still⟩
      rw [next] at last
      exact last

theorem ByteDevice.Refuses.writeAll (refuses : dev.Refuses ready seen passes) (addr : UInt32)
    (bytes : List UInt8) {s : σ} (here : ready s)
    : seen (dev.writeAll addr bytes s) = passes^[bytes.length] (seen s)
      ∧ ready (dev.writeAll addr bytes s) := by
  induction bytes generalizing addr s with
  | nil => exact ⟨rfl, here⟩
  | cons byte rest ih =>
      obtain ⟨next, still⟩ := refuses.write s addr byte here
      obtain ⟨last, still⟩ := ih (nextAddr addr) still
      rw [next] at last
      exact ⟨last, still⟩

/-- The byte operations of a call. -/
def StoreCall.operations : StoreCall → Nat
  | .at24cxxWrite _ bufnum _ => bufnum.toNat
  | .at24cxxRead _ bufnum => bufnum.toNat
  | .at24cxxCheck => 3

/-- What a call answers when all of them are refused. -/
def StoreCall.refused : StoreCall → List UInt8
  | .at24cxxWrite _ _ _ => []
  | .at24cxxRead _ bufnum => List.replicate bufnum.toNat 0
  | .at24cxxCheck => [0]

/-- A call whose operations are refused, by cases on the call. -/
theorem ByteDevice.Refuses.through (refuses : dev.Refuses ready seen passes) (call : StoreCall)
    {s : σ} (here : ready s)
    : (call.through dev s).2 = call.refused
      ∧ seen (call.through dev s).1 = passes^[call.operations] (seen s)
      ∧ ready (call.through dev s).1 := by
  cases call with
  | at24cxxWrite addr bufnum buf =>
      obtain ⟨passed, still⟩ := refuses.writeAll addr buf.toList here
      rw [Vector.length_toList] at passed
      exact ⟨rfl, passed, still⟩
  | at24cxxRead addr bufnum => exact refuses.readAll addr bufnum.toNat here
  | at24cxxCheck =>
      obtain ⟨passed, still⟩ := refuses.writeAll EEPROM_ENDADDR [0xee, 0xee] here
      obtain ⟨zero, last, still⟩ := refuses.read _ 0 still
      refine ⟨?_, last.trans (congrArg passes passed), still⟩
      simp only [StoreCall.through, zero]
      rfl

end Blocks

/-- In every session of the driver on an idle bus with a slave of another address: each call ends,
reads show zeros, a check answers 0, the bus is idle again, and each byte operation has put on it
the address of the EEPROM alone, which the slave has passed over; by induction on the calls.
-/
theorem eeprom_absent (w : Wiring) (peer : Peer κ address) (other : address ≠ deviceAddress)
    {s : Bus (Prompt κ)} (idle : s.Idle w peer.slave) (standby : peer.Standby s)
    (calls : List StoreCall) (short : ∀ call ∈ calls, call.Short)
    : ∃ t,
        trace (StoreCall.serve (slaveDevice w peer.slave)) s calls
          = .ok (t, calls.map StoreCall.refused)
        ∧ t.Idle w peer.slave
        ∧ peer.Standby t
        ∧ t.slave.chip
          = (refusedTrace.foldl peer.next ·)^[(calls.map StoreCall.operations).sum]
              s.slave.chip := by
  induction calls generalizing s with
  | nil => exact ⟨s, rfl, idle, standby, rfl⟩
  | cons call calls ih =>
      obtain ⟨first, later⟩ := List.forall_mem_cons.mp short
      have served := StoreCall.serve_short (slaveDevice w peer.slave) first s
      obtain ⟨answer, passed, idle, standby⟩ :=
        (slaveDevice_refuses w peer other).through call ⟨idle, standby⟩
      obtain ⟨t, rest, done, ready, all⟩ := ih idle standby later
      refine ⟨t, trace_cons_iff.mpr ⟨_, _, _, served, rest, ?_⟩, done, ready, ?_⟩
      · exact congrArg (· :: calls.map StoreCall.refused) answer.symm
      · rw [all, passed, List.map_cons, List.sum_cons, Nat.add_comm, Function.iterate_add_apply]

/-- A slave that does nothing but follow the protocol. -/
def bystander (address : List Bool) : Peer Phase address where
  next := Phase.next address
  level phase := phase.required.getD true
  phase := id
  follows _ _ := rfl
  drives _ _ asks := congrArg (Option.getD · true) asks

/-- The address 0xA2. -/
def otherAddress : List Bool := [true, false, true, false, false, false, true]

/-- An idle bus with a slave at that address. -/
def bystanderAlone : Bus (Prompt Phase) :=
  {
    pins := { scl := true, out := true, latch := true }
    slave :=
      { lines := { scl := true, sda := true, sampled := none }, chip := .idle, out := true }
    lines := { scl := true, sda := true, sampled := none }
    events := []
  }

theorem eeprom_absent_bystander
    : ∃ t,
        trace (StoreCall.serve (slaveDevice wiredAnd (bystander otherAddress).slave))
            bystanderAlone overEndCalls
          = .ok (t, [[], [0], [0]])
        ∧ t.Idle wiredAnd (bystander otherAddress).slave
        ∧ (bystander otherAddress).Standby t
        ∧ t.slave.chip
          = (refusedTrace.foldl (bystander otherAddress).next ·)^[
              (overEndCalls.map StoreCall.operations).sum] .idle :=
  eeprom_absent wiredAnd (bystander otherAddress) (by decide)
    ⟨none, true, { lines := rfl, high := rfl, pins := rfl, level := rfl, events := rfl }⟩
    { phase := rfl, lines := .refl _ } overEndCalls
    (by simp [overEndCalls, StoreCall.Short])

end At32.At24c02
