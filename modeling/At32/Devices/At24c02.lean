import At32.Drivers.GpioIic

/-! The byte operations on the EEPROM: their events on the bus with every slave that keeps
to the protocol, and what they do to the memory of one.
-/

namespace At32.At24c02

open GpioIic I2c Port

/-- AT24CXX_readbyte -/
def at24cxxReadbyte (addr : UInt32) : Gpio UInt8 := do
  iicStart
  iicSendData 0xA0
  if (← iicWaitAck) ≠ 0 then
    iicSendData addr.toUInt8
    let _ ← iicWaitAck
    iicStart
    iicSendData 0xA1
    let _ ← iicWaitAck
    let temp ← iicReceiveData 0
    iicStop
    return temp
  else
    return 0

/-- AT24CXX_writebyte, with its last loop as a delay. -/
def at24cxxWritebyte (addr : UInt32) (buf : UInt8) : Gpio Unit := do
  iicStart
  iicSendData 0xA0
  if (← iicWaitAck) ≠ 0 then
    iicSendData addr.toUInt8
    let _ ← iicWaitAck
    iicSendData buf
    let _ ← iicWaitAck
    iicStop
    iicDelay 100000
  else
    pure ()

/-- The seven bits of the addresses 0xA0 and 0xA1. -/
abbrev deviceAddress : List Bool := [true, false, true, false, false, false, false]

def writeTrace (addr data : UInt8) : List Event :=
  [.start] ++ transfer 0xA0 true ++ transfer addr true ++ transfer data true ++ [.stop]

/-- A read up to the turn of the slave. -/
def readRequest (addr : UInt8) : List Event :=
  [.start] ++ transfer 0xA0 true ++ transfer addr true ++ [.start] ++ transfer 0xA1 true

def readTrace (addr byte : UInt8) : List Event :=
  readRequest addr ++ transfer byte false ++ [.stop]

-----------------------------------------------------------------------------------------
-- The events on the bus
-----------------------------------------------------------------------------------------

variable {τ : Type} {w : Wiring} {slave : Slave τ} {drive : List Event → Bool}
  {events : List Event}

/-- A byte that the slave has to acknowledge is sent and acknowledged. -/
theorem sent_acknowledged {ρ : Type} (obeys : Obeys deviceAddress drive) {byte : UInt8}
    {first reading : Bool} (turn : phase deviceAddress events = .fromMaster first [])
    (asked : phase deviceAddress (events ++ (byteBits byte).map .bit) = .ack reading)
    {rest : UInt8 → Gpio ρ} {post : ρ → Bus τ → Prop} {out latch : Bool}
    (tail
      : phase deviceAddress (events ++ transfer byte true)
          = (if reading then .fromSlave [] else .fromMaster false [])
        → Spec w slave drive (Low (events ++ transfer byte true) ⟨false, false, true⟩)
            (rest 1) post)
    : Spec w slave drive (Low events ⟨false, out, latch⟩)
        (iicSendData byte >>= fun _ => iicWaitAck >>= rest) post := by
  have acknowledged : drive (events ++ (byteBits byte).map .bit) = false :=
    obeys _ false (by rw [asked]; rfl)
  have after := phase_acknowledged false asked
  refine (iicSendData_spec obeys byte turn).bind fun _ => .exists_pre fun latch => ?_
  refine (iicWaitAck_spec acknowledged).bind fun ret => .and_pre fun one => ?_
  subst one
  rw [List.append_assoc] at after ⊢
  exact tail after

/-- Both operations begin alike: the slave is addressed for writing, and gets the place. -/
theorem addressed_acknowledged {ρ : Type} (obeys : Obeys deviceAddress drive) (addr : UInt8)
    {rest other : Gpio ρ} {post : ρ → Bus τ → Prop} {sampled : Option Bool} {out : Bool}
    (tail
      : phase deviceAddress (events ++ [.start] ++ transfer 0xA0 true ++ transfer addr true)
          = .fromMaster false []
        → Spec w slave drive
            (Low (events ++ [.start] ++ transfer 0xA0 true ++ transfer addr true)
              ⟨false, false, true⟩)
            rest post)
    : Spec w slave drive (High w slave events sampled ⟨true, out, true⟩ true)
        (do
          iicStart
          iicSendData 0xA0
          if (← iicWaitAck) ≠ 0 then
            iicSendData addr
            let _ ← iicWaitAck
            rest
          else
            other)
        post := by
  have asked : phase deviceAddress (events ++ [.start] ++ (byteBits 0xA0).map .bit)
      = .ack false := phase_address phase_start rfl
  refine iicStart_idle.bind fun _ => ?_
  refine sent_acknowledged obeys phase_start asked fun turn => ?_
  exact sent_acknowledged obeys turn (phase_data turn) tail

/-- The write puts its trace on the bus and leaves the bus idle. -/
theorem at24cxxWritebyte_spec (obeys : Obeys deviceAddress drive) (addr : UInt32) (buf : UInt8)
    {sampled : Option Bool} {out : Bool}
    : Spec w slave drive (High w slave events sampled ⟨true, out, true⟩ true)
        (at24cxxWritebyte addr buf)
        (fun _ =>
          High w slave (events ++ writeTrace addr.toUInt8 buf) none ⟨true, true, true⟩
            true) := by
  refine addressed_acknowledged obeys addr.toUInt8 fun turn => ?_
  refine sent_acknowledged obeys turn (phase_data turn) fun turn => ?_
  have free := obeys _ true (by rw [turn]; rfl)
  refine (iicStop_spec free).bind fun _ => ?_
  simp only [writeTrace, List.append_assoc]
  exact Spec.high rfl rfl

/-- The read puts its trace on the bus, with the byte that the slave presents, returns that
byte and leaves the bus idle.
-/
theorem at24cxxReadbyte_spec (obeys : Obeys deviceAddress drive) (addr : UInt32)
    {sampled : Option Bool} {out : Bool}
    : Spec w slave drive (High w slave events sampled ⟨true, out, true⟩ true)
        (at24cxxReadbyte addr)
        (fun temp s =>
          byteBits temp = driven drive 8 (events ++ readRequest addr.toUInt8)
          ∧ High w slave (events ++ readTrace addr.toUInt8 temp) none ⟨true, true, true⟩ true
              s) := by
  refine addressed_acknowledged obeys addr.toUInt8 fun turn => ?_
  have free := obeys _ true (by rw [turn]; rfl)
  refine (iicStart_repeated free).bind fun _ => ?_
  refine sent_acknowledged obeys phase_start (phase_address phase_start rfl) fun turn => ?_
  have request : events ++ [.start] ++ transfer 0xA0 true ++ transfer addr.toUInt8 true
      ++ [.start] ++ transfer 0xA1 true
      = events ++ readRequest addr.toUInt8 := by
    simp only [readRequest, List.append_assoc]
  rw [request] at turn ⊢
  have answered := phase_driven drive turn
  have released := obeys _ true (by rw [answered]; rfl)
  refine (iicReceiveData_spec released).bind fun temp => .and_pre fun taken => ?_
  have bits : byteBits temp = driven drive 8 (events ++ readRequest addr.toUInt8) := by
    rw [taken]
    exact byteBits_byteOf (driven_length drive 8 _)
  have free := obeys _ true (by rw [phase_refused answered]; rfl)
  refine (iicStop_spec free).bind fun _ => .done fun s here => ⟨bits, ?_⟩
  rw [← bits] at here
  simpa only [readTrace, transfer, Bool.not_false, List.append_assoc] using here

end At32.At24c02
