import At32.Drivers.GpioIic
import At32.Lib.I2cSlave

/-! Bytes that the master receives one after another, each acknowledged but the last: what the
seam between two calls of IIC_ReceiveData leaves on the bus.
-/

namespace At32.GpioIic

open I2c Port

/-- So many calls of IIC_ReceiveData(1), one of IIC_ReceiveData(0) and IIC_Stop. -/
def receiveBytes : Nat → Gpio (List UInt8)
  | 0 => do
      let last ← iicReceiveData 0
      iicStop
      return [last]
  | count + 1 => do
      let byte ← iicReceiveData 1
      let rest ← receiveBytes count
      return byte :: rest

/-- The bytes that the slave presents when so many are acknowledged. -/
def presentedBytes (drive : List Event → Bool) : Nat → List Event → List UInt8
  | 0, events => [byteOf (driven drive 8 events)]
  | count + 1, events =>
      let byte := byteOf (driven drive 8 events)
      byte :: presentedBytes drive count (events ++ transfer byte true)

/-- Bytes that are acknowledged but the last, and the STOP. -/
def receiveTrace : List UInt8 → List Event
  | [] => [.stop]
  | [last] => transfer last false ++ [.stop]
  | byte :: rest => transfer byte true ++ receiveTrace rest

variable {τ : Type} {w : Wiring} {slave : Slave τ} {drive : List Event → Bool}
  {events : List Event} {address : List Bool}

/-- The bits of a byte that the slave presents. -/
theorem transfer_driven (drive : List Event → Bool) (events : List Event) (acknowledged : Bool)
    : transfer (byteOf (driven drive 8 events)) acknowledged
      = (driven drive 8 events).map .bit ++ [.bit (!acknowledged)] := by
  rw [transfer, byteBits_byteOf (driven_length drive 8 events)]

/-- A byte that is acknowledged leaves the turn to the slave. -/
theorem phase_taken (turn : phase address events = .fromSlave [])
    : phase address (events ++ transfer (byteOf (driven drive 8 events)) true)
      = .fromSlave [] := by
  rw [transfer_driven, ← List.append_assoc, phase_append, phase_driven drive turn]
  rfl

theorem receiveTrace_cons (byte : UInt8) (count : Nat) (events : List Event)
    : receiveTrace (byte :: presentedBytes drive count events)
      = transfer byte true ++ receiveTrace (presentedBytes drive count events) := by
  cases count <;> rfl

-----------------------------------------------------------------------------------------
-- One byte, from whatever state IIC_SDA_IN is entered
-----------------------------------------------------------------------------------------

section Byte

variable {pre : Bus τ → Prop} {latch : Bool}
  (enter : Spec w slave drive pre iicSdaIn (fun _ => Falling w slave latch events))
  (follows : ∀ level ∈ driven drive 8 events, w.level false latch level = level)
  (free : drive (events ++ (driven drive 8 events).map .bit) = true)
include enter follows free

/-- IIC_ReceiveData(1) takes a byte and leaves SCL high in the bit that acknowledges it. -/
theorem iicReceiveData_acknowledges
    : Spec w slave drive pre (iicReceiveData 1)
        (fun result s =>
          result = byteOf (driven drive 8 events)
          ∧ High w slave (events ++ (driven drive 8 events).map .bit) (some false)
              ⟨true, true, false⟩ true s) := by
  refine enter.bind fun _ => ?_
  refine (receiveDataLoop_follows 8 0 follows).bind fun result => .and_pre fun taken => ?_
  change Spec w slave drive _ (iicAck >>= fun _ => pure result) _
  refine (iicAck_spec free).bind fun _ => ?_
  exact .done fun _ here => ⟨taken, here⟩

/-- IIC_ReceiveData(0) takes a byte and completes the bit that refuses more. -/
theorem iicReceiveData_refuses
    : Spec w slave drive pre (iicReceiveData 0)
        (fun result s =>
          result = byteOf (driven drive 8 events)
          ∧ Low (events ++ (driven drive 8 events).map .bit ++ [.bit true])
              ⟨false, true, true⟩ s) := by
  refine enter.bind fun _ => ?_
  refine (receiveDataLoop_follows 8 0 follows).bind fun result => .and_pre fun taken => ?_
  change Spec w slave drive _ (iicNotAck >>= fun _ => pure result) _
  refine (iicNotAck_spec free).bind fun _ => ?_
  exact .done fun _ here => ⟨taken, here⟩

end Byte

-----------------------------------------------------------------------------------------
-- The seam
-----------------------------------------------------------------------------------------

/-- Before the first byte SCL is low. -/
theorem enter_low {out latch : Bool}
    : Spec w slave drive (Low events ⟨false, out, latch⟩) iicSdaIn
        (fun _ => Falling w slave latch events) :=
  (Spec.low rfl).weaken (fun _ low => low) fun _ _ low => Or.inl low

/-- Behind IIC_Ack SCL is high and SDA held low: an input that stays low there falls with
SCL later.
-/
theorem enter_held (held : w.level false false true = false)
    : Spec w slave drive (High w slave events (some false) ⟨true, true, false⟩ true) iicSdaIn
        (fun _ => Falling w slave false (events ++ [.bit false])) := by
  have same : w.level false false true = w.level true false true := by rw [held, w.released]
  exact (Spec.high rfl same).weaken (fun _ high => high)
    fun _ _ high => Or.inr ⟨events, false, true, rfl, high⟩

/-- An input that goes high there is a STOP. -/
theorem enter_pulledUp (up : w.level false false true = true)
    : Spec w slave drive (High w slave events (some false) ⟨true, true, false⟩ true) iicSdaIn
        (fun _ =>
          High w slave (events ++ [.stop]) none ⟨true, false, false⟩ true) :=
  Spec.change true rfl (w.released false) up

/-- A byte of the slave that is zero has no bit that is high. -/
theorem driven_zero (zero : byteOf (driven drive 8 events) = 0)
    : ∀ level ∈ driven drive 8 events, level = false := by
  have bits : driven drive 8 events = byteBits 0 := by
    rw [← zero, byteBits_byteOf (driven_length drive 8 events)]
  rw [bits]
  decide

/-- Where an input with a low latch stays low, bytes that are zero behind the first one are
received; by induction on the bytes to come.
-/
theorem receiveBytes_held (obeys : Obeys address drive)
    (grounded : w.level false false false = false) (held : w.level false false true = false)
    (count : Nat) {pre : Bus τ → Prop} {latch : Bool}
    (turn : phase address events = .fromSlave [])
    (enter : Spec w slave drive pre iicSdaIn (fun _ => Falling w slave latch events))
    (follows : ∀ level ∈ driven drive 8 events, w.level false latch level = level)
    (zero : ∀ byte ∈ (presentedBytes drive count events).tail, byte = 0)
    : Spec w slave drive pre (receiveBytes count)
        (fun result s =>
          result = presentedBytes drive count events
          ∧ s.events = events ++ receiveTrace (presentedBytes drive count events)) := by
  have answered := phase_driven drive turn
  have free := obeys _ true (by rw [answered]; rfl)
  induction count generalizing events pre latch with
  | zero =>
      refine (iicReceiveData_refuses enter follows free).bind fun last => .and_pre fun taken => ?_
      have free := obeys _ true (by rw [phase_refused answered]; rfl)
      refine (iicStop_spec free).bind fun _ => .done fun s here => ?_
      rw [presentedBytes, receiveTrace, transfer_driven, here.events, taken, List.append_assoc,
        List.append_assoc, List.append_assoc]
      exact ⟨rfl, rfl⟩
  | succ count ih =>
      have next
          : phase address (events ++ transfer (byteOf (driven drive 8 events)) true)
            = .fromSlave [] :=
        phase_taken turn
      have nextAnswered := phase_driven drive next
      have nextFree := obeys _ true (by rw [nextAnswered]; rfl)
      have zero : ∀ byte
            ∈ presentedBytes drive count
                (events ++ transfer (byteOf (driven drive 8 events)) true),
          byte = 0 := zero
      have clear : ∀ level
            ∈ driven drive 8 (events ++ transfer (byteOf (driven drive 8 events)) true),
          w.level false false level = level := by
        intro level member
        rw [driven_zero (zero _ (by cases count <;> exact List.mem_cons_self)) level member,
          grounded]
      have seam
          : Spec w slave drive
              (High w slave (events ++ (driven drive 8 events).map .bit) (some false)
                ⟨true, true, false⟩ true)
              iicSdaIn
              (fun _ =>
                Falling w slave false
                  (events ++ (driven drive 8 events).map .bit ++ [.bit false])) :=
        enter_held held
      rw [List.append_assoc, ← Bool.not_true, ← transfer_driven] at seam
      refine (iicReceiveData_acknowledges enter follows free).bind
        fun byte => .and_pre fun taken => ?_
      refine (ih next seam clear (fun byte member => zero byte (List.mem_of_mem_tail member))
        nextAnswered nextFree).bind fun rest => .and_pre fun others => .done fun s here => ?_
      rw [presentedBytes, receiveTrace_cons, here, others, taken, List.append_assoc]
      exact ⟨rfl, rfl⟩

/-- Where it goes high, a STOP follows the bits of the first byte. -/
theorem receiveBytes_pulledUp (obeys : Obeys address drive)
    (up : w.level false false true = true) (count : Nat)
    (turn : phase address events = .fromSlave []) {out : Bool}
    : Spec w slave drive (Low events ⟨false, out, true⟩) (receiveBytes (count + 1))
        (fun _ s => events ++ (driven drive 8 events).map .bit ++ [.stop] <+: s.events) := by
  have answered := phase_driven drive turn
  have free := obeys _ true (by rw [answered]; rfl)
  have stopped {ρ : Type} (rest : Unit → Gpio ρ)
      : Spec w slave drive
          (High w slave (events ++ (driven drive 8 events).map .bit) (some false)
            ⟨true, true, false⟩ true)
          (iicSdaIn >>= rest)
          (fun _ s => events ++ (driven drive 8 events).map .bit ++ [.stop] <+: s.events) :=
    (enter_pulledUp up).bind fun _ =>
      Spec.keeps _ fun s here => here.events ▸ List.prefix_refl _
  have kept {ρ : Type} (rest : Gpio ρ)
      : Spec w slave drive
          (fun s => events ++ (driven drive 8 events).map .bit ++ [.stop] <+: s.events) rest
          (fun _ s => events ++ (driven drive 8 events).map .bit ++ [.stop] <+: s.events) :=
    Spec.keeps rest fun _ here => here
  refine (iicReceiveData_acknowledges enter_low (fun level _ => w.input level) free).bind
    fun _ => .and_pre fun _ => ?_
  refine Port.Triple.bind ?_ fun _ => kept _
  cases count with
  | zero => exact (stopped _).bind fun _ => kept _
  | succ count => exact (stopped _).bind fun _ => kept _

-----------------------------------------------------------------------------------------
-- An input that reads low
-----------------------------------------------------------------------------------------

/-- IIC_Ack leaves the latch low. -/
theorem iicAck_latch {pre : Bus τ → Prop}
    : Spec w slave drive pre iicAck (fun _ s => s.pins.latch = false) := by
  have any {pre : Bus τ → Prop} (action : Action)
      : Spec w slave drive pre (.emit action) (fun _ _ => True) :=
    fun _ _ _ => trivial
  refine (any (.scl false)).bind fun _ => ?_
  refine (any .sdaOut).bind fun _ => ?_
  refine (any (.delay 2)).bind fun _ => ?_
  refine (any (.sda false)).bind fun _ => ?_
  refine (any (.delay 2)).bind fun _ => ?_
  refine (any (.scl true)).bind fun _ => ?_
  refine (any (.delay 5)).bind fun _ => ?_
  exact .emit fun _ _ _ => rfl

section Silent

variable (silent : ∀ level, w.level false false level = false)
include silent

/-- Only zeros are shifted in, by induction on the bits to come. -/
theorem receiveDataLoop_silent (count : Nat)
    : Spec w slave drive (fun s => s.pins.out = false ∧ s.pins.latch = false)
        (receiveDataLoop count 0) (fun result _ => result = 0 ∧ True) := by
  induction count with
  | zero => exact .done fun _ _ => ⟨rfl, trivial⟩
  | succ count ih =>
      have keeps (action : Action) (kept : ∀ pins : Pins,
            (pins.set action).out = pins.out ∧ (pins.set action).latch = pins.latch)
          : Spec w slave drive (fun s => s.pins.out = false ∧ s.pins.latch = false)
              (.emit action) (fun _ s => s.pins.out = false ∧ s.pins.latch = false) :=
        .emit fun s here _ => by
          change (s.pins.set action).out = false ∧ (s.pins.set action).latch = false
          rwa [(kept s.pins).1, (kept s.pins).2]
      refine (keeps (.scl false) fun _ => ⟨rfl, rfl⟩).bind fun _ => ?_
      refine (keeps (.delay 2) fun _ => ⟨rfl, rfl⟩).bind fun _ => ?_
      refine (keeps (.scl true) fun _ => ⟨rfl, rfl⟩).bind fun _ => ?_
      refine (keeps (.delay 2) fun _ => ⟨rfl, rfl⟩).bind fun _ => ?_
      have low (s : Bus τ) (here : s.pins.out = false ∧ s.pins.latch = false)
          : (port w slave).look s = false := by
        change w.level s.pins.out s.pins.latch _ = false
        rw [here.1, here.2, silent]
      exact .read low ((keeps (.delay 2) fun _ => ⟨rfl, rfl⟩).bind fun _ => ih)

/-- IIC_ReceiveData returns zero when the latch is low. -/
theorem iicReceiveData_silent (ack : UInt8)
    : Spec w slave drive (fun s => s.pins.latch = false) (iicReceiveData ack)
        (fun result s => result = 0 ∧ (ack ≠ 0 → s.pins.latch = false)) := by
  have entered : Spec w slave drive (fun s => s.pins.latch = false) iicSdaIn
      (fun _ s => s.pins.out = false ∧ s.pins.latch = false) :=
    .emit fun _ low _ => ⟨rfl, low⟩
  refine entered.bind fun _ => ?_
  refine (receiveDataLoop_silent silent 8).bind fun result => .and_pre fun zero => ?_
  by_cases acknowledged : ack ≠ 0
  · rw [if_pos acknowledged]
    exact iicAck_latch.bind fun _ => .done fun _ low => ⟨zero, fun _ => low⟩
  · rw [if_neg acknowledged]
    exact fun s _ _ => ⟨zero, fun given => (acknowledged given).elim⟩

/-- So do all calls for bytes behind an acknowledged one, by induction on the bytes. -/
theorem receiveBytes_silent (count : Nat)
    : Spec w slave drive (fun s => s.pins.latch = false) (receiveBytes count)
        (fun result _ => ∀ byte ∈ result, byte = 0) := by
  induction count with
  | zero =>
      refine (iicReceiveData_silent silent 0).bind fun last => .and_pre fun zero => ?_
      exact fun _ _ _ => List.forall_mem_singleton.mpr zero
  | succ count ih =>
      refine (iicReceiveData_silent silent 1).bind fun byte => .and_pre fun zero => ?_
      have later : Spec w slave drive (fun s => (1 : UInt8) ≠ 0 → s.pins.latch = false)
          (receiveBytes count) (fun result _ => ∀ byte ∈ result, byte = 0) :=
        ih.weaken (fun _ low => low (by decide)) fun _ _ zeros => zeros
      refine later.bind fun rest => .done fun _ zeros => ?_
      exact List.forall_mem_cons.mpr ⟨zero, zeros⟩

/-- Behind a first byte that is acknowledged. -/
theorem receiveBytes_silentTail (count : Nat) {pre : Bus τ → Prop}
    : Spec w slave drive pre (receiveBytes (count + 1))
        (fun result _ => ∀ byte ∈ result.tail, byte = 0) := by
  have first : Spec w slave drive pre (iicReceiveData 1) (fun _ s => s.pins.latch = false) := by
    have entered : Spec w slave drive pre iicSdaIn (fun _ _ => True) := fun _ _ _ => trivial
    have looped : Spec w slave drive (fun _ => True) (receiveDataLoop 8 0) (fun _ _ => True) :=
      fun _ _ _ => trivial
    refine entered.bind fun _ => looped.bind fun result => ?_
    rw [if_pos (by decide)]
    exact iicAck_latch.bind fun _ => .done fun _ low => low
  refine first.bind fun byte => ?_
  refine (receiveBytes_silent silent count).bind fun rest => .done fun _ zeros => ?_
  exact zeros

end Silent

/-- Behind an acknowledged read address and with a slave that keeps to the protocol, two or
more bytes are received in order, with no condition before the STOP and each acknowledged but
the last, exactly when an input with a low latch stays low and all bytes behind the first one
are zero.
-/
theorem receiveBytes_received_iff (obeys : Obeys address drive)
    (grounded : w.level false false false = false)
    (turn : phase address events = .fromSlave []) {out : Bool} {s : Bus τ}
    (here : Low events ⟨false, out, true⟩ s) (count : Nat) (more : 0 < count)
    (ideal : (receiveBytes count).Meets (port w slave) (IdealTick w slave drive) s)
    : ((receiveBytes count).run (port w slave) s).1 = presentedBytes drive count events
        ∧ ((receiveBytes count).run (port w slave) s).2.events
          = events ++ receiveTrace (presentedBytes drive count events)
      ↔ w.level false false true = false
        ∧ ∀ byte ∈ (presentedBytes drive count events).tail, byte = 0 := by
  obtain ⟨count, rfl⟩ := Nat.exists_eq_succ_of_ne_zero (Nat.pos_iff_ne_zero.mp more)
  constructor
  · rintro ⟨bytes, trace⟩
    cases up : w.level false false true with
    | true =>
        obtain ⟨later, stopped⟩ := receiveBytes_pulledUp obeys up count turn s here ideal
        rw [trace, presentedBytes, receiveTrace_cons, transfer_driven] at stopped
        simp only [List.append_assoc] at stopped
        have bit := List.append_cancel_left (List.append_cancel_left stopped)
        cases bit
    | false =>
        have silent (level : Bool) : w.level false false level = false := by
          cases level <;> assumption
        refine ⟨rfl, ?_⟩
        rw [← bytes]
        exact receiveBytes_silentTail silent count s here ideal
  · intro both
    exact receiveBytes_held obeys grounded both.1 (count + 1) turn enter_low
      (fun level _ => w.input level) both.2 s here ideal

/-- A bus whose SDA is pulled up whenever the master has it as an input. -/
def pulledUp : Wiring :=
  {
    level := fun out latch slave => (!out || latch) && slave
    released := by decide
    input := by decide
  }

/-- A slave at the address 0xA1 that keeps to the protocol and presents ones. -/
def ones : Slave (Prompt Phase) :=
  prompt (Phase.next ((byteBits 0xA1).take 7)) fun phase => phase.required.getD true

def onesDrive : List Event → Bool :=
  presented (Phase.next ((byteBits 0xA1).take 7)) (fun phase => phase.required.getD true) .idle

/-- The bus behind its acknowledged read address. -/
def addressed : Bus (Prompt Phase) :=
  {
    pins := { scl := false, out := false, latch := true }
    slave :=
      {
        lines := { scl := false, sda := true, sampled := none }
        chip := .fromSlave []
        out := true
      }
    lines := { scl := false, sda := true, sampled := none }
    events := [.start] ++ transfer 0xA1 true
  }

theorem onesDrive_obeys : Obeys ((byteBits 0xA1).take 7) onesDrive := by
  intro events level required
  change (phase ((byteBits 0xA1).take 7) events).required.getD true = level
  rw [required]
  rfl

theorem addressed_meets {ρ : Type} (program : Gpio ρ)
    : program.Meets (port pulledUp ones) (IdealTick pulledUp ones onesDrive) addressed :=
  (Attached.meets { chip := by decide, lines := .refl _, scl := rfl, out := fun _ => rfl }
    program).1

/-- Two bytes of ones on that bus. -/
theorem receiveBytes_received_ones
    : ((receiveBytes 1).run (port pulledUp ones) addressed).1
          = presentedBytes onesDrive 1 addressed.events
        ∧ ((receiveBytes 1).run (port pulledUp ones) addressed).2.events
          = addressed.events ++ receiveTrace (presentedBytes onesDrive 1 addressed.events)
      ↔ pulledUp.level false false true = false
        ∧ ∀ byte ∈ (presentedBytes onesDrive 1 addressed.events).tail, byte = 0 :=
  receiveBytes_received_iff onesDrive_obeys rfl (by decide)
    { scl := rfl, low := rfl, pins := rfl, events := rfl } 1 (by decide) (addressed_meets _)

/-- They are not received: a STOP follows the first one. -/
theorem receiveBytes_stopped_ones
    : ¬ (((receiveBytes 1).run (port pulledUp ones) addressed).1
          = presentedBytes onesDrive 1 addressed.events
        ∧ ((receiveBytes 1).run (port pulledUp ones) addressed).2.events
          = addressed.events ++ receiveTrace (presentedBytes onesDrive 1 addressed.events)) := by
  decide +kernel

end At32.GpioIic
