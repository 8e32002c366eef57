import At32.Lib.I2c

/-! The I2C master on two pins of a port: its primitives, action by action, and what each
leaves on the bus with a slave that keeps to the protocol.
-/

namespace At32.GpioIic

open I2c Port

/-- Code over the operations of simulation_iic_ops_t. -/
abbrev Gpio : Type → Type := Program Action Bool

abbrev iicSdaOut : Gpio Unit := .emit .sdaOut
abbrev iicSdaIn : Gpio Unit := .emit .sdaIn
abbrev iicScl (status : Bool) : Gpio Unit := .emit (.scl status)
abbrev iicSda (status : Bool) : Gpio Unit := .emit (.sda status)
abbrev iicDelay (time : Nat) : Gpio Unit := .emit (.delay time)
abbrev readSda : Gpio Bool := .read

/-- IIC_Start -/
def iicStart : Gpio Unit := do
  iicSdaOut
  iicSda true
  iicScl true
  iicDelay 5
  iicSda false
  iicDelay 5
  iicScl false

/-- IIC_Stop -/
def iicStop : Gpio Unit := do
  iicSdaOut
  iicScl false
  iicSda false
  iicDelay 5
  iicScl true
  iicSda true
  iicDelay 5

/-- The loop of IIC_WaitAck while the timeout has more than (spare) counts left; what it
prints is left out.
-/
def waitAckLoop : Nat → Gpio UInt8
  | 0 => do
      if ← readSda then
        iicStop
        return 0
      else
        iicScl false
        return 1
  | spare + 1 => do
      if ← readSda then
        waitAckLoop spare
      else
        iicScl false
        return 1

/-- IIC_WaitAck -/
def iicWaitAck : Gpio UInt8 := do
  iicSdaIn
  iicSda true
  iicDelay 2
  iicScl true
  iicDelay 2
  waitAckLoop (0x01000 - 1)

/-- IIC_Ack -/
def iicAck : Gpio Unit := do
  iicScl false
  iicSdaOut
  iicDelay 2
  iicSda false
  iicDelay 2
  iicScl true
  iicDelay 5
  iicSda false

/-- IIC_NotAck -/
def iicNotAck : Gpio Unit := do
  iicScl false
  iicSdaOut
  iicDelay 2
  iicSda true
  iicDelay 2
  iicScl true
  iicDelay 5
  iicScl false

/-- The loop of IIC_SendData with (count) bits to come. -/
def sendDataLoop : Nat → UInt8 → Gpio Unit
  | 0, _ => pure ()
  | count + 1, data => do
      if (data &&& 0x80) >>> 7 ≠ 0 then
        iicSda true
      else
        iicSda false
      iicDelay 2
      iicScl true
      iicDelay 2
      iicScl false
      iicDelay 2
      sendDataLoop count (data <<< 1)

/-- IIC_SendData -/
def iicSendData (data : UInt8) : Gpio Unit := do
  iicSdaOut
  iicScl false
  iicDelay 2
  sendDataLoop 8 data

/-- The loop of IIC_ReceiveData with (count) bits to come. -/
def receiveDataLoop : Nat → UInt8 → Gpio UInt8
  | 0, ret => pure ret
  | count + 1, ret => do
      iicScl false
      iicDelay 2
      iicScl true
      iicDelay 2
      let level ← readSda
      iicDelay 2
      receiveDataLoop count (if level then ret <<< 1 + 1 else ret <<< 1)

/-- IIC_ReceiveData -/
def iicReceiveData (ack : UInt8) : Gpio UInt8 := do
  iicSdaIn
  let ret ← receiveDataLoop 8 0
  if ack ≠ 0 then
    iicAck
  else
    iicNotAck
  return ret

-----------------------------------------------------------------------------------------
-- What the primitives leave on the bus
-----------------------------------------------------------------------------------------

variable {τ : Type} {w : Wiring} {slave : Slave τ} {drive : List Event → Bool}
  {events : List Event}

/-- On an idle bus, IIC_Start is a START. -/
theorem iicStart_idle {sampled : Option Bool} {out : Bool}
    : Spec w slave drive (High w slave events sampled ⟨true, out, true⟩ true) iicStart
        (fun _ => Low (events ++ [.start]) ⟨false, true, false⟩) := by
  have kept : w.level true true true = w.level out true true := by
    cases out <;> simp [w.released, w.input]
  refine (Spec.high rfl kept).bind fun _ => ?_
  refine (Spec.high rfl rfl).bind fun _ => ?_
  refine (Spec.high rfl rfl).bind fun _ => ?_
  refine (Spec.high rfl rfl).bind fun _ => ?_
  refine (Spec.change false rfl (w.released true) (w.released false)).bind fun _ => ?_
  refine (Spec.high rfl rfl).bind fun _ => ?_
  exact Spec.fall rfl

/-- Inside a frame it is a repeated START, with no condition before it. -/
theorem iicStart_repeated (free : drive events = true) {out latch : Bool}
    : Spec w slave drive (Low events ⟨false, out, latch⟩) iicStart
        (fun _ => Low (events ++ [.start]) ⟨false, true, false⟩) := by
  refine (Spec.low rfl).bind fun _ => ?_
  refine (Spec.low rfl).bind fun _ => ?_
  refine (Spec.rise rfl free (w.released true)).bind fun _ => ?_
  refine (Spec.high rfl rfl).bind fun _ => ?_
  refine (Spec.change false rfl (w.released true) (w.released false)).bind fun _ => ?_
  refine (Spec.high rfl rfl).bind fun _ => ?_
  exact Spec.fall rfl

/-- IIC_Stop is a STOP and leaves the bus idle. -/
theorem iicStop_spec (free : drive events = true) {out latch : Bool}
    : Spec w slave drive (Low events ⟨false, out, latch⟩) iicStop
        (fun _ => High w slave (events ++ [.stop]) none ⟨true, true, true⟩ true) := by
  refine (Spec.low rfl).bind fun _ => ?_
  refine (Spec.low rfl).bind fun _ => ?_
  refine (Spec.low rfl).bind fun _ => ?_
  refine (Spec.low rfl).bind fun _ => ?_
  refine (Spec.rise rfl free (w.released false)).bind fun _ => ?_
  refine (Spec.change true rfl (w.released false) (w.released true)).bind fun _ => ?_
  exact Spec.high rfl rfl

/-- With an acknowledgement ready, IIC_WaitAck is one bit and returns at its first poll. -/
theorem iicWaitAck_spec (acknowledged : drive events = false) {out latch : Bool}
    : Spec w slave drive (Low events ⟨false, out, latch⟩) iicWaitAck
        (fun ret s => ret = 1 ∧ Low (events ++ [.bit false]) ⟨false, false, true⟩ s) := by
  refine (Spec.low rfl).bind fun _ => ?_
  refine (Spec.low rfl).bind fun _ => ?_
  refine (Spec.low rfl).bind fun _ => ?_
  refine (Spec.rise rfl acknowledged (w.input false)).bind fun _ => ?_
  refine (Spec.high rfl rfl).bind fun _ => ?_
  refine Spec.read (w.input false) ?_
  refine (Spec.complete rfl).bind fun _ => ?_
  exact .done fun _ here => ⟨rfl, here⟩

/-- IIC_Stop behind a bit that is not acknowledged completes that bit first. -/
theorem iicStop_refused (free : drive (events ++ [.bit true]) = true)
    : Spec w slave drive (High w slave events (some true) ⟨true, false, true⟩ true) iicStop
        (fun _ =>
          High w slave (events ++ [.bit true] ++ [.stop]) none ⟨true, true, true⟩ true) := by
  have released : w.level true true true = w.level false true true := by
    rw [w.released, w.input]
  refine (Spec.high rfl released).bind fun _ => ?_
  refine (Spec.complete rfl).bind fun _ => ?_
  refine (Spec.low rfl).bind fun _ => ?_
  refine (Spec.low rfl).bind fun _ => ?_
  refine (Spec.rise rfl free (w.released false)).bind fun _ => ?_
  refine (Spec.change true rfl (w.released false) (w.released true)).bind fun _ => ?_
  exact Spec.high rfl rfl

/-- With nobody to acknowledge, the polls of IIC_WaitAck go on to the last one, and it ends the
frame; by induction on the counts left.
-/
theorem waitAckLoop_refused (free : drive (events ++ [.bit true]) = true) (spare : Nat)
    : Spec w slave drive (High w slave events (some true) ⟨true, false, true⟩ true)
        (waitAckLoop spare)
        (fun ret s =>
          ret = 0
          ∧ High w slave (events ++ [.bit true] ++ [.stop]) none ⟨true, true, true⟩ true s) := by
  induction spare with
  | zero =>
      refine Spec.read (w.input true) ?_
      exact (iicStop_refused free).bind fun _ => .done fun _ here => ⟨rfl, here⟩
  | succ spare ih => exact Spec.read (w.input true) ih

/-- Then IIC_WaitAck is one bit and a STOP, and leaves the bus idle. -/
theorem iicWaitAck_refused (silent : drive events = true)
    (free : drive (events ++ [.bit true]) = true) {out latch : Bool}
    : Spec w slave drive (Low events ⟨false, out, latch⟩) iicWaitAck
        (fun ret s =>
          ret = 0
          ∧ High w slave (events ++ [.bit true] ++ [.stop]) none ⟨true, true, true⟩ true s) := by
  refine (Spec.low rfl).bind fun _ => ?_
  refine (Spec.low rfl).bind fun _ => ?_
  refine (Spec.low rfl).bind fun _ => ?_
  refine (Spec.rise rfl silent (w.input true)).bind fun _ => ?_
  refine (Spec.high rfl rfl).bind fun _ => ?_
  exact waitAckLoop_refused free _

/-- The test of IIC_SendData is for the highest bit, by cases on the byte. -/
theorem test_eq (data : UInt8)
    : decide ((data &&& 0x80) >>> 7 ≠ 0) = data.toBitVec.getMsbD 0 := by
  obtain ⟨bits⟩ := data
  revert bits
  decide

/-- A round of IIC_SendData puts the highest bit on SDA. -/
theorem sendDataLoop_succ (count : Nat) (data : UInt8)
    : sendDataLoop (count + 1) data
      = (do
        iicSda (data.toBitVec.getMsbD 0)
        iicDelay 2
        iicScl true
        iicDelay 2
        iicScl false
        iicDelay 2
        sendDataLoop count (data <<< 1)) := by
  rw [sendDataLoop, ← test_eq]
  by_cases high : (data &&& 0x80) >>> 7 ≠ 0
  · simp only [if_pos high, decide_eq_true high]
  · simp only [if_neg high, decide_eq_false high]

/-- The highest bits of a byte go out one after another while it is the turn of the master;
by induction on the bits to come.
-/
theorem sendDataLoop_spec {address : List Bool} (obeys : Obeys address drive) {first : Bool}
    (count : Nat) (data : UInt8) {sent : List Bool}
    (turn : 0 < count → phase address events = .fromMaster first sent)
    (eight : sent.length + count ≤ 8) {latch : Bool}
    : Spec w slave drive (Low events ⟨false, true, latch⟩) (sendDataLoop count data)
        (fun _ s =>
          ∃ latch,
            Low (events ++ ((List.range count).map data.toBitVec.getMsbD).map .bit)
              ⟨false, true, latch⟩ s) := by
  induction count generalizing events data sent latch with
  | zero =>
      refine .done fun _ here => ⟨latch, ?_⟩
      rwa [List.range_zero, List.map_nil, List.map_nil, List.append_nil]
  | succ count ih =>
      have here := turn (Nat.succ_pos count)
      have free : drive events = true := obeys events true (by rw [here]; rfl)
      have shifted : (List.range (count + 1)).map data.toBitVec.getMsbD
          = data.toBitVec.getMsbD 0 :: (List.range count).map (data <<< 1).toBitVec.getMsbD := by
        rw [List.range_succ_eq_map, List.map_cons, List.map_map, UInt8.toBitVec_shiftLeft]
        simp
      rw [sendDataLoop_succ, shifted, List.map_cons]
      refine (Spec.low rfl).bind fun _ => ?_
      refine (Spec.low rfl).bind fun _ => ?_
      refine (Spec.rise rfl free (w.released _)).bind fun _ => ?_
      refine (Spec.high rfl rfl).bind fun _ => ?_
      refine (Spec.complete rfl).bind fun _ => ?_
      refine (Spec.low rfl).bind fun _ => ?_
      have next : 0 < count
          → phase address (events ++ [.bit (data.toBitVec.getMsbD 0)])
            = .fromMaster first (sent ++ [data.toBitVec.getMsbD 0]) := by
        intro more
        rw [phase_append, here]
        exact if_pos (by omega)
      refine (ih (data <<< 1) next (by rw [List.length_append]; simpa using by omega)).weaken
        (fun _ low => low) fun _ s low => ?_
      rwa [List.append_assoc, List.singleton_append] at low

/-- IIC_SendData sends the bits of the byte, the highest first. -/
theorem iicSendData_spec {address : List Bool} (obeys : Obeys address drive) {first : Bool}
    (data : UInt8) (turn : phase address events = .fromMaster first []) {out latch : Bool}
    : Spec w slave drive (Low events ⟨false, out, latch⟩) (iicSendData data)
        (fun _ s =>
          ∃ latch, Low (events ++ (byteBits data).map .bit) ⟨false, true, latch⟩ s) := by
  refine (Spec.low rfl).bind fun _ => ?_
  refine (Spec.low rfl).bind fun _ => ?_
  refine (Spec.low rfl).bind fun _ => ?_
  exact sendDataLoop_spec obeys 8 data (fun _ => turn) (Nat.le_refl 8)

/-- SCL is about to fall, or has fallen, behind the events, with SDA an input. -/
def Falling (w : Wiring) (slave : Slave τ) (latch : Bool) (events : List Event) (s : Bus τ)
    : Prop :=
  Low events ⟨false, false, latch⟩ s
  ∨ ∃ before sda level,
      events = before ++ [.bit sda]
      ∧ High w slave before (some sda) ⟨true, false, latch⟩ level s

/-- SCL is about to fall, or has fallen, behind the events, with SDA an input pulled up. -/
def Received (w : Wiring) (slave : Slave τ) (events : List Event) (s : Bus τ) : Prop :=
  Low events ⟨false, false, true⟩ s
  ∨ ∃ before sda level,
      events = before ++ [.bit sda]
      ∧ High w slave before (some sda) ⟨true, false, true⟩ level s

/-- The fall of SCL in the next round completes the bit before it. -/
theorem falling_fall {latch : Bool}
    : Spec w slave drive (Falling w slave latch events) (iicScl false)
        (fun _ => Low events ⟨false, false, latch⟩) := by
  intro s here ideal
  rcases here with low | ⟨before, sda, level, rfl, high⟩
  · exact Spec.low rfl s low ideal
  · exact Spec.complete rfl s high ideal

/-- The bits that the slave presents are shifted in, if the line follows the slave in each;
by induction on the bits to come.
-/
theorem receiveDataLoop_follows {latch : Bool} (count : Nat) (ret : UInt8)
    (follows : ∀ level ∈ driven drive count events, w.level false latch level = level)
    : Spec w slave drive (Falling w slave latch events) (receiveDataLoop count ret)
        (fun result s =>
          result = (driven drive count events).foldl shiftIn ret
          ∧ Falling w slave latch (events ++ (driven drive count events).map .bit) s) := by
  induction count generalizing events ret with
  | zero =>
      refine .done fun _ here => ⟨rfl, ?_⟩
      rwa [driven, List.map_nil, List.append_nil]
  | succ count ih =>
      obtain ⟨first, later⟩ := List.forall_mem_cons.mp follows
      refine falling_fall.bind fun _ => ?_
      refine (Spec.low rfl).bind fun _ => ?_
      refine (Spec.rise rfl rfl first).bind fun _ => ?_
      refine (Spec.high rfl rfl).bind fun _ => ?_
      refine Spec.read first ?_
      refine (Spec.high rfl rfl).bind fun _ => ?_
      refine (ih _ later).weaken (fun s high => Or.inr ⟨events, _, _, rfl, high⟩)
        fun _ s here => ?_
      rwa [List.append_assoc, List.singleton_append] at here

/-- With the input pulled up it does. -/
theorem receiveDataLoop_spec (count : Nat) (ret : UInt8)
    : Spec w slave drive (Received w slave events) (receiveDataLoop count ret)
        (fun result s =>
          result = (driven drive count events).foldl shiftIn ret
          ∧ Received w slave (events ++ (driven drive count events).map .bit) s) :=
  receiveDataLoop_follows count ret fun level _ => w.input level

/-- IIC_NotAck is one bit, behind the fall of SCL that completes the bit before it. -/
theorem iicNotAck_spec {latch : Bool} (free : drive events = true)
    : Spec w slave drive (Falling w slave latch events) iicNotAck
        (fun _ => Low (events ++ [.bit true]) ⟨false, true, true⟩) := by
  refine falling_fall.bind fun _ => ?_
  refine (Spec.low rfl).bind fun _ => ?_
  refine (Spec.low rfl).bind fun _ => ?_
  refine (Spec.low rfl).bind fun _ => ?_
  refine (Spec.low rfl).bind fun _ => ?_
  refine (Spec.rise rfl free (w.released true)).bind fun _ => ?_
  refine (Spec.high rfl rfl).bind fun _ => ?_
  exact Spec.complete rfl

/-- IIC_Ack is one bit, which is not complete yet: SCL stays high. -/
theorem iicAck_spec {latch : Bool} (free : drive events = true)
    : Spec w slave drive (Falling w slave latch events) iicAck
        (fun _ => High w slave events (some false) ⟨true, true, false⟩ true) := by
  refine falling_fall.bind fun _ => ?_
  refine (Spec.low rfl).bind fun _ => ?_
  refine (Spec.low rfl).bind fun _ => ?_
  refine (Spec.low rfl).bind fun _ => ?_
  refine (Spec.low rfl).bind fun _ => ?_
  refine (Spec.rise rfl free (w.released false)).bind fun _ => ?_
  refine (Spec.high rfl rfl).bind fun _ => ?_
  exact Spec.high rfl rfl

/-- IIC_ReceiveData(0) takes eight bits from the slave and does not acknowledge them. -/
theorem iicReceiveData_spec
    (free : drive (events ++ (driven drive 8 events).map .bit) = true) {out : Bool}
    : Spec w slave drive (Low events ⟨false, out, true⟩) (iicReceiveData 0)
        (fun result s =>
          result = byteOf (driven drive 8 events)
          ∧ Low (events ++ (driven drive 8 events).map .bit ++ [.bit true])
              ⟨false, true, true⟩ s) := by
  refine (Spec.low rfl).bind fun _ => ?_
  refine ((receiveDataLoop_spec 8 0).weaken (fun s low => Or.inl low)
    fun _ _ here => here).bind fun result => .and_pre fun taken => ?_
  change Spec w slave drive _ (iicNotAck >>= fun _ => pure result) _
  refine (iicNotAck_spec free).bind fun _ => ?_
  exact .done fun _ here => ⟨taken, here⟩

end At32.GpioIic
