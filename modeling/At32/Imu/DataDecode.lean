import At32.Imu.PacketDecode
import Mathlib.Data.Rat.Defs

/-! The event handler of the packet decoder: a walk over the items of the payload, each
led by its tag, that fills the records of the sensor.
-/

namespace At32.Imu

open LittleEndian

abbrev MAX_LENGTH : Nat := 16

abbrev BIT_VALID_ID : UInt8 := 0x01
abbrev BIT_VALID_ACC : UInt8 := 0x02
abbrev BIT_VALID_GYR : UInt8 := 0x04
abbrev BIT_VALID_MAG : UInt8 := 0x08
abbrev BIT_VALID_EUL : UInt8 := 0x10
abbrev BIT_VALID_QUAT : UInt8 := 0x20
abbrev BIT_VALID_ALL : UInt8 :=
  BIT_VALID_ID ||| BIT_VALID_ACC ||| BIT_VALID_GYR ||| BIT_VALID_MAG ||| BIT_VALID_EUL
    ||| BIT_VALID_QUAT

/-- ItemID_t; kItemEnd, which the walk steps over like any other byte, is left out. -/
inductive ItemID
  | id
  | accRaw
  | gyrRaw
  | magRaw
  | rotationEul
  | rotationQuat
  | pressure
  | imusol
  | gwsol
  deriving DecidableEq, Repr

def ItemID.tag : ItemID → UInt8
  | .id => 0x90
  | .accRaw => 0xA0
  | .gyrRaw => 0xB0
  | .magRaw => 0xC0
  | .rotationEul => 0xD0
  | .rotationQuat => 0xD1
  | .pressure => 0xF0
  | .imusol => 0x91
  | .gwsol => 0x62

/-- The case label that a byte matches. -/
def ItemID.ofByte? (byte : UInt8) : Option ItemID :=
  [ItemID.id, .accRaw, .gyrRaw, .magRaw, .rotationEul, .rotationQuat, .pressure, .imusol,
    .gwsol].find? (·.tag == byte)

/-- Every tag matches its own case label, by cases. -/
@[simp] theorem ItemID.ofByte?_tag (item : ItemID) : ofByte? item.tag = some item := by
  cases item <;> rfl

/-- A float of a record: a quotient before it is rounded, or four bytes copied into it. -/
inductive FloatCell
  | quotient (value : ℚ)
  | raw (bytes : Vector UInt8 4)
  deriving DecidableEq

/-- (float)temp / scale. -/
def FloatCell.scaled (scale : ℚ) (temp : Int) : FloatCell := .quotient (temp / scale)

/-- An array of three elements. -/
def vec3 {α : Type} (x y z : α) : Vector α 3 := #v[x, y, z]

/-- A byte of an array; the caller stays inside. -/
def byteAt {n : Nat} (bytes : Vector UInt8 n) (index : Nat) : UInt8 := bytes[index]?.getD 0

/-- The floats that memcpy fills from the bytes at (start) on. -/
def floats (byte : Nat → UInt8) (start count : Nat) : Vector FloatCell count :=
  Vector.ofFn fun i => .raw (Vector.ofFn fun k : Fin 4 => byte (start + 4 * i + k))

/-- receive_imusol_packet_t -/
structure ReceiveImusol where
  tag : UInt8
  id : UInt8
  acc : Vector FloatCell 3
  gyr : Vector FloatCell 3
  mag : Vector FloatCell 3
  eul : Vector FloatCell 3
  quat : Vector FloatCell 4
  deriving DecidableEq

/-- receive_gwsol_packet_t -/
structure ReceiveGwsol where
  tag : UInt8
  gwId : UInt8
  n : UInt8
  receiveImusol : Vector ReceiveImusol MAX_LENGTH
  deriving DecidableEq

/-- The global variables of imu_data_decode. -/
structure Sensor where
  frameCount : UInt32
  bitmap : UInt8
  receiveImusol : ReceiveImusol
  receiveGwsol : ReceiveGwsol
  deriving DecidableEq

def ReceiveImusol.init : ReceiveImusol :=
  let zero := FloatCell.raw (Vector.replicate 4 0)
  {
    tag := 0
    id := 0
    acc := Vector.replicate 3 zero
    gyr := Vector.replicate 3 zero
    mag := Vector.replicate 3 zero
    eul := Vector.replicate 3 zero
    quat := Vector.replicate 4 zero
  }

/-- The variables at power-on. -/
def Sensor.init : Sensor :=
  {
    frameCount := 0
    bitmap := 0
    receiveImusol := .init
    receiveGwsol :=
      { tag := 0, gwId := 0, n := 0, receiveImusol := Vector.replicate MAX_LENGTH .init }
  }

-----------------------------------------------------------------------------------------
-- The walk and the accesses it makes
-----------------------------------------------------------------------------------------

/-- An access to an array: (count) bytes of pkt->buf from (start) on are read, or a record
of receive_gwsol.receive_imusol is written.
-/
inductive Access
  | read (start count : Nat)
  | writeImusol (i : Nat)
  deriving DecidableEq

/-- The bytes read are below (length), and the record written is one of the array. -/
def Access.Within (length : Nat) : Access → Prop
  | .read start count => start + count ≤ length
  | .writeImusol i => i < MAX_LENGTH

instance (length : Nat) : DecidablePred (Access.Within length)
  | .read start count => inferInstanceAs (Decidable (start + count ≤ length))
  | .writeImusol i => inferInstanceAs (Decidable (i < MAX_LENGTH))

/-- What is below a length is below every greater one. -/
theorem Access.Within.mono {access : Access} {length more : Nat} (within : access.Within length)
    (le : length ≤ more)
    : access.Within more := by
  cases access with
  | read start count => exact Nat.le_trans within le
  | writeImusol i => exact within

/-- p[index]; an index outside the buffer is an access that ends the walk. -/
def Packet.byte (pkt : Packet) (index : Nat) : UInt8 := byteAt pkt.buf index

/-- The payload of a packet that fits the buffer has the declared length. -/
theorem Packet.payload_length (pkt : Packet) (short : pkt.payloadLen.toNat < MAX_PACKET_LEN)
    : pkt.payload.length = pkt.payloadLen.toNat := by
  rw [Packet.payload, List.length_take_of_le (by rw [Vector.length_toList]; omega)]

/-- The bytes below the declared length are those of the payload. -/
theorem Packet.payload_getElem? (pkt : Packet) (short : pkt.payloadLen.toNat < MAX_PACKET_LEN)
    {index : Nat} (inside : index < pkt.payloadLen.toNat)
    : pkt.payload[index]? = some (pkt.byte index) := by
  have within : index < MAX_PACKET_LEN := by omega
  rw [Packet.payload, List.getElem?_take_of_lt inside, Vector.getElem?_toList, Packet.byte,
    byteAt, Vector.getElem?_eq_getElem within, Option.getD_some]

/-- A packet with this payload at the front of a cleared buffer. -/
def Packet.ofPayload (payload : List UInt8) : Packet :=
  {
    Packet.zero with
    buf := Buffer.store Packet.zero.buf 0 payload
    payloadLen := UInt16.ofNat payload.length
    type := 0xA5
  }

theorem Packet.ofPayload_payloadLen {payload : List UInt8}
    (short : payload.length < MAX_PACKET_LEN)
    : (Packet.ofPayload payload).payloadLen.toNat = payload.length := by
  exact UInt16.toNat_ofNat_of_lt (Nat.lt_trans short (by decide))

/-- The payload of such a packet is the one it was made of. -/
theorem Packet.ofPayload_payload {payload : List UInt8} (short : payload.length < MAX_PACKET_LEN)
    : (Packet.ofPayload payload).payload = payload := by
  rw [Packet.payload, ofPayload_payloadLen short]
  exact Buffer.take_store _ payload (Nat.le_of_lt short)

/-- stream2int16 on p + start. -/
def stream2int16 (src : Nat → UInt8) (start : Nat) : Vector Int 3 :=
  vec3
    (half (src start) (src (start + 1))).toInt16.toInt
    (half (src (start + 2)) (src (start + 3))).toInt16.toInt
    (half (src (start + 4)) (src (start + 5))).toInt16.toInt

/-- A record after memcpy of 16 floats into its fields from acc on. -/
def ReceiveImusol.copied (tag id : UInt8) (byte : Nat → UInt8) (start : Nat) : ReceiveImusol :=
  {
    tag := tag
    id := id
    acc := floats byte start 3
    gyr := floats byte (start + 12) 3
    mag := floats byte (start + 24) 3
    eul := floats byte (start + 36) 3
    quat := floats byte (start + 48) 4
  }

/-- What one case of the switch does: the variables and the offset after it, and the
accesses that it makes, in order.
-/
structure ItemStep where
  sensor : Sensor
  offset : Nat
  accesses : List Access

/-- The loop over the records of an RFSOL item, with (remaining) records from (i) on. -/
def gwsolRecords (pkt : Packet) : Nat → Nat → Sensor → Nat → ItemStep
  | 0, _, s, offset => { sensor := s, offset := offset, accesses := [] }
  | remaining + 1, i, s, offset =>
      let record : ReceiveImusol :=
        .copied (pkt.byte offset) (pkt.byte (offset + 1)) pkt.byte (offset + 12)
      let s : Sensor :=
        { s with
          bitmap := BIT_VALID_ALL
          receiveGwsol.receiveImusol :=
            s.receiveGwsol.receiveImusol.setIfInBounds i record }
      let after := gwsolRecords pkt remaining (i + 1) s (offset + 76)
      { after with
        accesses :=
          [.read offset 2, .writeImusol i, .read (offset + 12) 64] ++ after.accesses }

/-- The switch on the byte at (offset). -/
def onItem (pkt : Packet) (s : Sensor) (offset : Nat) : ItemStep :=
  match ItemID.ofByte? (pkt.byte offset) with
  | some .id =>
      {
        sensor :=
          { s with
            bitmap := s.bitmap ||| BIT_VALID_ID
            -- p[1], not p[offset + 1]
            receiveImusol.id := pkt.byte 1 }
        offset := offset + 2
        accesses := [.read 1 1]
      }
  | some .accRaw =>
      let temp := stream2int16 pkt.byte (offset + 1)
      {
        sensor :=
          { s with
            bitmap := s.bitmap ||| BIT_VALID_ACC
            receiveImusol.acc :=
              vec3 (.scaled 1000 temp[0]) (.scaled 1000 temp[1]) (.scaled 1000 temp[2]) }
        offset := offset + 7
        accesses := [.read (offset + 1) 6]
      }
  | some .gyrRaw =>
      let temp := stream2int16 pkt.byte (offset + 1)
      {
        sensor :=
          { s with
            bitmap := s.bitmap ||| BIT_VALID_GYR
            receiveImusol.gyr :=
              vec3 (.scaled 10 temp[0]) (.scaled 10 temp[1]) (.scaled 10 temp[2]) }
        offset := offset + 7
        accesses := [.read (offset + 1) 6]
      }
  | some .magRaw =>
      let temp := stream2int16 pkt.byte (offset + 1)
      {
        sensor :=
          { s with
            bitmap := s.bitmap ||| BIT_VALID_MAG
            receiveImusol.mag :=
              vec3 (.scaled 10 temp[0]) (.scaled 10 temp[1]) (.scaled 10 temp[2]) }
        offset := offset + 7
        accesses := [.read (offset + 1) 6]
      }
  | some .rotationEul =>
      let temp := stream2int16 pkt.byte (offset + 1)
      {
        sensor :=
          { s with
            bitmap := s.bitmap ||| BIT_VALID_EUL
            receiveImusol.eul :=
              vec3 (.scaled 100 temp[1]) (.scaled 100 temp[0]) (.scaled 10 temp[2]) }
        offset := offset + 7
        accesses := [.read (offset + 1) 6]
      }
  | some .rotationQuat =>
      {
        sensor :=
          { s with
            bitmap := s.bitmap ||| BIT_VALID_QUAT
            receiveImusol.quat := floats pkt.byte (offset + 1) 4 }
        offset := offset + 17
        accesses := [.read (offset + 1) 16]
      }
  | some .pressure => { sensor := s, offset := offset + 5, accesses := [] }
  | some .imusol =>
      {
        sensor :=
          { s with
            bitmap := BIT_VALID_ALL
            -- p + 12, not p + offset + 12
            receiveImusol :=
              .copied s.receiveImusol.tag (pkt.byte (offset + 1)) pkt.byte 12 }
        offset := offset + 76
        accesses := [.read (offset + 1) 1, .read 12 64]
      }
  | some .gwsol =>
      let n := pkt.byte (offset + 2)
      let s : Sensor :=
        { s with
          receiveGwsol.tag := pkt.byte offset
          receiveGwsol.gwId := pkt.byte (offset + 1)
          receiveGwsol.n := n }
      let after := gwsolRecords pkt n.toNat 0 s (offset + 8)
      { after with accesses := .read offset 3 :: after.accesses }
  | none => { sensor := s, offset := offset + 1, accesses := [] }

/-- The record loop moves on by one record size a round. -/
theorem gwsolRecords_offset (pkt : Packet) (remaining i : Nat) (s : Sensor) (offset : Nat)
    : (gwsolRecords pkt remaining i s offset).offset = offset + 76 * remaining := by
  induction remaining generalizing i s offset with
  | zero => rfl
  | succ remaining ih =>
      rw [gwsolRecords, ih]
      omega

/-- Every case moves on, by cases on the tag. -/
theorem onItem_advances (pkt : Packet) (s : Sensor) (offset : Nat)
    : offset < (onItem pkt s offset).offset := by
  unfold onItem
  split
  case h_9 =>
    rw [gwsolRecords_offset]
    omega
  all_goals exact Nat.lt_add_of_pos_right (by decide)

/-- What the walk does before the switch: at the first byte, a new frame is counted. -/
def enterItem (s : Sensor) (offset : Nat) : Sensor :=
  if offset = 0 then { s with frameCount := s.frameCount + 1, bitmap := 0 } else s

/-- The walk over the payload from (offset) on, with the accesses it makes, in order. It
ends at the first access outside the arrays, where the behaviour of the source is undefined.
-/
def walk (pkt : Packet) (s : Sensor) (offset : Nat) : Except Access (Sensor × List Access) :=
  if offset < pkt.payloadLen.toNat then
    let step := onItem pkt (enterItem s offset) offset
    let accesses := .read offset 1 :: step.accesses
    match accesses.find? (fun access => ¬access.Within MAX_PACKET_LEN) with
    | some access => .error access
    | none =>
        match walk pkt step.sensor step.offset with
        | .error access => .error access
        | .ok (after, log) => .ok (after, accesses ++ log)
  else
    .ok (s, [])
termination_by pkt.payloadLen.toNat - offset
decreasing_by
  have advanced := onItem_advances pkt (enterItem s offset) offset
  omega

/-- on_data_received -/
def onDataReceived (s : Sensor) (pkt : Packet) : Except Access (Sensor × List Access) :=
  if pkt.type = 0xA5 then walk pkt s 0 else .ok (s, [])

/-- A walk whose offset has reached the declared length ends. -/
theorem walk_done (pkt : Packet) (s : Sensor) {offset : Nat}
    (past : pkt.payloadLen.toNat ≤ offset)
    : walk pkt s offset = .ok (s, []) := by
  rw [walk, if_neg (by omega)]

/-- A walk completes exactly when its first item stays inside the arrays and the walk from
the next one completes.
-/
theorem walk_item (pkt : Packet) (s : Sensor) {offset : Nat}
    (inside : offset < pkt.payloadLen.toNat) (t : Sensor) (log : List Access)
    : walk pkt s offset = .ok (t, log)
      ↔ ∃ rest,
          log = .read offset 1 :: (onItem pkt (enterItem s offset) offset).accesses ++ rest
          ∧ (∀ access ∈ Access.read offset 1 :: (onItem pkt (enterItem s offset) offset).accesses,
              access.Within MAX_PACKET_LEN)
          ∧ walk pkt (onItem pkt (enterItem s offset) offset).sensor
              (onItem pkt (enterItem s offset) offset).offset = .ok (t, rest) := by
  rw [walk, if_pos inside]
  generalize onItem pkt (enterItem s offset) offset = step
  cases found : (Access.read offset 1 :: step.accesses).find?
      (fun access => ¬access.Within MAX_PACKET_LEN) with
  | some access =>
      have outside := List.find?_some found
      have member := List.mem_of_find?_eq_some found
      simp only [found]
      constructor
      · intro failed
        cases failed
      · intro completes
        obtain ⟨rest, -, within, -⟩ := completes
        exact absurd (within access member) (by simpa using outside)
  | none =>
      have within : ∀ access ∈ Access.read offset 1 :: step.accesses,
          access.Within MAX_PACKET_LEN := by
        intro access member
        simpa using List.find?_eq_none.mp found access member
      simp only [found]
      cases next : walk pkt step.sensor step.offset with
      | error access => simp
      | ok result =>
          obtain ⟨after, tail⟩ := result
          constructor
          · intro completed
            obtain ⟨rfl, rfl⟩ := Prod.mk.inj (Except.ok.inj completed)
            exact ⟨tail, rfl, within, rfl⟩
          · intro completes
            obtain ⟨rest, rfl, -, completed⟩ := completes
            obtain ⟨rfl, rfl⟩ := Prod.mk.inj (Except.ok.inj completed)
            rfl

end At32.Imu
