import At32.Imu.Completeness
import At32.Imu.Items

/-! A frame of a gateway from its first byte to the slots of its node records: the packet
decoder with the event handler behind it, as imu_data_decode_init connects them.
-/

namespace At32.Imu

open LittleEndian Transducer

/-- packet_decode with on_data_received as its event handler. The outputs are the accesses
that the handler makes.
-/
def imuDataDecode : Decoder × Sensor → UInt8
    → Except (Fault ⊕ Access) ((Decoder × Sensor) × List Access) :=
  cascade decodeStep onDataReceived

/-- A node record as the gateway sends it. -/
abbrev NodeRecord : Type := Vector UInt8 76

/-- What a gateway sends in one frame. -/
structure Gateway where
  gwId : UInt8
  reserved : Vector UInt8 5
  records : List NodeRecord
  fits : records.length ≤ MAX_LENGTH

namespace Gateway

def n (gateway : Gateway) : UInt8 := UInt8.ofNat gateway.records.length

def header (gateway : Gateway) : List UInt8 :=
  [ItemID.gwsol.tag, gateway.gwId, gateway.n] ++ gateway.reserved.toList

def payload (gateway : Gateway) : List UInt8 :=
  gateway.header ++ gateway.records.flatMap Vector.toList

theorem header_length (gateway : Gateway) : gateway.header.length = 8 := by
  simp [header]

/-- Records have one length, by induction. -/
theorem records_length (records : List NodeRecord)
    : (records.flatMap Vector.toList).length = 76 * records.length := by
  induction records with
  | nil => rfl
  | cons record rest ih =>
      rw [List.flatMap_cons, List.length_append, ih, Vector.length_toList, List.length_cons]
      omega

theorem payload_length (gateway : Gateway)
    : gateway.payload.length = 8 + 76 * gateway.records.length := by
  rw [payload, List.length_append, header_length, records_length]

theorem n_toNat (gateway : Gateway) : gateway.n.toNat = gateway.records.length := by
  have fits := gateway.fits
  rw [n, UInt8.toNat_ofNat']
  exact Nat.mod_eq_of_lt (Nat.lt_of_le_of_lt fits (by decide))

theorem payload_fits (gateway : Gateway) : gateway.payload.length < MAX_PACKET_LEN := by
  have fits := gateway.fits
  have slots : MAX_LENGTH = 16 := rfl
  have capacity : MAX_PACKET_LEN = 2048 := rfl
  rw [payload_length]
  omega

/-- The check value over the frame. -/
def crc (gateway : Gateway) : UInt16 :=
  let len := UInt16.ofNat gateway.payload.length
  crc16Update 0 ([0x5A, 0xA5, lowByte len, highByte len] ++ gateway.payload)

/-- The frame with the check bytes that match. -/
def frame (gateway : Gateway) : Frame :=
  {
    payload := gateway.payload
    crcLow := lowByte gateway.crc
    crcHigh := highByte gateway.crc
    nonempty := by
      rw [payload_length]
      omega
    fits := gateway.payload_fits
  }

theorem frame_valid (gateway : Gateway) : gateway.frame.Valid :=
  (half_bytes gateway.crc).symm

end Gateway

/-- The floats of a slot in the order of its fields. -/
def ReceiveImusol.cells (slot : ReceiveImusol) : List FloatCell :=
  slot.acc.toList ++ slot.gyr.toList ++ slot.mag.toList ++ slot.eul.toList ++ slot.quat.toList

/-- A slot holds the tag and the id of a record, and in its fields, one after another, the
64 bytes at offset 12.
-/
structure NodeRecord.HeldBy (record : NodeRecord) (slot : ReceiveImusol) : Prop where
  tag : slot.tag = record[0]
  id : slot.id = record[1]
  cells : slot.cells = (floats (byteAt record) 12 16).toList

/-- The variables after a gateway frame: the slots of its records hold them, the other slots
and the record of the sensor itself are as before.
-/
structure Gateway.Received (gateway : Gateway) (s t : Sensor) : Prop where
  tag : t.receiveGwsol.tag = 0x62
  gwId : t.receiveGwsol.gwId = gateway.gwId
  n : t.receiveGwsol.n.toNat = gateway.records.length
  slots : ∀ (i : Nat) (record : NodeRecord),
    gateway.records[i]? = some record
    → ∃ slot, t.receiveGwsol.receiveImusol[i]? = some slot ∧ record.HeldBy slot
  others : ∀ i,
    gateway.records.length ≤ i
    → t.receiveGwsol.receiveImusol[i]? = s.receiveGwsol.receiveImusol[i]?
  receiveImusol : t.receiveImusol = s.receiveImusol

/-- The offset at which the walk ends. -/
def walkEnd (pkt : Packet) (s : Sensor) (offset : Nat) : Nat :=
  if offset < pkt.payloadLen.toNat then
    let step := onItem pkt (enterItem s offset) offset
    walkEnd pkt step.sensor step.offset
  else
    offset
termination_by pkt.payloadLen.toNat - offset
decreasing_by
  have advanced := onItem_advances pkt (enterItem s offset) offset
  omega

-----------------------------------------------------------------------------------------
-- The loop over the records
-----------------------------------------------------------------------------------------

/-- The slot that the loop fills from the bytes at (offset). -/
def slotAt (pkt : Packet) (offset : Nat) : ReceiveImusol :=
  .copied (pkt.byte offset) (pkt.byte (offset + 1)) pkt.byte (offset + 12)

/-- The slots that the loop fills in turn. -/
def slotsAt (pkt : Packet) : Nat → Nat → List ReceiveImusol
  | _, 0 => []
  | offset, count + 1 => slotAt pkt offset :: slotsAt pkt (offset + 76) count

theorem slotsAt_length (pkt : Packet) (offset count : Nat)
    : (slotsAt pkt offset count).length = count := by
  induction count generalizing offset with
  | zero => rfl
  | succ count ih => rw [slotsAt, List.length_cons, ih]

/-- The loop stores its slots in turn and changes nothing else but the bitmap; by induction
on the records still to come.
-/
theorem gwsolRecords_sensor (pkt : Packet) (remaining i : Nat) (s : Sensor) (offset : Nat)
    : (gwsolRecords pkt remaining i s offset).sensor
      = { s with
          bitmap := if remaining = 0 then s.bitmap else BIT_VALID_ALL
          receiveGwsol.receiveImusol :=
            Buffer.store s.receiveGwsol.receiveImusol i (slotsAt pkt offset remaining) } := by
  induction remaining generalizing i s offset with
  | zero => rfl
  | succ remaining ih =>
      rw [gwsolRecords]
      simp only [ih, Nat.succ_ne_zero, if_false, slotsAt, Buffer.store, ite_self]
      rfl

/-- The sixteen floats of a slot are filled by one copy that runs through its fields. -/
theorem ReceiveImusol.copied_cells (tag id : UInt8) (byte : Nat → UInt8) (start : Nat)
    : (copied tag id byte start).cells = (floats byte start 16).toList := by
  simp only [cells, copied, floats, Vector.toList_ofFn, List.ofFn_succ, List.ofFn_zero]
  rfl

/-- The bytes of a record are found behind what comes before it. -/
theorem Packet.byte_record {pkt : Packet} (short : pkt.payloadLen.toNat < MAX_PACKET_LEN)
    {front back : List UInt8} {record : NodeRecord}
    (payload : pkt.payload = front ++ (record.toList ++ back)) {k : Nat} (inside : k < 76)
    : pkt.byte (front.length + k) = byteAt record k := by
  have length := pkt.payload_length short
  have place : k < record.toList.length := by rwa [Vector.length_toList]
  have total : front.length + k < pkt.payloadLen.toNat := by
    rw [← length, payload, List.length_append, List.length_append]
    omega
  have held := pkt.payload_getElem? short total
  rw [payload, List.getElem?_append_right (Nat.le_add_right _ _), Nat.add_sub_cancel_left,
    List.getElem?_append_left place, Vector.getElem?_toList] at held
  rw [byteAt, held, Option.getD_some]

/-- The slot filled from the bytes of a record holds it. -/
theorem NodeRecord.heldBy_slotAt {pkt : Packet} (short : pkt.payloadLen.toNat < MAX_PACKET_LEN)
    {front back : List UInt8} {record : NodeRecord}
    (payload : pkt.payload = front ++ (record.toList ++ back))
    : record.HeldBy (slotAt pkt front.length) where
  tag := pkt.byte_record short payload (k := 0) (by decide)
  id := pkt.byte_record short payload (k := 1) (by decide)
  cells := by
    have same : floats pkt.byte (front.length + 12) 16 = floats (byteAt record) 12 16 := by
      apply floats_eq_iff.mpr
      intro k inside
      rw [Nat.add_assoc]
      exact pkt.byte_record short payload (by omega)
    rw [slotAt, ReceiveImusol.copied_cells, same]

/-- The slots filled from records hold them one by one, by induction on the records. -/
theorem slotsAt_held {pkt : Packet} (short : pkt.payloadLen.toNat < MAX_PACKET_LEN)
    {front : List UInt8} {records : List NodeRecord}
    (payload : pkt.payload = front ++ records.flatMap Vector.toList) {i : Nat}
    {record : NodeRecord} (sent : records[i]? = some record)
    : ∃ slot,
        (slotsAt pkt front.length records.length)[i]? = some slot ∧ record.HeldBy slot := by
  induction records generalizing front i with
  | nil => simp at sent
  | cons first rest ih =>
      rw [List.flatMap_cons] at payload
      cases i with
      | zero =>
          obtain rfl := Option.some.inj sent
          exact ⟨slotAt pkt front.length, rfl, NodeRecord.heldBy_slotAt short payload⟩
      | succ i =>
          rw [← List.append_assoc] at payload
          obtain ⟨slot, filled, held⟩ := ih payload sent
          rw [List.length_append, Vector.length_toList] at filled
          exact ⟨slot, filled, held⟩

-----------------------------------------------------------------------------------------
-- The walk over the payload of a gateway
-----------------------------------------------------------------------------------------

/-- The variables when the record loop begins. -/
def Gateway.announced (gateway : Gateway) (s : Sensor) : Sensor :=
  { s with
    receiveGwsol.tag := 0x62
    receiveGwsol.gwId := gateway.gwId
    receiveGwsol.n := gateway.n }

section Walk

variable {pkt : Packet} (gateway : Gateway) (short : pkt.payloadLen.toNat < MAX_PACKET_LEN)
  (payload : pkt.payload = gateway.payload)

include short payload

/-- The declared length covers the header and the records. -/
theorem Gateway.payloadLen_toNat
    : pkt.payloadLen.toNat = 8 + 76 * gateway.records.length := by
  rw [← pkt.payload_length short, payload, gateway.payload_length]

/-- The first three bytes are the tag, the id and the record count. -/
theorem Gateway.byte_header
    : pkt.byte 0 = ItemID.gwsol.tag ∧ pkt.byte 1 = gateway.gwId ∧ pkt.byte 2 = gateway.n := by
  have length := gateway.payloadLen_toNat short payload
  have first : pkt.payload[0]? = some (pkt.byte 0) := pkt.payload_getElem? short (by omega)
  have second : pkt.payload[1]? = some (pkt.byte 1) := pkt.payload_getElem? short (by omega)
  have third : pkt.payload[2]? = some (pkt.byte 2) := pkt.payload_getElem? short (by omega)
  rw [payload] at first second third
  exact ⟨(Option.some.inj first).symm, (Option.some.inj second).symm,
    (Option.some.inj third).symm⟩

/-- The one item of the payload is a RFSOL item with all records. -/
theorem Gateway.onItem_eq (s : Sensor)
    : onItem pkt s 0
      = {
          sensor := (gwsolRecords pkt gateway.records.length 0 (gateway.announced s) 8).sensor
          offset := (gwsolRecords pkt gateway.records.length 0 (gateway.announced s) 8).offset
          accesses :=
            .read 0 3
              :: (gwsolRecords pkt gateway.records.length 0 (gateway.announced s) 8).accesses
        } := by
  obtain ⟨tag, gwId, n⟩ := gateway.byte_header short payload
  rw [onItem, tag, ItemID.ofByte?_tag]
  simp only [Nat.zero_add, gwId, n, gateway.n_toNat, ItemID.tag, Gateway.announced]

/-- The item ends at the declared length. -/
theorem Gateway.onItem_offset (s : Sensor)
    : (onItem pkt s 0).offset = pkt.payloadLen.toNat := by
  rw [gateway.onItem_eq short payload, gateway.payloadLen_toNat short payload]
  exact gwsolRecords_offset pkt _ _ _ _

/-- The accesses of the item stay in the payload and the array. -/
theorem Gateway.onItem_within (s : Sensor)
    : ∀ access ∈ (onItem pkt s 0).accesses, access.Within pkt.payloadLen.toNat := by
  have fits := gateway.fits
  have length := gateway.payloadLen_toNat short payload
  rw [gateway.onItem_eq short payload]
  dsimp only
  rw [List.forall_mem_cons, gwsolRecords_within_iff, Access.Within]
  omega

/-- The item stores the records in their slots, also behind the count of the frame. -/
theorem Gateway.onItem_received (s : Sensor)
    : gateway.Received s (onItem pkt (enterItem s 0) 0).sensor := by
  have fits := gateway.fits
  have count := slotsAt_length pkt 8 gateway.records.length
  have filled := Buffer.toList_store_front s.receiveGwsol.receiveImusol
    (slotsAt pkt 8 gateway.records.length) (by omega)
  rw [count] at filled
  rw [gateway.onItem_eq short payload]
  simp only [gwsolRecords_sensor, Gateway.announced, enterItem, if_true]
  constructor
  case tag => rfl
  case gwId => rfl
  case n => exact gateway.n_toNat
  case receiveImusol => rfl
  case slots =>
    intro i record sent
    have place : i < gateway.records.length := (List.getElem?_eq_some_iff.mp sent).1
    obtain ⟨slot, found, held⟩ := slotsAt_held short payload sent
    rw [gateway.header_length] at found
    refine ⟨slot, ?_, held⟩
    rw [← Vector.getElem?_toList, filled, List.getElem?_append_left (by omega), found]
  case others =>
    intro i behind
    rw [← Vector.getElem?_toList, filled, List.getElem?_append_right (by omega), count,
      List.getElem?_drop, Nat.add_sub_cancel' behind, Vector.getElem?_toList]

end Walk

/-- The walk over the payload takes the one item and ends behind it. -/
theorem Gateway.walk_received {pkt : Packet} (gateway : Gateway)
    (short : pkt.payloadLen.toNat < MAX_PACKET_LEN) (payload : pkt.payload = gateway.payload)
    (s : Sensor)
    : ∃ t log,
        walk pkt s 0 = .ok (t, log)
        ∧ walkEnd pkt s 0 = pkt.payloadLen.toNat
        ∧ (∀ access ∈ log, access.Within pkt.payloadLen.toNat)
        ∧ gateway.Received s t := by
  have length := gateway.payloadLen_toNat short payload
  have inside : 0 < pkt.payloadLen.toNat := by omega
  have tagInside : (Access.read 0 1).Within pkt.payloadLen.toNat := inside
  have moved := gateway.onItem_offset short payload (enterItem s 0)
  have within := List.forall_mem_cons.mpr
    ⟨tagInside, gateway.onItem_within short payload (enterItem s 0)⟩
  refine ⟨(onItem pkt (enterItem s 0) 0).sensor, _,
    (walk_item pkt s inside _ _).mpr ⟨[], rfl, ?_, ?_⟩, ?_, ?_, ?_⟩
  · intro access member
    exact (within access member).mono (Nat.le_of_lt short)
  · rw [moved]
    exact walk_done pkt _ (Nat.le_refl _)
  · rw [walkEnd, if_pos inside]
    simp only [moved]
    rw [walkEnd, if_neg (Nat.lt_irrefl _)]
  · rw [List.append_nil]
    exact within
  · exact gateway.onItem_received short payload s

/-- A gateway frame fed to an idle decoder: one packet is handed over, the walk over it
reads only payload bytes and ends at the declared length, the variables hold what the
gateway sent, and the decoder is idle again.
-/
theorem gateway_received (s : Decoder) (idle : s.status = .idle) (x : Sensor)
    (gateway : Gateway)
    : ∃ t y pkt log,
        run decodeStep s gateway.frame.bytes = .ok (t, [pkt])
        ∧ pkt.payload = gateway.payload
        ∧ run imuDataDecode (s, x) gateway.frame.bytes = .ok ((t, y), log)
        ∧ walkEnd pkt x 0 = pkt.payloadLen.toNat
        ∧ (∀ access ∈ log, access.Within pkt.payloadLen.toNat)
        ∧ gateway.Received x y
        ∧ t.status = .idle := by
  obtain ⟨t, pkt, ran, home, type, delivered⟩ :=
    run_frame s (Or.inl idle) gateway.frame gateway.frame_valid
  obtain ⟨declared, payload⟩ := Prod.mk.inj delivered
  have short : pkt.payloadLen.toNat < MAX_PACKET_LEN := by
    rw [declared, gateway.frame.len_toNat]
    exact gateway.payload_fits
  obtain ⟨y, log, walked, ended, within, received⟩ := gateway.walk_received short payload x
  have handled : onDataReceived x pkt = .ok (y, log) := by
    rw [onDataReceived, if_pos type, walked]
  have passed : run onDataReceived x [pkt] = .ok (y, log) :=
    run_cons_iff.mpr ⟨y, log, [], handled, rfl, (List.append_nil log).symm⟩
  exact ⟨t, y, pkt, log, ran, payload, run_cascade ran passed, ended, within, received, home⟩

/-- A gateway with one node record. -/
def loneNode : Gateway :=
  {
    gwId := 0x07
    reserved := Vector.replicate 5 0
    records := [Vector.replicate 76 0x91]
    fits := by decide
  }

/-- Its frame is received from power-on. -/
theorem gateway_received_loneNode
    : ∃ t y pkt log,
        run decodeStep .init loneNode.frame.bytes = .ok (t, [pkt])
        ∧ pkt.payload = loneNode.payload
        ∧ run imuDataDecode (.init, .init) loneNode.frame.bytes = .ok ((t, y), log)
        ∧ walkEnd pkt .init 0 = pkt.payloadLen.toNat
        ∧ (∀ access ∈ log, access.Within pkt.payloadLen.toNat)
        ∧ loneNode.Received .init y
        ∧ t.status = .idle :=
  gateway_received .init rfl .init loneNode

end At32.Imu
