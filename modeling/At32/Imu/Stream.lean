import At32.Imu.Gateway
import At32.Imu.Items

/-! Whole streams from the network: reports of sensors, gateway frames and damaged frames with
noise between them, against what the variables hold behind them.
-/

namespace At32.Imu

open LastWrite LittleEndian Transducer

/-- What a sensor sends in one frame: items that the source finds where it reads them. -/
structure Report where
  items : List Item
  nonempty : items ≠ []
  fits : (encode items).length < MAX_PACKET_LEN
  inPlace : ∀ field item,
    carrier (Item.value? field) items = some item
    → item.HeldInPlace (encode items) field

namespace Report

/-- The check value over the frame. -/
def crc (report : Report) : UInt16 :=
  let len := UInt16.ofNat (encode report.items).length
  crc16Update 0 ([0x5A, 0xA5, lowByte len, highByte len] ++ encode report.items)

theorem encode_pos (report : Report) : 0 < (encode report.items).length := by
  obtain ⟨item, rest, same⟩ := List.exists_cons_of_ne_nil report.nonempty
  rw [same]
  exact Nat.succ_pos _

/-- The frame with the check bytes that match. -/
def frame (report : Report) : Frame :=
  {
    payload := encode report.items
    crcLow := lowByte report.crc
    crcHigh := highByte report.crc
    nonempty := report.encode_pos
    fits := report.fits
  }

theorem frame_valid (report : Report) : report.frame.Valid :=
  (half_bytes report.crc).symm

end Report

/-- A frame on the line, the last kind with check bytes that do not match. -/
inductive Message
  | report (sent : Report)
  | gateway (sent : Gateway)
  | damaged (frame : Frame) (bad : ¬ frame.Valid)

namespace Message

def frame : Message → Frame
  | .report sent => sent.frame
  | .gateway sent => sent.frame
  | .damaged frame _ => frame

def intact : Message → Bool
  | .damaged _ _ => false
  | _ => true

def items : Message → List Item
  | .report sent => sent.items
  | _ => []

/-- The tag, the id and the record count that a message announces. -/
def header? : Message → Option (UInt8 × UInt8 × UInt8)
  | .gateway sent => some (ItemID.gwsol.tag, sent.gwId, sent.n)
  | _ => none

/-- The node record that a message carries for a slot. -/
def record? (i : Nat) : Message → Option NodeRecord
  | .gateway sent => sent.records[i]?
  | _ => none

/-- The bitmap that a message leaves. -/
def bitmap? : Message → Option UInt8
  | .report sent => some (addBits 0 sent.items)
  | .gateway sent => some (if sent.records = [] then 0 else BIT_VALID_ALL)
  | .damaged _ _ => none

end Message

/-- The header of the gateway packet. -/
def ReceiveGwsol.header (packet : ReceiveGwsol) : UInt8 × UInt8 × UInt8 :=
  (packet.tag, packet.gwId, packet.n)

/-- The variables after these messages: every field of the sensor holds the value carried last,
the gateway header is the one announced last, every slot holds the record sent for it last, the
bitmap is that of the last intact frame, and the intact frames are counted.
-/
structure StreamReceived (messages : List Message) (s t : Sensor) : Prop where
  fields : ∀ field,
    t.receiveImusol.get field
      = (last (Item.value? field) (messages.flatMap Message.items)).getD
          (s.receiveImusol.get field)
  bitmap : t.bitmap = (last Message.bitmap? messages).getD s.bitmap
  frameCount : t.frameCount = s.frameCount + UInt32.ofNat (messages.countP Message.intact)
  header
    : t.receiveGwsol.header = (last Message.header? messages).getD s.receiveGwsol.header
  slots : ∀ (i : Nat) (record : NodeRecord),
    last (Message.record? i) messages = some record
    → ∃ slot, t.receiveGwsol.receiveImusol[i]? = some slot ∧ record.HeldBy slot
  others : ∀ i,
    last (Message.record? i) messages = none
    → t.receiveGwsol.receiveImusol[i]? = s.receiveGwsol.receiveImusol[i]?

-----------------------------------------------------------------------------------------
-- Messages one after another
-----------------------------------------------------------------------------------------

theorem StreamReceived.nil (s : Sensor) : StreamReceived [] s s where
  fields _ := rfl
  bitmap := rfl
  frameCount := (UInt32.add_zero _).symm
  header := rfl
  slots _ _ sent := by cases sent
  others _ _ := rfl

/-- What a message leaves is kept unless a later one carries it too. -/
theorem StreamReceived.cons {message : Message} {messages : List Message} {s t u : Sensor}
    (first : StreamReceived [message] s t) (later : StreamReceived messages t u)
    : StreamReceived (message :: messages) s u where
  fields field := by
    have lone : [message].flatMap Message.items = message.items := List.flatMap_singleton _ _
    rw [later.fields, first.fields, lone, List.flatMap_cons, last_append, Option.getD_or]
  bitmap := by rw [later.bitmap, first.bitmap, last_singleton, last_cons, Option.getD_or]
  frameCount := by
    have counted : List.countP Message.intact (message :: messages)
        = List.countP Message.intact [message] + List.countP Message.intact messages := by
      rw [← List.countP_append, List.singleton_append]
    rw [later.frameCount, first.frameCount, counted, UInt32.ofNat_add, UInt32.add_assoc]
  header := by rw [later.header, first.header, last_singleton, last_cons, Option.getD_or]
  slots i record sent := by
    rw [last_cons] at sent
    cases behind : last (Message.record? i) messages with
    | some other =>
        rw [behind, Option.some_or] at sent
        exact later.slots i record (behind.trans sent)
    | none =>
        rw [behind, Option.none_or] at sent
        rw [later.others i behind]
        exact first.slots i record ((last_singleton _ _).trans sent)
  others i none := by
    rw [last_cons, Option.or_eq_none_iff] at none
    rw [later.others i none.1, first.others i ((last_singleton _ _).trans none.2)]

-----------------------------------------------------------------------------------------
-- One message
-----------------------------------------------------------------------------------------

/-- A message behind noise without the second header byte. -/
structure Transmission where
  noise : List UInt8
  quiet : 0xA5 ∉ noise
  message : Message

def Transmission.bytes (transmission : Transmission) : List UInt8 :=
  transmission.noise ++ transmission.message.frame.bytes

end At32.Imu
