import At32.Lib.Buffer
import At32.Lib.Crc
import At32.Lib.LittleEndian
import At32.Lib.Transducer

/-! The packet decoder of the inertial sensor, one received byte at a time. The event
handler reads the packet it is given, so a call to it is an output of the decoder.
-/

namespace At32.Imu

open LittleEndian

abbrev MAX_PACKET_LEN : Nat := 2048

abbrev CH_OK : UInt32 := 0
abbrev CH_ERR : UInt32 := 1

inductive Status
  | idle
  | cmd
  | lenLow
  | lenHigh
  | crcLow
  | crcHigh
  | data
  deriving DecidableEq, Repr

/-- packet_t; the total length that nothing reads is left out. -/
structure Packet where
  ofs : UInt32
  buf : Vector UInt8 MAX_PACKET_LEN
  payloadLen : UInt16
  type : UInt8
  deriving DecidableEq

/-- A packet after memset to zero. -/
def Packet.zero : Packet :=
  { ofs := 0, buf := Vector.replicate MAX_PACKET_LEN 0, payloadLen := 0, type := 0 }

/-- The payload that a packet declares. -/
def Packet.payload (pkt : Packet) : List UInt8 := pkt.buf.toList.take pkt.payloadLen.toNat

/-- The place after one inside the buffer. -/
theorem Packet.ofs_next (pkt : Packet) (inside : pkt.ofs.toNat < MAX_PACKET_LEN)
    : (pkt.ofs + 1).toNat = pkt.ofs.toNat + 1 := by
  have capacity : MAX_PACKET_LEN = 2048 := rfl
  rw [UInt32.toNat_add, UInt32.toNat_one]
  omega

/-- The receive packet and the static variables of packet_decode; crc_header is constant
but for its two length bytes.
-/
structure Decoder where
  rxPkt : Packet
  crcReceived : UInt16
  crcCalculated : UInt16
  status : Status
  headerLow : UInt8
  headerHigh : UInt8
  deriving DecidableEq

/-- The decoder after packet_decode_init at power-on. -/
def Decoder.init : Decoder :=
  {
    rxPkt := .zero
    crcReceived := 0
    crcCalculated := 0
    status := .idle
    headerLow := 0
    headerHigh := 0
  }

/-- A store outside the buffer, at which the behaviour of the source is undefined. -/
inductive Fault
  | bufStore (index : Nat)
  deriving DecidableEq

/-- crc16_update: the register starts from the halfword and is cut to a halfword. -/
def crc16Update (currectCrc : UInt16) (src : List UInt8) : UInt16 :=
  (Crc.feed 0x1021 currectCrc.toUInt32 src).toUInt16

/-- crc_header. -/
def Decoder.crcHeader (s : Decoder) : List UInt8 := [0x5A, 0xA5, s.headerLow, s.headerHigh]

/-- The check over the header and the bytes received, when the payload is complete. -/
def packetComplete (s : Decoder) : Decoder × Option Packet :=
  let crc := crc16Update s.crcCalculated s.crcHeader
  let crc := crc16Update crc (s.rxPkt.buf.toList.take s.rxPkt.ofs.toNat)
  ({ s with crcCalculated := crc, status := .idle },
    if crc = s.crcReceived then some s.rxPkt else none)

/-- A payload byte is stored before its place is tested. -/
def packetData (s : Decoder) (c : UInt8) : Except Fault (Decoder × UInt32 × Option Packet) :=
  let index := s.rxPkt.ofs.toNat
  if index < MAX_PACKET_LEN then
    -- also when the declared length is zero
    let s : Decoder :=
      { s with
        rxPkt.buf := s.rxPkt.buf.setIfInBounds index c
        rxPkt.ofs := s.rxPkt.ofs + 1 }
    if UInt32.ofNat MAX_PACKET_LEN ≤ s.rxPkt.ofs then
      .ok ({ s with status := .idle }, CH_ERR, none)
    else if s.rxPkt.payloadLen.toUInt32 ≤ s.rxPkt.ofs ∧ s.rxPkt.type = 0xA5 then
      let (s, event) := packetComplete s
      .ok (s, CH_OK, event)
    else
      .ok (s, CH_OK, none)
  else
    .error (.bufStore index)

/-- One byte: the state after it, the result, and the packet handed to the event handler. -/
def packetDecode (s : Decoder) (c : UInt8) : Except Fault (Decoder × UInt32 × Option Packet) :=
  match s.status with
  | .idle => .ok (if c = 0x5A then { s with status := .cmd } else s, CH_OK, none)
  | .cmd =>
      let s : Decoder := { s with rxPkt.type := c }
      .ok (if s.rxPkt.type = 0xA5 then { s with status := .lenLow } else s, CH_OK, none)
  | .lenLow =>
      .ok
        ({ s with rxPkt.payloadLen := c.toUInt16, headerLow := c, status := .lenHigh },
          CH_OK, none)
  | .lenHigh =>
      .ok
        ({ s with
            rxPkt.payloadLen := s.rxPkt.payloadLen ||| c.toUInt16 <<< 8
            headerHigh := c
            status := .crcLow },
          CH_OK, none)
  | .crcLow => .ok ({ s with crcReceived := c.toUInt16, status := .crcHigh }, CH_OK, none)
  | .crcHigh =>
      .ok
        ({ s with
            crcReceived := s.crcReceived ||| c.toUInt16 <<< 8
            rxPkt.ofs := 0
            crcCalculated := 0
            status := .data },
          CH_OK, none)
  | .data => packetData s c

/-- The decoder as a machine whose outputs are the packets it hands over. -/
def decodeStep (s : Decoder) (c : UInt8) : Except Fault (Decoder × List Packet) :=
  match packetDecode s c with
  | .error fault => .error fault
  | .ok (next, _, event) => .ok (next, event.toList)

end At32.Imu
