import At32.Lib.Crc
import At32.Lib.LittleEndian

/-! The serial bootloader's packet buffer, static variables and callbacks.
The callbacks return without touching this data, so a call to one is an output of the
bootloader and no more.
-/

namespace At32.Bootloader

open LittleEndian

/-- LENGTH, the capacity of the packet buffer. -/
abbrev LENGTH : Nat := 256

namespace FramingPacketType

@[match_pattern] abbrev startByte : UInt8 := 0x5A
@[match_pattern] abbrev ack : UInt8 := 0xA1
@[match_pattern] abbrev nak : UInt8 := 0xA2
@[match_pattern] abbrev ackAbort : UInt8 := 0xA3
@[match_pattern] abbrev command : UInt8 := 0xA4
@[match_pattern] abbrev data : UInt8 := 0xA5
@[match_pattern] abbrev ping : UInt8 := 0xA6
@[match_pattern] abbrev pingResponse : UInt8 := 0xA7

end FramingPacketType

@[match_pattern] abbrev FLASH_ERASE_REGION : UInt8 := 0x02
@[match_pattern] abbrev WRITE_MEMORY : UInt8 := 0x04
@[match_pattern] abbrev GET_PROPERTY : UInt8 := 0x07
@[match_pattern] abbrev RESET_MCU : UInt8 := 0x0B

@[match_pattern] abbrev CURRENT_VERSION : UInt8 := 0x01
@[match_pattern] abbrev FLASH_SIZE_IN_BYTES : UInt8 := 0x04
@[match_pattern] abbrev FLASH_SECTOR_SIZE : UInt8 := 0x05
@[match_pattern] abbrev MAX_PACKET_SIZE : UInt8 := 0x0B
@[match_pattern] abbrev SYSTEM_DEVICELD : UInt8 := 0x10

abbrev PINT_RESPONSE_PACKET_P : UInt8 := 0x50
abbrev BOOTLOADER_VERSION : UInt32 := 0x4b010500

inductive Status
  | start
  | cmd
  | lenLow
  | lenHigh
  | crcLow
  | crcHigh
  | data
  deriving DecidableEq, Repr

/-- framing_packet_t, the packet under construction. -/
structure FramingPacket where
  startByte : UInt8
  packetType : UInt8
  lenLow : UInt8
  lenHigh : UInt8
  crcLow : UInt8
  crcHigh : UInt8
  data : Vector UInt8 LENGTH
  deriving DecidableEq

/-- A packet after memset to zero. -/
def FramingPacket.zero : FramingPacket :=
  {
    startByte := 0
    packetType := 0
    lenLow := 0
    lenHigh := 0
    crcLow := 0
    crcHigh := 0
    data := Vector.replicate LENGTH 0
  }

/-- The length the packet's two length bytes declare. -/
def FramingPacket.length (fp : FramingPacket) : UInt16 := half fp.lenLow fp.lenHigh

/-- The bytes data[0..len-1] of a packet. -/
def FramingPacket.payload (fp : FramingPacket) : List UInt8 :=
  fp.data.toList.take fp.length.toNat

structure BlEnvVariate where
  count : UInt16
  length : UInt16
  status : Status
  appFlag : UInt8
  writeMemoryStart : UInt32
  deriving DecidableEq

/-- The two fields of generic_response_packet_t that the bootloader uses. -/
structure GenericResponsePacket where
  packetType : UInt8
  commandTag : UInt32
  deriving DecidableEq

structure AppProgramLocation where
  flashStartAddr : UInt32
  flashByteCount : UInt32
  deriving DecidableEq

/-- The caller's packet buffer and the three static variables. -/
structure State where
  fp : FramingPacket
  blVariate : BlEnvVariate
  genericPacket : GenericResponsePacket
  appProgram : AppProgramLocation
  deriving DecidableEq

/-- Static data is zero at power-on; the packet buffer is the caller's and holds anything.
-/
def State.powerOn (fp : FramingPacket) : State :=
  {
    fp
    blVariate :=
      { count := 0, length := 0, status := .start, appFlag := 0, writeMemoryStart := 0 }
    genericPacket := { packetType := 0, commandTag := 0 }
    appProgram := { flashStartAddr := 0, flashByteCount := 0 }
  }

/-- The values of bl_test_func_ops_t; its function pointers are the callback calls below. -/
structure BlTestFuncOps where
  flashSize : UInt32
  flashSectorSize : UInt32
  packetSize : UInt32
  deviceId : UInt32
  appAddress : UInt32
  deriving DecidableEq

/-- What a run of the bootloader shows: the callbacks it calls, what it prints, and the
calls of the three internal functions the protocol is stated about.
-/
inductive Call
  | analysisCommandTag (fp : FramingPacket)
  | recvData (fp : FramingPacket)
  | pingResponsePacket
  | resetMcu
  | blSendData (port : UInt8) (buf : List UInt8)
  | blDelayms (num : UInt32)
  | blWriteMemory (addr : UInt32) (buf : List UInt16) (len : UInt16)
  | blFlashEraseRegion (addr : UInt32)
  | printf (format : String) (value : UInt32)
  deriving DecidableEq

/-- An access outside an array, at which the behaviour of the source is undefined: a store
at an index of fp_t->data, or a check_crc of more bytes than packet_buf has room for.
-/
inductive Fault
  | dataStore (index : Nat)
  | packetBuf (len : Nat)
  deriving DecidableEq

end At32.Bootloader
