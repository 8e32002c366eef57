import At32.Bootloader.State

/-! The command handlers of the bootloader, from the packet they read to the calls they
make and the static data they leave.
-/

namespace At32.Bootloader

open LittleEndian

/-- crc_update: the low halfword of the register. -/
def crcUpdate (src : List UInt8) : UInt16 :=
  (Crc.feed 0x1021 0 src).toUInt16

def ackPacket : List Call :=
  [.blDelayms 5, .blSendData 0 [0x5a, 0xa1], .blDelayms 5]

/-- The ten bytes of a ping response; its check bytes come last. -/
def pingResponseBuffer : List UInt8 :=
  let head : List UInt8 :=
    [
      FramingPacketType.startByte, FramingPacketType.pingResponse,
      0, 0x02, 0x01, PINT_RESPONSE_PACKET_P, 0, 0
    ]
  let ret := crcUpdate head
  head ++ [(ret &&& 0x00ff).toUInt8, ((ret &&& 0xff00) >>> 8).toUInt8]

def pingResponsePacket : List Call :=
  [.blDelayms 1, .blSendData 0 pingResponseBuffer]

/-- The 18 bytes both response functions send: a frame whose payload is a response tag and
a word of four bytes.
-/
def responseBuffer (startByte packetType tag : UInt8) (value : List UInt8) : List UInt8 :=
  let head : List UInt8 := [startByte, packetType, 0x0c, 0]
  let body : List UInt8 := [tag, 0, 0, 0x02, 0, 0, 0, 0] ++ value
  let ret := crcUpdate (head ++ body)
  head ++ [(ret &&& 0xff).toUInt8, ((ret &&& 0xff00) >>> 8).toUInt8] ++ body

/-- The value's bytes stay zero when the value is zero, as in the source's test. -/
def commandResponsePacket (s : State) (value : UInt32) : State × List Call :=
  let buf :=
    responseBuffer s.fp.startByte s.fp.packetType FramingPacketType.pingResponse
      [
        (value &&& 0xFF).toUInt8, ((value >>> 8) &&& 0xFF).toUInt8,
        ((value >>> 16) &&& 0xFF).toUInt8, ((value >>> 24) &&& 0xFF).toUInt8
      ]
  ({ s with fp := .zero }, ackPacket ++ [.blSendData 0 buf])

def genericResponsePacket (s : State) (status : UInt8) : State × List Call :=
  let tag := if status = 0 then (s.genericPacket.commandTag &&& 0xFF).toUInt8 else 0
  let buf := responseBuffer s.fp.startByte s.genericPacket.packetType 0xA0 [tag, 0, 0, 0]
  ({ s with fp := .zero }, [.blSendData 0 buf])

def resetMcu (s : State) : State × List Call :=
  let s :=
    { s with
      genericPacket :=
        { packetType := FramingPacketType.command, commandTag := RESET_MCU.toUInt32 } }
  let (s, response) := genericResponsePacket s 0
  (s, ackPacket ++ response ++ [.resetMcu])

def propertyTag (ops : BlTestFuncOps) (s : State) : State × List Call :=
  match s.fp.data[4] with
  | CURRENT_VERSION => commandResponsePacket s BOOTLOADER_VERSION
  | FLASH_SIZE_IN_BYTES => commandResponsePacket s ops.flashSize
  | FLASH_SECTOR_SIZE => commandResponsePacket s ops.flashSectorSize
  | MAX_PACKET_SIZE => commandResponsePacket s ops.packetSize
  | SYSTEM_DEVICELD => commandResponsePacket s ops.deviceId
  | _ => (s, [.printf "fp_t->data[4] = [%X]\r\n" s.fp.data[4].toUInt32])

/-- The parameters are joined to the earlier ones by or, which are never cleared. -/
def analysisAppDownloadAddr (s : State) : State :=
  let data := s.fp.data
  { s with
    appProgram :=
      {
        flashStartAddr :=
          s.appProgram.flashStartAddr ||| data[4].toUInt32 ||| data[5].toUInt32 <<< 8
          ||| data[6].toUInt32 <<< 16 ||| data[7].toUInt32 <<< 24
        flashByteCount :=
          s.appProgram.flashByteCount ||| data[8].toUInt32 ||| data[9].toUInt32 <<< 8
          ||| data[10].toUInt32 <<< 16 ||| data[11].toUInt32 <<< 24
      } }

/-- The region that a packet declares: its words data[4..7] and data[8..11]. -/
def FramingPacket.declared (fp : FramingPacket) : AppProgramLocation :=
  {
    flashStartAddr := word fp.data[4] fp.data[5] fp.data[6] fp.data[7]
    flashByteCount := word fp.data[8] fp.data[9] fp.data[10] fp.data[11]
  }

/-- The parameters kept are the earlier ones joined to the declared ones. -/
theorem analysisAppDownloadAddr_appProgram (s : State)
    : (analysisAppDownloadAddr s).appProgram
      = {
          flashStartAddr := s.appProgram.flashStartAddr ||| s.fp.declared.flashStartAddr
          flashByteCount := s.appProgram.flashByteCount ||| s.fp.declared.flashByteCount
        } := by
  simp only [analysisAppDownloadAddr, FramingPacket.declared, word, UInt32.or_assoc]

/-- The byte of a GetProperty packet that names the property. -/
abbrev FramingPacket.property (fp : FramingPacket) : UInt8 := fp.data[4]

/-- The number of sectors a byte count spans, kept in a halfword. -/
def sectorNum (ops : BlTestFuncOps) (flashByteCount : UInt32) : UInt16 :=
  let num := (flashByteCount / ops.flashSectorSize).toUInt16
  if flashByteCount % ops.flashSectorSize ≠ 0 then num + 1 else num

/-- The addresses of the sector loop, in order. -/
def eraseCalls (ops : BlTestFuncOps) (start : UInt32) (num : UInt16) : List Call :=
  (List.range num.toNat).map fun i =>
    .blFlashEraseRegion (start + ops.flashSectorSize * UInt32.ofNat i)

/-- The generic response names the command that the packet holds. -/
def State.nameCommand (s : State) : State :=
  { s with
    genericPacket :=
      { packetType := s.fp.packetType, commandTag := s.fp.data[0].toUInt32 &&& 0xFF } }

def flashEraseRegion (ops : BlTestFuncOps) (s : State) : State × List Call :=
  let s := analysisAppDownloadAddr s
  let erases :=
    eraseCalls ops s.appProgram.flashStartAddr (sectorNum ops s.appProgram.flashByteCount)
  let (s, response) := genericResponsePacket s.nameCommand 0
  (s, ackPacket ++ erases ++ response)

def writeMemory (s : State) : State × List Call :=
  let s := analysisAppDownloadAddr s
  let s := { s with blVariate.writeMemoryStart := s.appProgram.flashStartAddr }
  let (s, response) := genericResponsePacket s.nameCommand 0
  (s, ackPacket ++ response)

/-- The first half of recv_data: the write, when the pointer is not below the application.
-/
def recvDataWrite (ops : BlTestFuncOps) (s : State) : State × List Call :=
  let length : UInt16 := s.fp.lenLow.toUInt16 ||| s.fp.lenHigh.toUInt16 <<< 8
  let start := s.blVariate.writeMemoryStart
  if ops.appAddress ≤ start then
    -- the pointer moves by bytes, the write counts halfwords
    ({ s with blVariate.writeMemoryStart := start + length.toUInt32 },
      [.blWriteMemory start (halves s.fp.data.toList) (length / 2)])
  else
    (s, [])

/-- The second half of recv_data: the final response, when the pointer is at the end of
the region.
-/
def recvDataFinish (s : State) : State × List Call :=
  let finish := s.appProgram.flashByteCount + s.appProgram.flashStartAddr
  if s.blVariate.writeMemoryStart = finish then
    genericResponsePacket
      { s with
        blVariate.writeMemoryStart := 0
        genericPacket :=
          { packetType := FramingPacketType.command, commandTag := WRITE_MEMORY.toUInt32 } }
      0
  else
    (s, [])

def recvData (ops : BlTestFuncOps) (s : State) : State × List Call :=
  let (s, write) := recvDataWrite ops s
  let (s, response) := recvDataFinish s
  (s, write ++ ackPacket ++ response)

/-- The first payload byte, by which a command packet is told apart. -/
abbrev FramingPacket.tag (fp : FramingPacket) : UInt8 := fp.data[0]

def analysisCommandTag (ops : BlTestFuncOps) (s : State) : State × List Call :=
  match s.fp.data[0] with
  | FLASH_ERASE_REGION => flashEraseRegion ops s
  | WRITE_MEMORY => writeMemory s
  | GET_PROPERTY => propertyTag ops s
  | RESET_MCU => resetMcu s
  | _ => (s, [.printf "fp_t->data[0] = [%X]\r\n" s.fp.data[0].toUInt32])

section Tags

variable (ops : BlTestFuncOps) {s : State}

theorem analysisCommandTag_erase (named : s.fp.tag = FLASH_ERASE_REGION)
    : analysisCommandTag ops s = flashEraseRegion ops s := by
  have tag : s.fp.data[0] = FLASH_ERASE_REGION := named
  rw [analysisCommandTag, tag]
  rfl

theorem analysisCommandTag_write (named : s.fp.tag = WRITE_MEMORY)
    : analysisCommandTag ops s = writeMemory s := by
  have tag : s.fp.data[0] = WRITE_MEMORY := named
  rw [analysisCommandTag, tag]
  rfl

theorem analysisCommandTag_property (named : s.fp.tag = GET_PROPERTY)
    : analysisCommandTag ops s = propertyTag ops s := by
  have tag : s.fp.data[0] = GET_PROPERTY := named
  rw [analysisCommandTag, tag]
  rfl

theorem analysisCommandTag_reset (named : s.fp.tag = RESET_MCU)
    : analysisCommandTag ops s = resetMcu s := by
  have tag : s.fp.data[0] = RESET_MCU := named
  rw [analysisCommandTag, tag]
  rfl

/-- Any other tag is only printed. -/
theorem analysisCommandTag_other (erase : s.fp.tag ≠ FLASH_ERASE_REGION)
    (write : s.fp.tag ≠ WRITE_MEMORY) (property : s.fp.tag ≠ GET_PROPERTY)
    (reset : s.fp.tag ≠ RESET_MCU)
    : analysisCommandTag ops s
      = (s, [.printf "fp_t->data[0] = [%X]\r\n" s.fp.data[0].toUInt32]) := by
  unfold analysisCommandTag
  split
  · rename_i tag
    exact absurd tag erase
  · rename_i tag
    exact absurd tag write
  · rename_i tag
    exact absurd tag property
  · rename_i tag
    exact absurd tag reset
  · rfl

end Tags

-----------------------------------------------------------------------------------------
-- The variables of the framing parser, which no handler touches
-----------------------------------------------------------------------------------------

/-- The parser's own variables, which no handler changes. -/
def State.parser (s : State) : UInt16 × UInt16 × Status × UInt8 :=
  (s.blVariate.count, s.blVariate.length, s.blVariate.status, s.blVariate.appFlag)

theorem propertyTag_sameParser (ops : BlTestFuncOps) (s : State)
    : (propertyTag ops s).1.parser = s.parser := by
  unfold propertyTag
  split <;> rfl

theorem recvData_sameParser (ops : BlTestFuncOps) (s : State)
    : (recvData ops s).1.parser = s.parser := by
  have write : (recvDataWrite ops s).1.parser = s.parser := by
    simp only [recvDataWrite]
    split <;> rfl
  have finish (s : State) : (recvDataFinish s).1.parser = s.parser := by
    simp only [recvDataFinish]
    split <;> rfl
  exact (finish _).trans write

/-- No command changes the parser's variables, by cases on its tag. -/
theorem analysisCommandTag_sameParser (ops : BlTestFuncOps) (s : State)
    : (analysisCommandTag ops s).1.parser = s.parser := by
  unfold analysisCommandTag
  split
  · rfl
  · rfl
  · exact propertyTag_sameParser ops s
  · rfl
  · rfl

-----------------------------------------------------------------------------------------
-- The calls that a handler may make
-----------------------------------------------------------------------------------------

/-- Handlers send acks and responses, print, and call the other callbacks; they neither
dispatch nor answer a ping.
-/
def Call.FromHandler : Call → Prop
  | .analysisCommandTag _ | .recvData _ | .pingResponsePacket => False
  | .blSendData _ buf => buf.length = 2 ∨ buf.length = 18
  | .resetMcu | .blDelayms _ | .blWriteMemory _ _ _ | .blFlashEraseRegion _ | .printf _ _ =>
      True

/-- The command handlers do not write either. -/
def Call.FromCommand : Call → Prop
  | .blWriteMemory _ _ _ => False
  | call => call.FromHandler

theorem Call.FromCommand.fromHandler {call : Call} (h : call.FromCommand)
    : call.FromHandler := by
  cases call <;> first | exact h | exact h.elim

theorem responseBuffer_length (startByte packetType tag : UInt8) (value : List UInt8)
    : (responseBuffer startByte packetType tag value).length = 14 + value.length := by
  simp [responseBuffer]
  omega

theorem ackPacket_fromCommand : ∀ call ∈ ackPacket, call.FromCommand := by
  simp [ackPacket, Call.FromCommand, Call.FromHandler]

theorem commandResponsePacket_fromCommand (s : State) (value : UInt32)
    : ∀ call ∈ (commandResponsePacket s value).2, call.FromCommand := by
  simp [commandResponsePacket, ackPacket, Call.FromCommand, Call.FromHandler,
    responseBuffer_length]

theorem genericResponsePacket_fromCommand (s : State) (status : UInt8)
    : ∀ call ∈ (genericResponsePacket s status).2, call.FromCommand := by
  simp [genericResponsePacket, Call.FromCommand, Call.FromHandler, responseBuffer_length]

theorem propertyTag_fromCommand (ops : BlTestFuncOps) (s : State)
    : ∀ call ∈ (propertyTag ops s).2, call.FromCommand := by
  unfold propertyTag
  split
  all_goals first
  | exact commandResponsePacket_fromCommand s _
  | simp [Call.FromCommand, Call.FromHandler]

/-- What a command calls, by cases on its tag. -/
theorem analysisCommandTag_fromCommand (ops : BlTestFuncOps) (s : State)
    : ∀ call ∈ (analysisCommandTag ops s).2, call.FromCommand := by
  unfold analysisCommandTag
  split
  · intro call member
    simp only [flashEraseRegion, List.mem_append] at member
    rcases member with (ack | erase) | response
    · exact ackPacket_fromCommand call ack
    · obtain ⟨_, _, rfl⟩ := List.mem_map.mp erase
      trivial
    · exact genericResponsePacket_fromCommand _ 0 call response
  · intro call member
    rcases List.mem_append.mp member with ack | response
    · exact ackPacket_fromCommand call ack
    · exact genericResponsePacket_fromCommand _ 0 call response
  · exact propertyTag_fromCommand ops s
  · intro call member
    simp only [resetMcu, List.mem_append, List.mem_singleton] at member
    rcases member with (ack | response) | reset
    · exact ackPacket_fromCommand call ack
    · exact genericResponsePacket_fromCommand _ 0 call response
    · subst call
      trivial
  · simp [Call.FromCommand, Call.FromHandler]

theorem analysisCommandTag_fromHandler (ops : BlTestFuncOps) (s : State)
    : ∀ call ∈ (analysisCommandTag ops s).2, call.FromHandler :=
  fun call member => (analysisCommandTag_fromCommand ops s call member).fromHandler

theorem recvData_fromHandler (ops : BlTestFuncOps) (s : State)
    : ∀ call ∈ (recvData ops s).2, call.FromHandler := by
  intro call member
  simp only [recvData, List.mem_append] at member
  rcases member with (write | ack) | response
  · simp only [recvDataWrite] at write
    split at write
    · obtain rfl := List.mem_singleton.mp write
      trivial
    · cases write
  · exact (ackPacket_fromCommand call ack).fromHandler
  · simp only [recvDataFinish] at response
    split at response
    · exact (genericResponsePacket_fromCommand _ 0 call response).fromHandler
    · cases response

end At32.Bootloader
