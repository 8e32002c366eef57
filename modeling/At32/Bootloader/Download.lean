import At32.Bootloader.Framing

/-! A download session: what a host sends to install an image, and what the bootloader
does at each packet of it.
-/

namespace At32.Bootloader

open LittleEndian Transducer

/-- The response frame, status 0, that a WriteMemory command and the end of its data are
answered with.
-/
def writeMemoryResponse : Call :=
  .blSendData 0
    (responseBuffer FramingPacketType.startByte FramingPacketType.command 0xA0
      [WRITE_MEMORY, 0, 0, 0])

def ackCall : Call := .blSendData 0 [0x5a, 0xa1]

/-- The calls that change the flash. -/
def Call.touchesFlash : Call → Bool
  | .blWriteMemory _ _ _ | .blFlashEraseRegion _ => true
  | _ => false

/-- The region in a command payload: its address and its byte count. -/
def commandRegion : List UInt8 → Option AppProgramLocation
  | _ :: _ :: _ :: _ :: a0 :: a1 :: a2 :: a3 :: n0 :: n1 :: n2 :: n3 :: _ =>
      some { flashStartAddr := word a0 a1 a2 a3, flashByteCount := word n0 n1 n2 n3 }
  | _ => none

variable {packetSize : UInt32}

-----------------------------------------------------------------------------------------
-- The packets of a download, and what the host may send between them
-----------------------------------------------------------------------------------------

/-- A valid command frame with this tag. -/
structure Frame.IsCommand (tag : UInt8) (frame : Frame packetSize) : Prop where
  kind : frame.kind = .command
  valid : frame.Valid
  tagged : frame.payload.head? = some tag

/-- A valid command frame with this tag for this region. -/
structure Frame.Names (tag : UInt8) (region : AppProgramLocation) (frame : Frame packetSize)
    : Prop extends frame.IsCommand tag where
  named : commandRegion frame.payload = some region

/-- A valid data frame of even length. -/
structure Frame.IsChunk (frame : Frame packetSize) : Prop where
  kind : frame.kind = .data
  valid : frame.Valid
  even : frame.payload.length % 2 = 0

/-- What a host may send between the frames of a download: pings, acks and GetProperty. -/
inductive Interlude (packetSize : UInt32)
  | ping
  | ack
  | getProperty (frame : Frame packetSize) (command : frame.IsCommand GET_PROPERTY)

def Interlude.packet : Interlude packetSize → HostPacket packetSize
  | .ping => .ping
  | .ack => .ack
  | .getProperty frame _ => .frame frame

/-- A frame of one kind behind any interludes. -/
structure Turn (packetSize : UInt32) (accepted : Frame packetSize → Prop) where
  interludes : List (Interlude packetSize)
  frame : Frame packetSize
  accepts : accepted frame

/-- What a packet is for: a chunk knows its place in the image and whether it is the last.
-/
inductive Role
  | interlude
  | erase
  | write
  | chunk (offset : Nat) (payload : List UInt8) (final : Bool)

/-- A packet with its role. -/
abbrev Part (packetSize : UInt32) := Role × HostPacket packetSize

def interludeParts (interludes : List (Interlude packetSize)) : List (Part packetSize) :=
  interludes.map fun interlude => (.interlude, interlude.packet)

def Turn.parts {accepted : Frame packetSize → Prop} (role : Role)
    (turn : Turn packetSize accepted)
    : List (Part packetSize) :=
  interludeParts turn.interludes ++ [(role, .frame turn.frame)]

/-- The chunks of an image from a place in it on. -/
def transferParts
    : Nat → List (Turn packetSize Frame.IsChunk) → List (Part packetSize)
  | _, [] => []
  | offset, turn :: rest =>
      turn.parts (.chunk offset turn.frame.payload rest.isEmpty)
      ++ transferParts (offset + turn.frame.payload.length) rest

/-- The sectors that a region of this many bytes spans. -/
def AppProgramLocation.sectors (region : AppProgramLocation) (sectorSize : Nat) : Nat :=
  (region.flashByteCount.toNat + sectorSize - 1) / sectorSize

/-- A download of an image to a sector-aligned region inside the flash, at or above the
application: erase commands, the write command and the chunks, with interludes between.
-/
structure Download (board : Board) where
  region : AppProgramLocation
  image : List UInt8
  aligned : region.flashStartAddr.toNat % board.sector = 0
  aboveApp : board.ops.appAddress ≤ region.flashStartAddr
  inFlash
    : region.flashStartAddr.toNat + region.sectors board.sector * board.sector
      ≤ board.flashBase.toNat + board.ops.flashSize.toNat
  positive : 0 < region.flashByteCount.toNat
  even : region.flashByteCount.toNat % 2 = 0
  length : image.length = region.flashByteCount.toNat
  erases : List (Turn board.ops.packetSize (Frame.Names FLASH_ERASE_REGION region))
  erased : erases ≠ []
  write : Turn board.ops.packetSize (Frame.Names WRITE_MEMORY region)
  transfers : List (Turn board.ops.packetSize Frame.IsChunk)
  chunks : transfers.flatMap (fun turn => turn.frame.payload) = image
  closing : List (Interlude board.ops.packetSize)

/-- The packets of a download in order. -/
def Download.parts {board : Board} (d : Download board) : List (Part board.ops.packetSize) :=
  d.erases.flatMap (Turn.parts .erase) ++ d.write.parts .write ++ transferParts 0 d.transfers
  ++ interludeParts d.closing

-----------------------------------------------------------------------------------------
-- What the answer to each packet has to contain
-----------------------------------------------------------------------------------------

/-- What the bootloader does at a packet: interludes and the write command leave the flash
alone, an erase command erases its sectors, and a chunk is written at its place, acked once
and, if it is the last, answered with the final response at the end of its calls. Only the
write command itself is answered with the same response.
-/
def Role.AnsweredBy (ops : BlTestFuncOps) (region : AppProgramLocation)
    : Role → List Call → Prop
  | .interlude, calls =>
      calls.filter Call.touchesFlash = [] ∧ calls.count writeMemoryResponse = 0
  | .erase, calls =>
      calls.filter Call.touchesFlash
        = eraseCalls ops region.flashStartAddr (sectorNum ops region.flashByteCount)
      ∧ calls.count writeMemoryResponse = 0
  | .write, calls =>
      calls.filter Call.touchesFlash = [] ∧ calls.count writeMemoryResponse = 1
  | .chunk offset payload final, calls =>
      (∃ addr stale len,
        calls.filter Call.touchesFlash = [.blWriteMemory addr (halves payload ++ stale) len]
        ∧ addr.toNat = region.flashStartAddr.toNat + offset
        ∧ 2 * len.toNat = payload.length)
      ∧ calls.count ackCall = 1
      ∧ calls.count writeMemoryResponse = (if final then 1 else 0)
      ∧ (final → calls.getLast? = some writeMemoryResponse)

/-- A part and the calls it leads to. -/
def PartAnswered (ops : BlTestFuncOps) (region : AppProgramLocation) (part : Part packetSize)
    (calls : List Call)
    : Prop :=
  part.1.AnsweredBy ops region calls

/-- The variables that a download is about. -/
def State.session (s : State) : AppProgramLocation × UInt32 :=
  (s.appProgram, s.blVariate.writeMemoryStart)

/-- A received packet holds each payload byte at its place. -/
theorem received_getElem (room : packetSize.toNat ≤ LENGTH) (s : State)
    {frame : Frame packetSize} {place : Nat} {byte : UInt8} (small : place < LENGTH)
    (sent : frame.payload[place]? = some byte)
    : (s.received frame).fp.data[place] = byte := by
  obtain ⟨inside, value⟩ := List.getElem?_eq_some_iff.mp sent
  exact (Buffer.getElem_store s.fp.data frame.payload (Nat.le_trans frame.fits room)
    inside).trans value

theorem received_tag (room : packetSize.toNat ≤ LENGTH) (s : State)
    {frame : Frame packetSize} {tag : UInt8} (tagged : frame.payload.head? = some tag)
    : (s.received frame).fp.data[0] = tag :=
  received_getElem room s (by decide) (by rw [← List.head?_eq_getElem?, tagged])

/-- The seventh byte of a response is its tag. -/
theorem responseBuffer_tag (startByte packetType tag : UInt8) (value : List UInt8)
    : (responseBuffer startByte packetType tag value)[6]? = some tag := rfl

/-- A property response is no write response, since their tags differ. -/
theorem commandResponse_ne (startByte packetType : UInt8) (value : List UInt8)
    : Call.blSendData 0
        (responseBuffer startByte packetType FramingPacketType.pingResponse value)
      ≠ writeMemoryResponse := by
  intro same
  have buffers := (Call.blSendData.inj same).2
  have tags := congrArg (fun buffer : List UInt8 => buffer[6]?) buffers
  simp only [responseBuffer_tag, Option.some.injEq] at tags
  cases tags

@[simp] theorem ackPacket_touchesFlash : ackPacket.filter Call.touchesFlash = [] := rfl

@[simp] theorem ackPacket_response : ackPacket.count writeMemoryResponse = 0 := by decide

/-- GetProperty changes no session variable and leaves the flash alone. -/
theorem propertyTag_answered (ops : BlTestFuncOps) (region : AppProgramLocation) (s : State)
    : (propertyTag ops s).1.session = s.session
      ∧ Role.interlude.AnsweredBy ops region (propertyTag ops s).2 := by
  have response (value : UInt32)
      : Role.interlude.AnsweredBy ops region (commandResponsePacket s value).2 := by
    constructor
    · simp [commandResponsePacket, Call.touchesFlash]
    · rw [commandResponsePacket, List.count_append, ackPacket_response, Nat.zero_add]
      exact List.count_eq_zero.mpr fun member =>
        commandResponse_ne _ _ _ (List.mem_singleton.mp member).symm
  unfold propertyTag
  split
  · exact ⟨rfl, response _⟩
  · exact ⟨rfl, response _⟩
  · exact ⟨rfl, response _⟩
  · exact ⟨rfl, response _⟩
  · exact ⟨rfl, response _⟩
  · exact ⟨rfl, rfl, rfl⟩

-----------------------------------------------------------------------------------------
-- One packet of a download, taken by an idle parser
-----------------------------------------------------------------------------------------

/-- A packet fed to the idle parser leaves it idle with the given session, and is answered
as its role asks.
-/
def PartTaken (ops : BlTestFuncOps) (region : AppProgramLocation) (s : State)
    (part : Part ops.packetSize) (session : AppProgramLocation × UInt32)
    : Prop :=
  ∃ t calls,
    run (analysisPacket ops) s part.2.bytes = .ok (t, calls)
    ∧ (t.Idle ∧ t.session = session)
    ∧ PartAnswered ops region part calls

/-- An interlude keeps the session, by cases on it. -/
theorem interlude_taken (ops : BlTestFuncOps) (room : ops.packetSize.toNat ≤ LENGTH)
    (region : AppProgramLocation) (s : State) (idle : s.Idle)
    (interlude : Interlude ops.packetSize)
    : PartTaken ops region s (.interlude, interlude.packet) s.session := by
  cases interlude with
  | ping =>
      refine ⟨_, _, run_ping ops s idle, ⟨⟨rfl, idle.2⟩, rfl⟩, rfl, ?_⟩
      decide
  | ack => exact ⟨_, _, run_ack ops s idle, ⟨⟨rfl, idle.2⟩, rfl⟩, rfl, rfl⟩
  | getProperty frame command =>
      obtain ⟨session, flash, response⟩ := propertyTag_answered ops region (s.received frame)
      have handled : handle ops (s.received frame) frame.kind
          = propertyTag ops (s.received frame) := by
        rw [command.kind, handle, analysisCommandTag, received_tag room s command.tagged]
        rfl
      have parser := propertyTag_sameParser ops (s.received frame)
      refine ⟨_, _, run_frame_valid ops room s idle frame command.valid, ?_, ?_⟩
      · rw [handled]
        exact ⟨State.idle_of_sameParser parser ⟨rfl, rfl⟩, session⟩
      · rw [handled, command.kind]
        refine ⟨flash, ?_⟩
        have dispatch : Call.dispatch .command (s.received frame).fp ≠ writeMemoryResponse := by
          simp [Call.dispatch, writeMemoryResponse]
        exact (List.count_cons_of_ne dispatch).trans response

/-- A received packet declares the region in its payload. -/
theorem received_declared (room : packetSize.toNat ≤ LENGTH) (s : State)
    {frame : Frame packetSize} {region : AppProgramLocation}
    (named : commandRegion frame.payload = some region)
    : (s.received frame).fp.declared = region := by
  unfold commandRegion at named
  split at named
  · rename_i a0 a1 a2 a3 n0 n1 n2 n3 _ payload
    have byte (place : Nat) (value : UInt8) (small : place < LENGTH)
        (sent : frame.payload[place]? = some value) :=
      received_getElem room s small sent
    obtain rfl := Option.some.inj named
    rw [FramingPacket.declared,
      byte 4 a0 (by decide) (by rw [payload]; rfl), byte 5 a1 (by decide) (by rw [payload]; rfl),
      byte 6 a2 (by decide) (by rw [payload]; rfl), byte 7 a3 (by decide) (by rw [payload]; rfl),
      byte 8 n0 (by decide) (by rw [payload]; rfl), byte 9 n1 (by decide) (by rw [payload]; rfl),
      byte 10 n2 (by decide) (by rw [payload]; rfl),
      byte 11 n3 (by decide) (by rw [payload]; rfl)]
  · cases named

/-- Parameters joined to earlier ones that they cover are the parameters in the packet. -/
theorem analysisAppDownloadAddr_joined (room : packetSize.toNat ≤ LENGTH) (s : State)
    {frame : Frame packetSize} {region : AppProgramLocation}
    (named : commandRegion frame.payload = some region)
    (start : s.appProgram.flashStartAddr ||| region.flashStartAddr = region.flashStartAddr)
    (count : s.appProgram.flashByteCount ||| region.flashByteCount = region.flashByteCount)
    : (analysisAppDownloadAddr (s.received frame)).appProgram = region := by
  rw [analysisAppDownloadAddr_appProgram, received_declared room s named]
  exact congrArg₂ AppProgramLocation.mk start count

/-- The generic response to a command names its tag. -/
theorem nameCommand_response (s : State) {tag : UInt8}
    (start : s.fp.startByte = FramingPacketType.startByte)
    (type : s.fp.packetType = FramingPacketType.command) (tagged : s.fp.data[0] = tag)
    : (genericResponsePacket s.nameCommand 0).2
      = [
          .blSendData 0
            (responseBuffer FramingPacketType.startByte FramingPacketType.command 0xA0
              [tag, 0, 0, 0])
        ] := by
  simp [genericResponsePacket, State.nameCommand, start, type, tagged]

/-- A generic response is a write response only for its tag. -/
theorem genericResponse_ne {tag : UInt8} (other : tag ≠ WRITE_MEMORY)
    : Call.blSendData 0
        (responseBuffer FramingPacketType.startByte FramingPacketType.command 0xA0
          [tag, 0, 0, 0])
      ≠ writeMemoryResponse := by
  intro same
  have buffers := (Call.blSendData.inj same).2
  have tags := congrArg (fun buffer : List UInt8 => buffer[14]?) buffers
  exact other (Option.some.inj tags)

/-- The region that a command may give without the earlier parameters showing through. -/
structure State.CoveredBy (s : State) (region : AppProgramLocation) : Prop where
  start : s.appProgram.flashStartAddr ||| region.flashStartAddr = region.flashStartAddr
  count : s.appProgram.flashByteCount ||| region.flashByteCount = region.flashByteCount

theorem eraseCalls_touchesFlash (ops : BlTestFuncOps) (start : UInt32) (num : UInt16)
    : (eraseCalls ops start num).filter Call.touchesFlash = eraseCalls ops start num := by
  apply List.filter_eq_self.mpr
  intro call member
  obtain ⟨_, _, rfl⟩ := List.mem_map.mp member
  rfl

theorem eraseCalls_response (ops : BlTestFuncOps) (start : UInt32) (num : UInt16)
    : (eraseCalls ops start num).count writeMemoryResponse = 0 := by
  apply List.count_eq_zero.mpr
  intro member
  obtain ⟨_, _, same⟩ := List.mem_map.mp member
  cases same

/-- What a command that names the region of a session leaves in the packet and in the parameters.
-/
theorem names_received (room : packetSize.toNat ≤ LENGTH) (s : State)
    {region : AppProgramLocation} (covered : s.CoveredBy region) {frame : Frame packetSize}
    {tag : UInt8} (names : frame.Names tag region)
    : (s.received frame).fp.data[0] = tag
      ∧ (analysisAppDownloadAddr (s.received frame)).appProgram = region
      ∧ (s.received frame).fp.packetType = FramingPacketType.command := by
  refine ⟨received_tag room s names.tagged,
    analysisAppDownloadAddr_joined room s names.named covered.start covered.count, ?_⟩
  simp [State.received, names.kind, FrameKind.packetType]

section Commands

variable (ops : BlTestFuncOps) (room : ops.packetSize.toNat ≤ LENGTH)
  (region : AppProgramLocation) (s : State) (idle : s.Idle) (covered : s.CoveredBy region)
include room idle covered

/-- An erase command erases the sectors of its region. -/
theorem erase_taken (frame : Frame ops.packetSize)
    (names : frame.Names FLASH_ERASE_REGION region)
    : PartTaken ops region s (.erase, .frame frame)
        (region, s.blVariate.writeMemoryStart) := by
  obtain ⟨tagged, joined, type⟩ := names_received room s covered names
  have handled : handle ops (s.received frame) frame.kind
      = flashEraseRegion ops (s.received frame) := by
    rw [names.kind, handle, analysisCommandTag, tagged]
    rfl
  have response := nameCommand_response (analysisAppDownloadAddr (s.received frame)) rfl type
    tagged
  refine ⟨_, _, run_frame_valid ops room s idle frame names.valid, ?_, ?_⟩
  · rw [handled]
    exact ⟨⟨rfl, rfl⟩, congrArg₂ Prod.mk joined rfl⟩
  · rw [handled, names.kind]
    simp only [PartAnswered, Role.AnsweredBy, flashEraseRegion, response, joined]
    constructor
    · simp [Call.touchesFlash, Call.dispatch, eraseCalls_touchesFlash]
    · rw [List.count_cons_of_ne (by simp [Call.dispatch, writeMemoryResponse]),
        List.count_append, List.count_append, ackPacket_response, eraseCalls_response,
        Nat.zero_add]
      exact List.count_eq_zero.mpr fun member =>
        genericResponse_ne (by decide) (List.mem_singleton.mp member).symm

/-- The write command points the bootloader at its region. -/
theorem write_taken (frame : Frame ops.packetSize) (names : frame.Names WRITE_MEMORY region)
    : PartTaken ops region s (.write, .frame frame) (region, region.flashStartAddr) := by
  obtain ⟨tagged, joined, type⟩ := names_received room s covered names
  have handled : handle ops (s.received frame) frame.kind = writeMemory (s.received frame) := by
    rw [names.kind, handle, analysisCommandTag, tagged]
    rfl
  have response : (writeMemory (s.received frame)).2 = ackPacket ++ [writeMemoryResponse] :=
    congrArg (ackPacket ++ ·)
      (nameCommand_response
        { analysisAppDownloadAddr (s.received frame) with
          blVariate.writeMemoryStart :=
            (analysisAppDownloadAddr (s.received frame)).appProgram.flashStartAddr }
        rfl type tagged)
  refine ⟨_, _, run_frame_valid ops room s idle frame names.valid, ?_, ?_⟩
  · rw [handled]
    exact ⟨⟨rfl, rfl⟩, congrArg₂ Prod.mk joined (by rw [← joined]; rfl)⟩
  · rw [handled, names.kind]
    simp only [PartAnswered, Role.AnsweredBy, response]
    constructor
    · simp [Call.touchesFlash, Call.dispatch, writeMemoryResponse]
    · rw [List.count_cons_of_ne (by simp [Call.dispatch, writeMemoryResponse]),
        List.count_append, ackPacket_response, Nat.zero_add]
      exact List.count_singleton_self

end Commands

/-- A received data packet at or above the application is written whole, and the pointer
moves behind it.
-/
theorem recvDataWrite_received (ops : BlTestFuncOps) (s : State) (frame : Frame packetSize)
    (above : ops.appAddress ≤ s.blVariate.writeMemoryStart)
    : recvDataWrite ops (s.received frame)
      = ({ s.received frame with
            blVariate.writeMemoryStart :=
              s.blVariate.writeMemoryStart + frame.len.toUInt32 },
          [
            .blWriteMemory s.blVariate.writeMemoryStart
              (halves (s.received frame).fp.data.toList) (frame.len / 2)
          ]) := by
  have declared
      : (lowByte frame.len).toUInt16 ||| (highByte frame.len).toUInt16 <<< 8 = frame.len :=
    half_bytes frame.len
  have start : ops.appAddress ≤ (s.received frame).blVariate.writeMemoryStart := above
  simp only [recvDataWrite, start, if_true]
  simp only [State.received, declared]

/-- The pointer after some bytes of a region is at its end exactly when they are all. -/
theorem pointer_eq_end_iff (region : AppProgramLocation) {received : Nat}
    (inside : received ≤ region.flashByteCount.toNat)
    : region.flashStartAddr + UInt32.ofNat received
        = region.flashByteCount + region.flashStartAddr
      ↔ received = region.flashByteCount.toNat := by
  have bound := region.flashByteCount.toNat_lt
  rw [UInt32.add_comm region.flashByteCount, UInt32.add_right_inj, ← UInt32.toNat_inj,
    UInt32.toNat_ofNat', Nat.mod_eq_of_lt (by omega)]

/-- At the end of the region the final response is sent and the pointer is cleared. -/
theorem recvDataFinish_end (region : AppProgramLocation) {s : State}
    (appProgram : s.appProgram = region) (start : s.fp.startByte = FramingPacketType.startByte)
    (done : s.blVariate.writeMemoryStart = region.flashByteCount + region.flashStartAddr)
    : (recvDataFinish s).1.session = (region, 0)
      ∧ (recvDataFinish s).2 = [writeMemoryResponse] := by
  subst appProgram
  simp only [recvDataFinish, done, if_true, genericResponsePacket, start]
  exact ⟨rfl, rfl⟩

/-- Before the end of the region nothing more happens. -/
theorem recvDataFinish_more (region : AppProgramLocation) {s : State}
    (appProgram : s.appProgram = region)
    (more : s.blVariate.writeMemoryStart ≠ region.flashByteCount + region.flashStartAddr)
    : recvDataFinish s = (s, []) := by
  subst appProgram
  simp only [recvDataFinish, more, if_false]

section Chunks

variable (ops : BlTestFuncOps) (room : ops.packetSize.toNat ≤ LENGTH)
  (region : AppProgramLocation) (s : State) (offset : Nat)
  (session : s.session = (region, region.flashStartAddr + UInt32.ofNat offset))
  (above : ops.appAddress ≤ region.flashStartAddr)
  (top : region.flashStartAddr.toNat + region.flashByteCount.toNat ≤ 2 ^ 32)
  (frame : Frame ops.packetSize)
  (inside : offset + frame.payload.length ≤ region.flashByteCount.toNat)
include room session above top inside

/-- The pointer of a chunk is at its place and moves behind it. -/
theorem chunk_pointer
    : ops.appAddress ≤ s.blVariate.writeMemoryStart
      ∧ s.blVariate.writeMemoryStart.toNat = region.flashStartAddr.toNat + offset
      ∧ s.blVariate.writeMemoryStart + frame.len.toUInt32
        = region.flashStartAddr + UInt32.ofNat (offset + frame.payload.length) := by
  have nonempty := frame.nonempty
  have pointer := (Prod.mk.inj session).2
  have place : s.blVariate.writeMemoryStart.toNat = region.flashStartAddr.toNat + offset := by
    rw [pointer, UInt32.toNat_add, UInt32.toNat_ofNat', Nat.add_mod_mod,
      Nat.mod_eq_of_lt (by omega)]
  refine ⟨?_, place, ?_⟩
  · rw [UInt32.le_iff_toNat_le] at above ⊢
    omega
  · have word : frame.len.toUInt32 = UInt32.ofNat frame.payload.length := by
      rw [← frame.len_toNat room, ← UInt16.toNat_toUInt32, UInt32.ofNat_toNat]
    rw [pointer, word, UInt32.ofNat_add, ← UInt32.add_assoc]

/-- A received chunk is written at its place and acked; the last one clears the pointer and
is answered. By cases on whether the pointer comes to the end of the region.
-/
theorem chunk_handled (even : frame.payload.length % 2 = 0) {final : Bool}
    (last : final = decide (offset + frame.payload.length = region.flashByteCount.toNat))
    : (recvData ops (s.received frame)).1.session
        = (region,
            if final then
              0
            else
              region.flashStartAddr + UInt32.ofNat (offset + frame.payload.length))
      ∧ ∃ addr stale len,
          (recvData ops (s.received frame)).2
            = [.blWriteMemory addr (halves frame.payload ++ stale) len] ++ ackPacket
              ++ (if final then [writeMemoryResponse] else [])
          ∧ addr.toNat = region.flashStartAddr.toNat + offset
          ∧ 2 * len.toNat = frame.payload.length := by
  have appProgram := (Prod.mk.inj session).1
  obtain ⟨aboveNow, place, moved⟩ :=
    chunk_pointer ops room region s offset session above top frame inside
  have written := recvDataWrite_received ops s frame aboveNow
  have atEnd := pointer_eq_end_iff region inside
  rw [← moved] at atEnd
  have buffer : halves (s.received frame).fp.data.toList
      = halves frame.payload ++ halves (s.fp.data.toList.drop frame.payload.length) := by
    rw [← halves_append _ _ even]
    exact congrArg halves
      (Buffer.toList_store_front s.fp.data frame.payload (Nat.le_trans frame.fits room))
  have halfLength : 2 * (frame.len / 2).toNat = frame.payload.length := by
    rw [UInt16.toNat_div, frame.len_toNat room, show UInt16.toNat 2 = 2 by rfl]
    omega
  have state : (recvData ops (s.received frame)).1
      = (recvDataFinish (recvDataWrite ops (s.received frame)).1).1 := rfl
  have calls : (recvData ops (s.received frame)).2
      = (recvDataWrite ops (s.received frame)).2 ++ ackPacket
        ++ (recvDataFinish (recvDataWrite ops (s.received frame)).1).2 := rfl
  by_cases full : offset + frame.payload.length = region.flashByteCount.toNat
  · obtain rfl : final = true := by rw [last, decide_eq_true full]
    have finished := recvDataFinish_end region (s := (recvDataWrite ops (s.received frame)).1)
      (by rw [written]; exact appProgram) (by rw [written]; rfl)
      (by rw [written]; exact atEnd.mpr full)
    refine ⟨finished.1, s.blVariate.writeMemoryStart,
      halves (s.fp.data.toList.drop frame.payload.length), frame.len / 2, ?_, place, halfLength⟩
    rw [calls, finished.2, written, buffer]
    rfl
  · obtain rfl : final = false := by rw [last, decide_eq_false full]
    have unfinished := recvDataFinish_more region (s := (recvDataWrite ops (s.received frame)).1)
      (by rw [written]; exact appProgram) (by rw [written]; exact mt atEnd.mp full)
    refine ⟨?_, s.blVariate.writeMemoryStart,
      halves (s.fp.data.toList.drop frame.payload.length), frame.len / 2, ?_, place, halfLength⟩
    · rw [state, unfinished, written]
      exact Prod.ext appProgram moved
    · rw [calls, unfinished, written, buffer]
      rfl

/-- A chunk is written at its place, acked once and, when it is the last, answered with the
final response.
-/
theorem chunk_taken (idle : s.Idle) (chunk : frame.IsChunk) {final : Bool}
    (last : final = decide (offset + frame.payload.length = region.flashByteCount.toNat))
    : PartTaken ops region s (.chunk offset frame.payload final, .frame frame)
        (region,
          if final then
            0
          else
            region.flashStartAddr + UInt32.ofNat (offset + frame.payload.length)) := by
  obtain ⟨session', addr, stale, len, calls, place, halfLength⟩ :=
    chunk_handled ops room region s offset session above top frame inside chunk.even last
  have fed := run_frame_valid ops room s idle frame chunk.valid
  have parser := recvData_sameParser ops (s.received frame)
  rw [chunk.kind] at fed
  refine ⟨_, _, fed, ⟨State.idle_of_sameParser parser ⟨rfl, rfl⟩, session'⟩, ?_⟩
  simp only [PartAnswered, Role.AnsweredBy, handle, calls]
  refine ⟨⟨addr, stale, len, ?_, place, halfLength⟩, ?_, ?_, ?_⟩
  · cases final <;> rfl
  · cases final <;> rfl
  · rw [List.count_cons_of_ne (by simp [Call.dispatch, writeMemoryResponse]), List.count_append,
      List.count_append, ackPacket_response, List.count_singleton,
      beq_false_of_ne (by simp [writeMemoryResponse])]
    cases final <;> simp
  · rintro rfl
    rw [if_pos rfl, ← List.cons_append]
    exact List.getLast?_concat

end Chunks

-----------------------------------------------------------------------------------------
-- Whole downloads, taken part by part
-----------------------------------------------------------------------------------------

/-- Parts fed in order to the parser: each is answered as its role asks, and the state at
the end is as asked.
-/
def PartsTaken (ops : BlTestFuncOps) (region : AppProgramLocation) (s : State)
    (parts : List (Part ops.packetSize)) (home : State → Prop)
    : Prop :=
  ∃ t answers,
    trace (run (analysisPacket ops)) s (parts.map fun part => part.2.bytes) = .ok (t, answers)
    ∧ home t
    ∧ List.Forall₂ (PartAnswered ops region) parts answers

theorem PartTaken.parts {ops : BlTestFuncOps} {region : AppProgramLocation} {s : State}
    {part : Part ops.packetSize} {session : AppProgramLocation × UInt32}
    (taken : PartTaken ops region s part session)
    : PartsTaken ops region s [part] (fun t => t.Idle ∧ t.session = session) := by
  obtain ⟨t, calls, fed, home, answered⟩ := taken
  exact ⟨t, [calls], trace_singleton fed, home, .cons answered .nil⟩

/-- Parts may be fed one list after the other. -/
theorem PartsTaken.append {ops : BlTestFuncOps} {region : AppProgramLocation} {s : State}
    {left right : List (Part ops.packetSize)} {middle home : State → Prop}
    (first : PartsTaken ops region s left middle)
    (second : ∀ t, middle t → PartsTaken ops region t right home)
    : PartsTaken ops region s (left ++ right) home := by
  obtain ⟨t, early, fed, reached, answered⟩ := first
  obtain ⟨u, late, fed', reached', answered'⟩ := second t reached
  refine ⟨u, early ++ late, ?_, reached', List.rel_append answered answered'⟩
  rw [List.map_append]
  exact trace_append fed fed'

/-- A session whose parameters are those of the region or none is covered by it. -/
theorem State.CoveredBy.of_session {region : AppProgramLocation} {s t : State}
    (covered : s.CoveredBy region) (same : t.session = s.session)
    : t.CoveredBy region := by
  have appProgram := (Prod.mk.inj same).1
  exact ⟨by rw [appProgram]; exact covered.start, by rw [appProgram]; exact covered.count⟩

section Session

variable (ops : BlTestFuncOps) (room : ops.packetSize.toNat ≤ LENGTH)
  (region : AppProgramLocation)
include room

/-- Interludes keep the session, whatever they are. -/
theorem interludes_taken (s : State) (idle : s.Idle)
    (interludes : List (Interlude ops.packetSize))
    : PartsTaken ops region s (interludeParts interludes)
        (fun t => t.Idle ∧ t.session = s.session) := by
  have block (u : State) (interlude : Interlude ops.packetSize)
      (home : u.Idle ∧ u.session = s.session)
      : ∃ t calls,
          run (analysisPacket ops) u interlude.packet.bytes = .ok (t, calls)
          ∧ (t.Idle ∧ t.session = s.session)
          ∧ PartAnswered ops region (.interlude, interlude.packet) calls := by
    rw [← home.2]
    exact interlude_taken ops room region u home.1 interlude
  obtain ⟨t, answers, fed, home, answered⟩ :=
    trace_blocks block (⟨idle, rfl⟩ : s.Idle ∧ s.session = s.session) interludes
  refine ⟨t, answers, ?_, home, ?_⟩
  · rw [interludeParts, List.map_map]
    exact fed
  · rw [interludeParts, List.forall₂_map_left_iff]
    exact answered

/-- A turn keeps the session up to its frame. -/
theorem turn_taken {accepted : Frame ops.packetSize → Prop} (role : Role)
    (turn : Turn ops.packetSize accepted) (s : State) (idle : s.Idle)
    (session : AppProgramLocation × UInt32)
    (taken
      : ∀ t : State,
          t.Idle
          → t.session = s.session
          → PartTaken ops region t (role, .frame turn.frame) session)
    : PartsTaken ops region s (turn.parts role) (fun t => t.Idle ∧ t.session = session) :=
  (interludes_taken ops room region s idle turn.interludes).append
    fun t home => (taken t home.1 home.2).parts

/-- Erase commands leave a session that their region covers. -/
theorem erases_taken (s : State) (idle : s.Idle) (covered : s.CoveredBy region)
    (erases : List (Turn ops.packetSize (Frame.Names FLASH_ERASE_REGION region)))
    : PartsTaken ops region s (erases.flatMap (Turn.parts .erase))
        (fun t => t.Idle ∧ t.CoveredBy region) := by
  induction erases generalizing s with
  | nil => exact ⟨s, [], rfl, ⟨idle, covered⟩, .nil⟩
  | cons turn rest ih =>
      have first := turn_taken ops room region .erase turn s idle
        (region, s.blVariate.writeMemoryStart) (by
          intro t idle' same
          have pointer := (Prod.mk.inj same).2
          rw [← pointer]
          exact erase_taken ops room region t idle' (covered.of_session same) turn.frame
            turn.accepts)
      refine first.append fun t home => ?_
      obtain ⟨idle', session⟩ := home
      have appProgram := (Prod.mk.inj session).1
      exact ih t idle' ⟨by rw [appProgram, UInt32.or_self], by rw [appProgram, UInt32.or_self]⟩

/-- Chunks that fill the region from a place in it on end with the pointer cleared; by
induction on the chunks, where only the last one meets the end of the region.
-/
theorem transfers_taken (above : ops.appAddress ≤ region.flashStartAddr)
    (top : region.flashStartAddr.toNat + region.flashByteCount.toNat ≤ 2 ^ 32)
    (s : State) (idle : s.Idle) (offset : Nat)
    (session : s.session = (region, region.flashStartAddr + UInt32.ofNat offset))
    (transfers : List (Turn ops.packetSize Frame.IsChunk)) (nonempty : transfers ≠ [])
    (whole
      : offset + (transfers.flatMap fun turn => turn.frame.payload).length
        = region.flashByteCount.toNat)
    : PartsTaken ops region s (transferParts offset transfers)
        (fun t => t.Idle ∧ t.session = (region, 0)) := by
  induction transfers generalizing s offset with
  | nil => exact (nonempty rfl).elim
  | cons turn rest ih =>
      rw [List.flatMap_cons, List.length_append] at whole
      have last : rest.isEmpty
          = decide (offset + turn.frame.payload.length = region.flashByteCount.toNat) := by
        cases rest with
        | nil => exact (decide_eq_true whole).symm
        | cons next rest =>
            have more := next.frame.nonempty
            rw [List.flatMap_cons, List.length_append] at whole
            exact (decide_eq_false (by omega)).symm
      have first := turn_taken ops room region
        (.chunk offset turn.frame.payload rest.isEmpty) turn s idle _ (by
          intro t idle' same
          exact chunk_taken ops room region t offset (same.trans session) above top turn.frame
            (by omega) idle' turn.accepts last)
      refine first.append fun t home => ?_
      obtain ⟨idle', session'⟩ := home
      cases rest with
      | nil => exact ⟨t, [], rfl, ⟨idle', session'⟩, .nil⟩
      | cons next rest =>
          refine ih t idle' _ session' (List.cons_ne_nil _ _) ?_
          omega

end Session

/-- A region fits its sectors. -/
theorem AppProgramLocation.count_le_sectors (region : AppProgramLocation) (sectorSize : Nat)
    (positive : 0 < sectorSize)
    : region.flashByteCount.toNat ≤ region.sectors sectorSize * sectorSize := by
  have split := Nat.div_add_mod (region.flashByteCount.toNat + sectorSize - 1) sectorSize
  have small := Nat.mod_lt (region.flashByteCount.toNat + sectorSize - 1) positive
  rw [Nat.mul_comm] at split
  rw [AppProgramLocation.sectors]
  omega

/-- The sectors of the region end inside the address space. -/
theorem Download.top {board : Board} (d : Download board)
    : d.region.flashStartAddr.toNat + d.region.sectors board.sector * board.sector ≤ 2 ^ 32 :=
  Nat.le_trans d.inFlash board.flashRoom

/-- A whole download fed to an idle parser: every packet is answered as its role asks, and the
pointer is cleared at the end.
-/
theorem download_taken_idle {board : Board} (d : Download board) (s : State) (idle : s.Idle)
    (covered : s.CoveredBy d.region)
    : PartsTaken board.ops d.region s d.parts
        (fun t => t.Idle ∧ t.session = (d.region, 0)) := by
  have fits := d.region.count_le_sectors board.sector board.sectorPositive
  have top := d.top
  have room := board.packetRoom
  have transfers : d.transfers ≠ [] := by
    intro none
    have length := d.length
    have positive := d.positive
    rw [← d.chunks, none] at length
    simp only [List.flatMap_nil, List.length_nil] at length
    omega
  have whole : 0 + (d.transfers.flatMap fun turn => turn.frame.payload).length
      = d.region.flashByteCount.toNat := by
    rw [d.chunks, d.length, Nat.zero_add]
  have erased := erases_taken board.ops room d.region s idle covered d.erases
  have written := erased.append fun t home =>
    turn_taken board.ops room d.region .write d.write t home.1 _ fun u idle same =>
      write_taken board.ops room d.region u idle (home.2.of_session same) d.write.frame
        d.write.accepts
  have sent := written.append fun t home =>
    transfers_taken board.ops room d.region d.aboveApp (by omega) t home.1 0
      (by rw [home.2]; simp) d.transfers transfers whole
  exact sent.append fun t home => by
    rw [← home.2]
    exact interludes_taken board.ops room d.region t home.1 d.closing

/-- At power-on the parser is idle and no parameters are kept. -/
theorem State.powerOn_ready (fp : FramingPacket) (region : AppProgramLocation)
    : (State.powerOn fp).Idle ∧ (State.powerOn fp).CoveredBy region :=
  ⟨⟨rfl, rfl⟩, ⟨UInt32.zero_or, UInt32.zero_or⟩⟩

/-- A whole download from power-on. -/
theorem download_taken {board : Board} (d : Download board) (fp : FramingPacket)
    : PartsTaken board.ops d.region (.powerOn fp) d.parts
        (fun t => t.Idle ∧ t.session = (d.region, 0)) :=
  have ready := State.powerOn_ready fp d.region
  download_taken_idle d (.powerOn fp) ready.1 ready.2

end At32.Bootloader
