import At32.Bootloader.Accepted

/-! What the bootloader sends for an accepted packet: how many replies, and that a response
is itself a frame of the protocol.
-/

namespace At32.Bootloader

open LittleEndian Transducer

/-- The bytes that a call hands to bl_send_data. A trace line does not count as sent, though
its text leaves on the same USART.
-/
def Call.sent? : Call → Option (List UInt8)
  | .blSendData _ buf => some buf
  | _ => none

/-- What some calls hand to bl_send_data, in order. -/
def sends (calls : List Call) : List (List UInt8) := calls.filterMap Call.sent?

/-- The two bytes of an ack. -/
abbrev ackBytes : List UInt8 := [0x5A, 0xA1]

/-- The properties that are answered. -/
def propertyValue? (ops : BlTestFuncOps) : UInt8 → Option UInt32
  | CURRENT_VERSION => some BOOTLOADER_VERSION
  | FLASH_SIZE_IN_BYTES => some ops.flashSize
  | FLASH_SECTOR_SIZE => some ops.flashSectorSize
  | MAX_PACKET_SIZE => some ops.packetSize
  | SYSTEM_DEVICELD => some ops.deviceId
  | _ => none

/-- The word that the response to a command carries: the value of the property asked for, or
the tag of the command. Other commands and properties have no response.
-/
def FramingPacket.report? (ops : BlTestFuncOps) (fp : FramingPacket) : Option UInt32 :=
  match fp.tag with
  | FLASH_ERASE_REGION => some FLASH_ERASE_REGION.toUInt32
  | WRITE_MEMORY => some WRITE_MEMORY.toUInt32
  | GET_PROPERTY => propertyValue? ops fp.property
  | RESET_MCU => some RESET_MCU.toUInt32
  | _ => none

@[simp] theorem sends_append (left right : List Call)
    : sends (left ++ right) = sends left ++ sends right :=
  List.filterMap_append

@[simp] theorem sends_ackPacket : sends ackPacket = [ackBytes] := rfl

/-- The sector loop sends nothing. -/
@[simp] theorem sends_eraseCalls (ops : BlTestFuncOps) (start : UInt32) (num : UInt16)
    : sends (eraseCalls ops start num) = [] := by
  apply List.filterMap_eq_nil_iff.mpr
  intro call member
  obtain ⟨_, _, rfl⟩ := List.mem_map.mp member
  rfl

/-- Prints send nothing. -/
theorem sends_prints {calls : List Call} (prints : ∀ call ∈ calls, call.isPrint)
    : sends calls = [] := by
  apply List.filterMap_eq_nil_iff.mpr
  intro call member
  have print := prints call member
  cases call <;> first | rfl | cases print

@[simp] theorem sends_dispatch (kind : FrameKind) (fp : FramingPacket) (calls : List Call)
    : sends (.dispatch kind fp :: calls) = sends calls := by
  cases kind <;> rfl

/-- A generic response sends one buffer that carries its tag. -/
theorem genericResponsePacket_sends (s : State)
    : sends (genericResponsePacket s 0).2
      = [
          responseBuffer s.fp.startByte s.genericPacket.packetType 0xA0
            [(s.genericPacket.commandTag &&& 0xFF).toUInt8, 0, 0, 0]
        ] := rfl

/-- A property response sends an ack and one buffer that carries the value. -/
theorem commandResponsePacket_sends (s : State) (value : UInt32)
    : sends (commandResponsePacket s value).2
      = [
          ackBytes,
          responseBuffer s.fp.startByte s.fp.packetType FramingPacketType.pingResponse
            (wordBytes value)
        ] := rfl

/-- A property that has a value is answered with it, and another one only printed. -/
theorem propertyTag_eq (ops : BlTestFuncOps) (s : State)
    : propertyTag ops s
      = match propertyValue? ops s.fp.property with
        | some value => commandResponsePacket s value
        | none => (s, [.printf "fp_t->data[4] = [%X]\r\n" s.fp.data[4].toUInt32]) := by
  unfold propertyTag propertyValue?
  split
  all_goals
    rename_i property
    simp only [FramingPacket.property, property]

theorem propertyTag_answers {ops : BlTestFuncOps} {s : State} {value : UInt32}
    (known : propertyValue? ops s.fp.property = some value)
    : propertyTag ops s = commandResponsePacket s value := by
  rw [propertyTag_eq, known]

theorem propertyTag_prints {ops : BlTestFuncOps} {s : State}
    (unknown : propertyValue? ops s.fp.property = none)
    : propertyTag ops s = (s, [.printf "fp_t->data[4] = [%X]\r\n" s.fp.data[4].toUInt32]) := by
  rw [propertyTag_eq, unknown]

/-- GetProperty is answered for the properties that have a value. -/
theorem propertyTag_sends (ops : BlTestFuncOps) (s : State)
    : sends (propertyTag ops s).2
      = match propertyValue? ops s.fp.property with
        | some value => sends (commandResponsePacket s value).2
        | none => [] := by
  rw [propertyTag_eq]
  cases propertyValue? ops s.fp.property <;> rfl

/-- A command is answered by one ack and one response that carries its report, or it has no
report and nothing is sent; by cases on its tag.
-/
theorem analysisCommandTag_sends (ops : BlTestFuncOps) (s : State)
    (type : s.fp.packetType = FramingPacketType.command)
    : (s.fp.report? ops = none ∧ sends (analysisCommandTag ops s).2 = [])
      ∨ ∃ value tag,
          s.fp.report? ops = some value
          ∧ sends (analysisCommandTag ops s).2
            = [
                ackBytes,
                responseBuffer s.fp.startByte FramingPacketType.command tag (wordBytes value)
              ] := by
  unfold FramingPacket.report?
  split
  · rename_i tag
    refine Or.inr ⟨_, 0xA0, rfl, ?_⟩
    simp only [analysisCommandTag, flashEraseRegion, sends_append, sends_ackPacket,
      sends_eraseCalls, genericResponsePacket_sends, State.nameCommand,
      analysisAppDownloadAddr, type, tag]
    rfl
  · rename_i tag
    refine Or.inr ⟨_, 0xA0, rfl, ?_⟩
    simp only [analysisCommandTag, writeMemory, sends_append, sends_ackPacket,
      genericResponsePacket_sends, State.nameCommand, analysisAppDownloadAddr, type, tag]
    rfl
  · rename_i tag
    simp only [analysisCommandTag, tag, propertyTag_sends]
    cases known : propertyValue? ops s.fp.property with
    | none => exact Or.inl ⟨rfl, rfl⟩
    | some value =>
        refine Or.inr ⟨value, FramingPacketType.pingResponse, rfl, ?_⟩
        rw [← type]
        exact commandResponsePacket_sends s value
  · rename_i tag
    refine Or.inr ⟨_, 0xA0, rfl, ?_⟩
    simp only [analysisCommandTag, tag, resetMcu, sends_append, sends_ackPacket,
      genericResponsePacket_sends]
    rfl
  · refine Or.inl ⟨rfl, ?_⟩
    unfold analysisCommandTag
    split
    all_goals first | contradiction | rfl

/-- A command without a report is only printed: its tag is none, or it asks for a property that
is none.
-/
theorem analysisCommandTag_prints {ops : BlTestFuncOps} {s : State}
    (silent : s.fp.report? ops = none)
    : ∃ format value, analysisCommandTag ops s = (s, [.printf format value]) := by
  unfold FramingPacket.report? at silent
  split at silent
  · cases silent
  · cases silent
  · rename_i tag
    rw [analysisCommandTag_property ops tag, propertyTag_prints silent]
    exact ⟨_, _, rfl⟩
  · cases silent
  · rename_i erase write property reset
    exact ⟨_, _, analysisCommandTag_other ops erase write property reset⟩

/-- A data packet is answered by one ack, and at the end of the region by a response that
names WriteMemory.
-/
theorem recvData_sends (ops : BlTestFuncOps) (s : State)
    : sends (recvData ops s).2 = [ackBytes]
      ∨ sends (recvData ops s).2
        = [
            ackBytes,
            responseBuffer s.fp.startByte FramingPacketType.command 0xA0
              (wordBytes WRITE_MEMORY.toUInt32)
          ] := by
  have write : sends (recvDataWrite ops s).2 = [] := by
    simp only [recvDataWrite]
    split <;> rfl
  have packet : (recvDataWrite ops s).1.fp = s.fp := by
    simp only [recvDataWrite]
    split <;> rfl
  simp only [recvData, sends_append, write, sends_ackPacket, List.nil_append, ← packet]
  generalize (recvDataWrite ops s).1 = t
  simp only [recvDataFinish]
  split
  · exact Or.inr rfl
  · exact Or.inl rfl

-----------------------------------------------------------------------------------------
-- One reply for each accepted packet
-----------------------------------------------------------------------------------------

/-- What an accepted packet is answered with through bl_send_data: a command that has a report,
by one ack and one response; another command, by nothing but a trace line in print; a data
packet, by one ack, behind which a response may follow.
-/
def FrameKind.Replied (ops : BlTestFuncOps) (fp : FramingPacket) (calls : List Call)
    : FrameKind → Prop
  | .command =>
      if (fp.report? ops).isSome then
        ∃ response, sends calls = [ackBytes, response] ∧ response.length = 18
      else
        sends calls = [] ∧ ∃ format value, calls = [.analysisCommandTag fp, .printf format value]
  | .data =>
      ∃ responses,
        sends calls = ackBytes :: responses
        ∧ responses.length ≤ 1
        ∧ ∀ response ∈ responses, response.length = 18

/-- Every accepted packet is replied to as its kind and its command ask, whatever the state
it is accepted in.
-/
theorem packet_replied (ops : BlTestFuncOps) (s : State) (data : UInt8) (kind : FrameKind)
    (accepts : s.Accepts data kind)
    : ∃ t calls,
        analysisPacket ops s data = .ok (t, calls)
        ∧ kind.Replied ops (s.completed data).fp calls := by
  refine ⟨_, _, accepts.taken, ?_⟩
  cases kind with
  | command =>
      simp only [FrameKind.Replied, sends_dispatch, handle]
      rcases analysisCommandTag_sends ops (s.completed data) accepts.type with
        ⟨silent, sent⟩ | ⟨value, tag, known, sent⟩
      · obtain ⟨format, value, printed⟩ := analysisCommandTag_prints silent
        rw [silent, sent, printed]
        exact ⟨rfl, format, value, rfl⟩
      · simp [known, sent, responseBuffer_length, wordBytes]
  | data =>
      simp only [FrameKind.Replied, sends_dispatch, handle]
      rcases recvData_sends ops (s.completed data) with sent | sent
      · exact ⟨[], sent, by simp, by simp⟩
      · exact ⟨_, sent, by simp, by simp [responseBuffer_length, wordBytes]⟩

/-- The state in which the one payload byte of a ResetMcu packet is awaited. -/
def resetAwaited : State :=
  {
    State.powerOn .zero with
    fp :=
      { FramingPacket.zero with
        startByte := FramingPacketType.startByte
        packetType := FramingPacketType.command
        lenLow := 1
        crcLow := 0x40
        crcHigh := 0xF5 }
    blVariate :=
      { count := 0, length := 1, status := .data, appFlag := 1, writeMemoryStart := 0 }
  }

theorem resetAwaited_accepts : resetAwaited.Accepts RESET_MCU .command :=
  ⟨rfl, by decide, rfl, by decide +kernel, rfl⟩

/-- ResetMcu is replied to. -/
theorem packet_replied_resetMcu
    : ∃ t calls,
        analysisPacket blTestFunc resetAwaited RESET_MCU = .ok (t, calls)
        ∧ FrameKind.command.Replied blTestFunc (resetAwaited.completed RESET_MCU).fp calls :=
  packet_replied blTestFunc resetAwaited RESET_MCU .command resetAwaited_accepts

/-- A command packet with the unknown tag 01. -/
def unknownCommand : Frame blTestFunc.packetSize :=
  {
    kind := .command
    payload := [0x01]
    crcLow := 0x0A
    crcHigh := 0x54
    nonempty := by decide
    fits := by decide
  }

/-- From power-on the board of main.c accepts that packet and sends nothing. -/
theorem packet_unreplied_unknownCommand
    : ¬ ∀ received s before,
        run (analysisPacket blTestFunc) (.powerOn .zero) received = .ok (s, before)
        → ∀ data,
            s.Accepts data .command
            → ∀ t calls,
                analysisPacket blTestFunc s data = .ok (t, calls)
                → ∃ response, sends calls = [ackBytes, response] ∧ response.length = 18 := by
  intro all
  obtain ⟨front, data, last, _, fed, accepts, completed⟩ :=
    run_frame_last blTestFunc (by decide) (.powerOn .zero) ⟨rfl, rfl⟩ unknownCommand
      (by decide +kernel)
  obtain ⟨response, sent, _⟩ := all front last [] fed data accepts _ _ accepts.taken
  have silent : sends (handle blTestFunc (last.completed data) .command).2 = [] := by
    rw [completed]
    decide +kernel
  exact List.cons_ne_nil _ _ (sent.symm.trans silent)

end At32.Bootloader
