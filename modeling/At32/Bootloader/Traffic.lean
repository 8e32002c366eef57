import At32.Bootloader.Replies
import At32.Bootloader.Resync

/-! How much the bootloader sends for what it receives. The bytes of an unfinished packet are
credit: every reply is paid for by the packet that it answers, and every trace line by the packet
that it is about. Both leave on the same USART.
-/

namespace At32.Bootloader

open LittleEndian Transducer

/-- The number of bytes that some calls hand to bl_send_data. What they print is not counted. -/
def sentBytes (calls : List Call) : Nat := ((sends calls).map List.length).sum

@[simp] theorem sentBytes_append (left right : List Call)
    : sentBytes (left ++ right) = sentBytes left + sentBytes right := by
  simp [sentBytes]

/-- What printf writes for an unsigned value: the format, with the digits of the value for %X and
for %d. The bootloader prints no more than halfwords, which %d shows without a sign.
-/
def printed (value : UInt32) : List Char → List Char
  | [] => []
  | '%' :: 'X' :: rest => (Nat.toDigits 16 value.toNat).map Char.toUpper ++ printed value rest
  | '%' :: 'd' :: rest => Nat.toDigits 10 value.toNat ++ printed value rest
  | char :: rest => char :: printed value rest

/-- The text that a call prints. -/
def Call.printed? : Call → Option (List Char)
  | .printf format value => some (printed value format.toList)
  | _ => none

/-- The number of characters that some calls print, each of which fputc sends as a byte. -/
def printedBytes (calls : List Call) : Nat :=
  ((calls.filterMap Call.printed?).map List.length).sum

@[simp] theorem printedBytes_append (left right : List Call)
    : printedBytes (left ++ right) = printedBytes left + printedBytes right := by
  simp [printedBytes]

@[simp] theorem printedBytes_dispatch (kind : FrameKind) (fp : FramingPacket)
    (calls : List Call)
    : printedBytes (.dispatch kind fp :: calls) = printedBytes calls := by
  cases kind <;> rfl

/-- The number of bytes that some calls put on the USART, in answers or in print. -/
def bytesOut (calls : List Call) : Nat := sentBytes calls + printedBytes calls

theorem bytesOut_append (left right : List Call)
    : bytesOut (left ++ right) = bytesOut left + bytesOut right := by
  simp only [bytesOut, sentBytes_append, printedBytes_append]
  omega

/-- The sector loop prints nothing. -/
@[simp] theorem printedBytes_eraseCalls (ops : BlTestFuncOps) (start : UInt32) (num : UInt16)
    : printedBytes (eraseCalls ops start num) = 0 := by
  have silent : (eraseCalls ops start num).filterMap Call.printed? = [] := by
    apply List.filterMap_eq_nil_iff.mpr
    intro call member
    obtain ⟨_, _, rfl⟩ := List.mem_map.mp member
    rfl
  rw [printedBytes, silent]
  rfl

-----------------------------------------------------------------------------------------
-- The lengths of the trace lines
-----------------------------------------------------------------------------------------

/-- A byte has two hexadecimal digits at most. -/
theorem hexDigits_byte (value : UInt8)
    : (Nat.toDigits 16 value.toNat).length ≤ 2 := by
  rw [Nat.length_toDigits_le_iff (by decide) (by decide)]
  exact value.toNat_lt

/-- A halfword has four hexadecimal digits at most. -/
theorem hexDigits_half (value : UInt16)
    : (Nat.toDigits 16 value.toNat).length ≤ 4 := by
  rw [Nat.length_toDigits_le_iff (by decide) (by decide)]
  exact value.toNat_lt

/-- The line about a packet of another type. -/
theorem printedBytes_packetType (value : UInt8)
    : printedBytes [.printf "fp_t->packet_type = [%X]\r\n" value.toUInt32] ≤ 26 := by
  have digits := hexDigits_byte value
  simp [printedBytes, Call.printed?, printed]
  omega

example : printed 0xA7 "packet_type = [%X]\r\n".toList = "packet_type = [A7]\r\n".toList := by
  decide

/-- The line about a command that is none. -/
theorem printedBytes_tag (value : UInt8)
    : printedBytes [.printf "fp_t->data[0] = [%X]\r\n" value.toUInt32] ≤ 22 := by
  have digits := hexDigits_byte value
  simp [printedBytes, Call.printed?, printed]
  omega

/-- The line about a property that is none. -/
theorem printedBytes_property (value : UInt8)
    : printedBytes [.printf "fp_t->data[4] = [%X]\r\n" value.toUInt32] ≤ 22 := by
  have digits := hexDigits_byte value
  simp [printedBytes, Call.printed?, printed]
  omega

/-- The numbers about check bytes that do not match. -/
theorem printedBytes_mismatch {len : UInt16} (room : len.toNat ≤ LENGTH) (low high : UInt8)
    (crcValue ret : UInt16)
    : printedBytes
        [
          .printf "%d" len.toUInt32, .printf "%X" low.toUInt32, .printf "%X" high.toUInt32,
          .printf "%X" crcValue.toUInt32, .printf "%X" ret.toUInt32
        ]
      ≤ 15 := by
  have decimals : (Nat.toDigits 10 len.toNat).length ≤ 3 := by
    rw [Nat.length_toDigits_le_iff (by decide) (by decide)]
    exact Nat.lt_of_le_of_lt room (by decide)
  have lowDigits := hexDigits_byte low
  have highDigits := hexDigits_byte high
  have stored := hexDigits_half crcValue
  have computed := hexDigits_half ret
  simp [printedBytes, Call.printed?, printed]
  omega

/-- The handlers print one line about a command at most, by cases on its tag. -/
theorem handle_printedBytes (ops : BlTestFuncOps) (s : State) (kind : FrameKind)
    : printedBytes (handle ops s kind).2 ≤ 22 := by
  have ack : printedBytes ackPacket = 0 := rfl
  have response (s : State) : printedBytes (genericResponsePacket s 0).2 = 0 := rfl
  cases kind with
  | data =>
      have write : printedBytes (recvDataWrite ops s).2 = 0 := by
        simp only [recvDataWrite]
        split <;> rfl
      have finish (s : State) : printedBytes (recvDataFinish s).2 = 0 := by
        simp only [recvDataFinish]
        split <;> rfl
      simp only [handle, recvData, printedBytes_append, write, ack, finish]
      decide
  | command =>
      simp only [handle, analysisCommandTag]
      split
      · simp only [flashEraseRegion, printedBytes_append, printedBytes_eraseCalls, ack, response]
        decide
      · simp only [writeMemory, printedBytes_append, ack, response]
        decide
      · unfold propertyTag
        split
        all_goals first
        | exact Nat.zero_le _
        | exact printedBytes_property _
      · simp only [resetMcu, printedBytes_append, ack, response]
        decide
      · exact printedBytes_tag _

/-- A check prints one line at most, about the command, the packet type or the check bytes. -/
theorem checkCrc_printedBytes {ops : BlTestFuncOps} {s t : State} {len : UInt16}
    {calls : List Call} (checked : checkCrc ops s len = .ok (t, calls))
    : printedBytes calls ≤ 26 := by
  simp only [checkCrc] at checked
  split at checked
  · rename_i room
    split at checked
    · split at checked
      · obtain ⟨_, rfl⟩ := Prod.mk.inj (Except.ok.inj checked)
        exact Nat.le_trans (handle_printedBytes ops s .command) (by decide)
      · obtain ⟨_, rfl⟩ := Prod.mk.inj (Except.ok.inj checked)
        exact Nat.le_trans (handle_printedBytes ops s .data) (by decide)
      · obtain ⟨_, rfl⟩ := Prod.mk.inj (Except.ok.inj checked)
        exact printedBytes_packetType _
    · obtain ⟨_, rfl⟩ := Prod.mk.inj (Except.ok.inj checked)
      exact Nat.le_trans (printedBytes_mismatch room _ _ _ _) (by decide)
  · cases checked

/-- Only the byte that ends a payload prints; by cases on the status. -/
theorem analysisPacket_printedBytes {ops : BlTestFuncOps} {s t : State} {data : UInt8}
    {calls : List Call} (taken : analysisPacket ops s data = .ok (t, calls))
    : printedBytes calls = 0
      ∨ s.blVariate.status = .data
        ∧ t.blVariate.status = .start
        ∧ t.blVariate.count = 0
        ∧ printedBytes calls ≤ 26 := by
  cases status : s.blVariate.status with
  | start =>
      left
      simp only [analysisPacket, status] at taken
      split at taken <;> cases taken <;> rfl
  | cmd =>
      left
      simp only [analysisPacket, status, analysisCmd, Except.ok.injEq] at taken
      split at taken
      all_goals
        obtain ⟨_, rfl⟩ := Prod.mk.inj taken
        rfl
  | lenLow | lenHigh | crcLow | crcHigh =>
      left
      simp only [analysisPacket, status] at taken
      cases taken
      rfl
  | data =>
      simp only [analysisPacket, status, analysisData] at taken
      split at taken
      · split at taken
        · have same := checkCrc_sameParser taken
          simp only [State.parser, Prod.mk.injEq] at same
          exact Or.inr ⟨rfl, same.2.2.1, same.1, checkCrc_printedBytes taken⟩
        · cases taken
          exact Or.inl rfl
      · cases taken

-----------------------------------------------------------------------------------------
-- The credit of the bytes received
-----------------------------------------------------------------------------------------

/-- A packet of either kind is answered with an ack and a response at most. -/
theorem handle_sentBytes (ops : BlTestFuncOps) (s : State) (kind : FrameKind)
    (type : s.fp.packetType = kind.packetType)
    : sentBytes (handle ops s kind).2 ≤ 20 := by
  have bytes (value : UInt32) : (wordBytes value).length = 4 := rfl
  cases kind with
  | command =>
      rcases analysisCommandTag_sends ops s type with ⟨_, sent⟩ | ⟨value, tag, _, sent⟩
      · simp [handle, sentBytes, sent]
      · simp [handle, sentBytes, sent, responseBuffer_length, bytes]
  | data =>
      rcases recvData_sends ops s with sent | sent
      · simp [handle, sentBytes, sent]
      · simp [handle, sentBytes, sent, responseBuffer_length, bytes]

/-- A ping is answered at the byte behind the start byte, and ends its packet; by cases on the
status.
-/
theorem pinged {ops : BlTestFuncOps} {s t : State} {data : UInt8} {calls : List Call}
    (taken : analysisPacket ops s data = .ok (t, .pingResponsePacket :: calls))
    : s.blVariate.status = .cmd
      ∧ t.blVariate.status = .start
      ∧ t.blVariate.count = s.blVariate.count := by
  cases status : s.blVariate.status with
  | start =>
      simp only [analysisPacket, status] at taken
      split at taken <;> cases taken
  | cmd =>
      simp only [analysisPacket, status, analysisCmd, Except.ok.injEq] at taken
      split at taken
      all_goals
        obtain ⟨rfl, made⟩ := Prod.mk.inj taken
        first | exact ⟨rfl, rfl, rfl⟩ | cases made
  | lenLow | lenHigh | crcLow | crcHigh =>
      simp only [analysisPacket, status] at taken
      cases taken
  | data =>
      simp only [analysisPacket, status, analysisData] at taken
      split at taken
      · split at taken
        · rcases checkCrc_cases taken with ⟨kind, _, _, _, made⟩ | ⟨_, _, prints⟩
          · cases kind <;> cases made
          · exact absurd (prints _ List.mem_cons_self) (by decide)
        · cases taken
      · cases taken

/-- One byte adds to the credit, or spends it on a reply: seven bytes pay for twenty, and two for
a ping response.
-/
theorem State.Since.sent {ops : BlTestFuncOps} {s t : State} {bytes : Nat} {data : UInt8}
    {calls : List Call} (since : s.Since bytes)
    (taken : analysisPacket ops s data = .ok (t, calls))
    : ∃ left, t.Since left ∧ sentBytes calls + 5 * left ≤ 5 * (bytes + 1) := by
  have next := since.step taken
  rcases analysisPacket_cases taken with ⟨kind, accepts, rfl, rfl⟩ | ⟨_, prints | rfl⟩
  · have same := handle_sameParser ops (s.completed data) kind
    simp only [State.parser, Prod.mk.injEq] at same
    have counted := (since.payload accepts.status kind accepts.type).2
    have sent := handle_sentBytes ops (s.completed data) kind accepts.type
    refine ⟨0, State.since_start same.2.2.1 same.1 0, ?_⟩
    rw [sentBytes, sends_dispatch]
    change sentBytes (handle ops (s.completed data) kind).2 + 0 ≤ _
    omega
  · refine ⟨bytes + 1, next, ?_⟩
    rw [sentBytes, sends_prints prints]
    simp
  · obtain ⟨waiting, ended, same⟩ := pinged taken
    have header := since.header
    have count := since.outside (by simp [waiting])
    rw [waiting] at header
    refine ⟨0, State.since_start ended (same.trans count) 0, ?_⟩
    have sent : sentBytes (.pingResponsePacket :: pingResponsePacket) = 10 := rfl
    have credit : 1 ≤ bytes := header
    omega

/-- A trace line is paid for as well: three bytes pay for twenty-six characters. -/
theorem State.Since.shown {ops : BlTestFuncOps} {s t : State} {bytes : Nat} {data : UInt8}
    {calls : List Call} (since : s.Since bytes)
    (taken : analysisPacket ops s data = .ok (t, calls))
    : ∃ left, t.Since left ∧ bytesOut calls + 9 * left ≤ 9 * (bytes + 1) := by
  rw [bytesOut]
  rcases analysisPacket_cases taken with ⟨kind, accepts, rfl, rfl⟩ | ⟨_, prints | rfl⟩
  · have same := handle_sameParser ops (s.completed data) kind
    simp only [State.parser, Prod.mk.injEq] at same
    have counted := (since.payload accepts.status kind accepts.type).2
    have sent := handle_sentBytes ops (s.completed data) kind accepts.type
    have shown := handle_printedBytes ops (s.completed data) kind
    refine ⟨0, State.since_start same.2.2.1 same.1 0, ?_⟩
    rw [sentBytes, sends_dispatch, printedBytes_dispatch]
    change sentBytes (handle ops (s.completed data) kind).2 + _ + 0 ≤ _
    omega
  · have silent : sentBytes calls = 0 := by
      rw [sentBytes, sends_prints prints]
      rfl
    rcases analysisPacket_printedBytes taken with none | ⟨opened, ended, count, few⟩
    · exact ⟨bytes + 1, since.step taken, by omega⟩
    · have header := since.header
      rw [opened] at header
      have credit : 2 ≤ bytes := header
      exact ⟨0, State.since_start ended count 0, by omega⟩
  · obtain ⟨waiting, ended, same⟩ := pinged taken
    have header := since.header
    have count := since.outside (by simp [waiting])
    rw [waiting] at header
    refine ⟨0, State.since_start ended (same.trans count) 0, ?_⟩
    have sent : sentBytes (.pingResponsePacket :: pingResponsePacket) = 10 := rfl
    have shown : printedBytes (.pingResponsePacket :: pingResponsePacket) = 0 := rfl
    have credit : 1 ≤ bytes := header
    omega

/-- The bootloader does not amplify: whatever bytes arrive from power-on, in any number of valid
packets, broken ones and noise, at no point of the run has it handed more than five bytes to
bl_send_data for each byte received, nor have more than nine left it together with the trace
lines that it prints; while a packet is under way not even for that one's header.
-/
theorem replies_bounded (ops : BlTestFuncOps) (fp : FramingPacket) (received : List UInt8)
    : ∀ s calls,
        run (analysisPacket ops) (.powerOn fp) received = .ok (s, calls)
        → sentBytes calls + 5 * s.blVariate.status.taken ≤ 5 * received.length
          ∧ bytesOut calls + 9 * s.blVariate.status.taken ≤ 9 * received.length := by
  intro s calls ran
  have start : (State.powerOn fp).Since 0 := State.since_start rfl rfl 0
  constructor
  · obtain ⟨left, since, paid⟩ :=
      run_paid (rfl : sentBytes [] = 0) sentBytes_append
        (fun _ _ _ _ _ since taken => State.Since.sent since taken) start ran
    have header := since.header
    omega
  · obtain ⟨left, since, paid⟩ :=
      run_paid (rfl : bytesOut [] = 0) bytesOut_append
        (fun _ _ _ _ _ since taken => State.Since.shown since taken) start ran
    have header := since.header
    omega

/-- A ping meets the first bound with equality. -/
theorem replies_bounded_ping
    : sentBytes (.pingResponsePacket :: pingResponsePacket) + 5 * Status.start.taken
        ≤ 5 * [FramingPacketType.startByte, FramingPacketType.ping].length
      ∧ bytesOut (.pingResponsePacket :: pingResponsePacket) + 9 * Status.start.taken
        ≤ 9 * [FramingPacketType.startByte, FramingPacketType.ping].length :=
  replies_bounded blTestFunc .zero [FramingPacketType.startByte, FramingPacketType.ping] _ _ rfl

end At32.Bootloader
