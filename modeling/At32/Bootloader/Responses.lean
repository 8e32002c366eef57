import At32.Bootloader.Replies

/-! The response frames: what the bootloader sends is accepted by the parser it runs itself,
with the value that was asked for in its last four bytes.
-/

namespace At32.Bootloader

open LittleEndian Transducer

/-- The word that a response to an accepted packet carries. -/
def FrameKind.report? (ops : BlTestFuncOps) (fp : FramingPacket) : FrameKind → Option UInt32
  | .command => fp.report? ops
  | .data => some WRITE_MEMORY.toUInt32

/-- A command frame of twelve payload bytes that a fresh parser accepts, with the value in
its last four bytes.
-/
def IsResponse (ops : BlTestFuncOps) (value : UInt32) (buf : List UInt8) : Prop :=
  ∃ crcLow crcHigh front b0 b1 b2 b3,
    buf = [0x5A, 0xA4, 0x0C, 0x00, crcLow, crcHigh] ++ (front ++ [b0, b1, b2, b3])
    ∧ front.length = 8
    ∧ word b0 b1 b2 b3 = value
    ∧ ∀ fp, ∃ t calls,
        run (analysisPacket ops) (.powerOn fp) buf = .ok (t, calls)
        ∧ calls.filterMap Call.dispatched? = [(.command, front ++ [b0, b1, b2, b3])]

/-- A ping response ends in the check value of its first eight bytes. -/
def IsPingResponse (buf : List UInt8) : Prop :=
  ∃ head low high,
    buf = head ++ [low, high] ∧ head.length = 8 ∧ half low high = crcUpdate head

-----------------------------------------------------------------------------------------
-- The encoder against the parser
-----------------------------------------------------------------------------------------

section Encoder

variable {packetSize : UInt32} (fits : 12 ≤ packetSize.toNat) (tag : UInt8) (value : UInt32)

/-- The payload of a response. -/
def responsePayload : List UInt8 := [tag, 0, 0, 0x02, 0, 0, 0, 0] ++ wordBytes value

/-- A response as a frame of the protocol. -/
def responseFrame : Frame packetSize :=
  let ret := crcUpdate ([0x5A, 0xA4, 0x0C, 0] ++ responsePayload tag value)
  {
    kind := .command
    payload := responsePayload tag value
    crcLow := lowByte ret
    crcHigh := highByte ret
    nonempty := Nat.zero_lt_succ 11
    fits := fits
  }

theorem responseFrame_header
    : (responseFrame fits tag value).header = [0x5A, 0xA4, 0x0C, 0] := by
  have len : (responseFrame fits tag value).len = 12 := rfl
  rw [Frame.header, len]
  rfl

theorem responseFrame_valid : (responseFrame fits tag value).Valid := by
  rw [Frame.Valid, responseFrame_header]
  exact (half_bytes _).symm

/-- The buffer of the response functions is that frame on the wire. -/
theorem responseFrame_bytes
    : (responseFrame fits tag value).bytes
      = responseBuffer FramingPacketType.startByte FramingPacketType.command tag
          (wordBytes value) := by
  rw [Frame.bytes, responseFrame_header, responseBuffer, lowByte_masked, highByte_masked]
  rfl

/-- A response buffer is accepted by a fresh parser and carries its value. -/
theorem responseBuffer_isResponse (ops : BlTestFuncOps) (atLeast : 12 ≤ ops.packetSize.toNat)
    (room : ops.packetSize.toNat ≤ LENGTH)
    : IsResponse ops value
        (responseBuffer FramingPacketType.startByte FramingPacketType.command tag
          (wordBytes value)) := by
  rw [← responseFrame_bytes atLeast]
  refine ⟨(responseFrame atLeast tag value).crcLow, (responseFrame atLeast tag value).crcHigh,
    [tag, 0, 0, 0x02, 0, 0, 0, 0], _, _, _, _, ?_, rfl, word_bytes value, ?_⟩
  · rw [Frame.bytes, responseFrame_header]
    rfl
  · intro fp
    have valid := responseFrame_valid atLeast tag value
    have taken := run_packet ops room (.powerOn fp) (.frame (responseFrame atLeast tag value))
      ⟨rfl, rfl⟩
    obtain ⟨t, calls, fed, _, dispatched, _⟩ := taken
    refine ⟨t, calls, fed, ?_⟩
    rw [dispatched, HostPacket.dispatched?, if_pos valid]
    rfl

end Encoder

/-- The ping response is ended by its check value. -/
theorem pingResponseBuffer_isPingResponse : IsPingResponse pingResponseBuffer := by
  refine ⟨pingResponseBuffer.take 8, lowByte (crcUpdate (pingResponseBuffer.take 8)),
    highByte (crcUpdate (pingResponseBuffer.take 8)), ?_, rfl, half_bytes _⟩
  rw [← lowByte_masked, ← highByte_masked]
  rfl

-----------------------------------------------------------------------------------------
-- What a run sends
-----------------------------------------------------------------------------------------

/-- Behind the start byte of a packet, the packet begins with it. -/
def State.Started (s : State) : Prop :=
  s.blVariate.status ≠ .start → s.fp.startByte = FramingPacketType.startByte

/-- Each byte keeps the start byte of the packet it belongs to, by cases on the status. -/
theorem State.Started.step {ops : BlTestFuncOps} {s t : State} {data : UInt8}
    {calls : List Call} (started : s.Started) (taken : analysisPacket ops s data = .ok (t, calls))
    : t.Started := by
  intro within
  cases status : s.blVariate.status with
  | start =>
      simp only [analysisPacket, status] at taken
      split at taken
      · rename_i same
        obtain ⟨rfl, _⟩ := Prod.mk.inj (Except.ok.inj taken)
        exact same.symm
      · obtain ⟨rfl, _⟩ := Prod.mk.inj (Except.ok.inj taken)
        exact (within status).elim
  | cmd =>
      have packet := started (by rw [status]; simp)
      simp only [analysisPacket, status, Except.ok.injEq] at taken
      have kept : (analysisCmd s data).1.fp.startByte = s.fp.startByte := by
        unfold analysisCmd
        split <;> rfl
      rw [taken] at kept
      exact kept.trans packet
  | lenLow | lenHigh | crcLow | crcHigh =>
      have packet := started (by rw [status]; simp)
      simp only [analysisPacket, status, Except.ok.injEq, Prod.mk.injEq] at taken
      obtain ⟨rfl, _⟩ := taken
      exact packet
  | data =>
      have packet := started (by rw [status]; simp)
      simp only [analysisPacket, status, analysisData] at taken
      split at taken
      · split at taken
        · have parser := checkCrc_sameParser taken
          simp only [State.parser, Prod.mk.injEq] at parser
          exact (within parser.2.2.1).elim
        · obtain ⟨rfl, _⟩ := Prod.mk.inj (Except.ok.inj taken)
          exact packet
      · cases taken

theorem started_reached {ops : BlTestFuncOps} {fp : FramingPacket} {received : List UInt8}
    {s : State} {calls : List Call}
    (reached : run (analysisPacket ops) (.powerOn fp) received = .ok (s, calls))
    : s.Started := by
  have keeps (s : State) (data : UInt8) (t : State) (calls : List Call) (started : s.Started)
      (taken : analysisPacket ops s data = .ok (t, calls))
      : t.Started ∧ ∀ call ∈ calls, True :=
    ⟨started.step taken, fun _ _ => trivial⟩
  exact (run_invariant keeps (fun within => (within rfl).elim) reached).1

/-- A buffer that is sent is an ack, the ping response, or the response to an accepted
packet with the word that the packet asks for.
-/
theorem sent_cases {ops : BlTestFuncOps} {s t : State} {data : UInt8} {calls : List Call}
    (started : s.Started) (taken : analysisPacket ops s data = .ok (t, calls))
    {buf : List UInt8} (sent : buf ∈ sends calls)
    : buf = ackBytes
      ∨ buf = pingResponseBuffer
      ∨ ∃ kind tag value,
          s.Accepts data kind
          ∧ kind.report? ops (s.completed data).fp = some value
          ∧ buf
            = responseBuffer FramingPacketType.startByte FramingPacketType.command tag
                (wordBytes value) := by
  rcases analysisPacket_cases taken with ⟨kind, accepts, _, rfl⟩ | ⟨_, prints | rfl⟩
  · have packet : (s.completed data).fp.startByte = FramingPacketType.startByte :=
      started (by rw [accepts.status]; simp)
    rw [sends_dispatch] at sent
    cases kind with
    | command =>
        rcases analysisCommandTag_sends ops (s.completed data) accepts.type with
          ⟨_, silent⟩ | ⟨value, tag, known, replied⟩
        · rw [handle, silent] at sent
          cases sent
        · rw [handle, replied, packet] at sent
          rcases List.mem_pair.mp sent with ack | response
          · exact Or.inl ack
          · exact Or.inr (Or.inr ⟨.command, tag, value, accepts, known, response⟩)
    | data =>
        rcases recvData_sends ops (s.completed data) with replied | replied
        · rw [handle, replied] at sent
          exact Or.inl (List.mem_singleton.mp sent)
        · rw [handle, replied, packet] at sent
          rcases List.mem_pair.mp sent with ack | response
          · exact Or.inl ack
          · exact Or.inr (Or.inr ⟨.data, 0xA0, _, accepts, rfl, response⟩)
  · rw [sends_prints prints] at sent
    cases sent
  · exact Or.inr (Or.inl (List.mem_singleton.mp sent))

/-- In every run from power-on, a buffer of 18 bytes is a response that a fresh parser
accepts, with the word that the packet accepted at this byte asks for, and a buffer of ten
bytes is a ping response that ends in its check value.
-/
theorem responses_accepted (ops : BlTestFuncOps) (atLeast : 12 ≤ ops.packetSize.toNat)
    (room : ops.packetSize.toNat ≤ LENGTH) (fp : FramingPacket) (received : List UInt8)
    (s : State) (before : List Call)
    (reached : run (analysisPacket ops) (.powerOn fp) received = .ok (s, before))
    (data : UInt8) (t : State) (calls : List Call)
    (taken : analysisPacket ops s data = .ok (t, calls))
    : (∀ buf ∈ sends calls,
        buf.length = 18
        → ∃ kind value,
            s.Accepts data kind
            ∧ kind.report? ops (s.completed data).fp = some value
            ∧ IsResponse ops value buf)
      ∧ ∀ buf ∈ sends calls, buf.length = 10 → IsPingResponse buf := by
  have started := started_reached reached
  constructor
  · intro buf sent length
    rcases sent_cases started taken sent with rfl | rfl | response
    · cases length
    · cases length
    · obtain ⟨kind, tag, value, accepts, known, rfl⟩ := response
      exact ⟨kind, value, accepts, known,
        responseBuffer_isResponse tag value ops atLeast room⟩
  · intro buf sent length
    rcases sent_cases started taken sent with rfl | rfl | response
    · cases length
    · exact pingResponseBuffer_isPingResponse
    · obtain ⟨_, tag, value, _, _, rfl⟩ := response
      rw [responseBuffer_length] at length
      cases length

/-- The board of main.c at the last byte of a ResetMcu packet. -/
theorem responses_accepted_resetMcu
    : ∃ t calls,
        analysisPacket blTestFunc resetAwaited RESET_MCU = .ok (t, calls)
        ∧ (∀ buf ∈ sends calls,
          buf.length = 18
          → ∃ kind value,
              resetAwaited.Accepts RESET_MCU kind
              ∧ kind.report? blTestFunc (resetAwaited.completed RESET_MCU).fp = some value
              ∧ IsResponse blTestFunc value buf)
        ∧ ∀ buf ∈ sends calls, buf.length = 10 → IsPingResponse buf := by
  have reached :
      run (analysisPacket blTestFunc) (.powerOn .zero) [0x5A, 0xA4, 0x01, 0x00, 0x40, 0xF5]
        = .ok (resetAwaited, []) := by
    rw [run_cons_silent rfl, run_cons_silent rfl, run_cons_silent rfl, run_cons_silent rfl,
      run_cons_silent rfl, run_cons_silent rfl]
    rfl
  exact ⟨_, _, resetAwaited_accepts.taken,
    responses_accepted blTestFunc (by decide) (by decide) .zero _ resetAwaited [] reached
      RESET_MCU _ _ resetAwaited_accepts.taken⟩

end At32.Bootloader
