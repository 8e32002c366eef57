import At32.Imu.PacketDecode

/-! Every valid frame is handed over at its last byte, whatever noise without the second
header byte comes between the frames.
-/

namespace At32.Imu

open LittleEndian Transducer

/-- A frame that fits the receive buffer, with any check bytes. -/
structure Frame where
  payload : List UInt8
  crcLow : UInt8
  crcHigh : UInt8
  nonempty : 0 < payload.length
  fits : payload.length < MAX_PACKET_LEN

namespace Frame

def len (frame : Frame) : UInt16 := UInt16.ofNat frame.payload.length

theorem len_toNat (frame : Frame) : frame.len.toNat = frame.payload.length := by
  have fits := frame.fits
  have capacity : MAX_PACKET_LEN = 2048 := rfl
  rw [len, UInt16.toNat_ofNat']
  exact Nat.mod_eq_of_lt (by omega)

def header (frame : Frame) : List UInt8 := [0x5A, 0xA5, lowByte frame.len, highByte frame.len]

def bytes (frame : Frame) : List UInt8 :=
  frame.header ++ [frame.crcLow, frame.crcHigh] ++ frame.payload

/-- The check bytes match the check value over the header and the payload. -/
def Valid (frame : Frame) : Prop :=
  crc16Update 0 (frame.header ++ frame.payload) = half frame.crcLow frame.crcHigh

instance (frame : Frame) : Decidable frame.Valid := inferInstanceAs (Decidable (_ = _))

/-- What is to be handed over at each byte: the length and the payload of a valid frame at
its last byte, and nothing before.
-/
def expected (frame : Frame) : List (List (UInt16 × List UInt8)) :=
  List.replicate (frame.payload.length + 5) []
  ++ [if frame.Valid then [(frame.len, frame.payload)] else []]

end Frame

/-- A frame behind noise without the second header byte. -/
structure Burst where
  noise : List UInt8
  quiet : 0xA5 ∉ noise
  frame : Frame

def Burst.bytes (burst : Burst) : List UInt8 := burst.noise ++ burst.frame.bytes

def Burst.expected (burst : Burst) : List (List (UInt16 × List UInt8)) :=
  List.replicate burst.noise.length [] ++ burst.frame.expected

/-- The length and the payload of a packet handed over. -/
def Packet.delivered (pkt : Packet) : UInt16 × List UInt8 := (pkt.payloadLen, pkt.payload)

-----------------------------------------------------------------------------------------
-- How a waiting decoder takes noise and a frame
-----------------------------------------------------------------------------------------

/-- The decoder has no header yet, or the start byte of one. -/
def Decoder.Waiting (s : Decoder) : Prop := s.status = .idle ∨ s.status = .cmd

/-- Noise keeps the decoder waiting and hands nothing over, by induction on its bytes. -/
theorem trace_noise (s : Decoder) (waiting : s.Waiting) (noise : List UInt8)
    (quiet : 0xA5 ∉ noise)
    : ∃ t, trace decodeStep s noise = .ok (t, List.replicate noise.length []) ∧ t.Waiting := by
  induction noise generalizing s with
  | nil => exact ⟨s, rfl, waiting⟩
  | cons byte rest ih =>
      obtain ⟨other, quiet⟩ := not_or.mp (mt List.mem_cons.mpr quiet)
      obtain ⟨next, stepped, waiting⟩ : ∃ t, decodeStep s byte = .ok (t, []) ∧ t.Waiting := by
        rcases waiting with idle | cmd
        · refine ⟨if byte = 0x5A then { s with status := .cmd } else s, ?_, ?_⟩
          · simp only [decodeStep, packetDecode, idle]
            rfl
          · split
            · exact Or.inr rfl
            · exact Or.inl idle
        · refine ⟨{ s with rxPkt.type := byte }, ?_, Or.inr cmd⟩
          simp only [decodeStep, packetDecode, cmd, if_neg (Ne.symm other)]
          rfl
      obtain ⟨t, fed, waiting⟩ := ih next waiting quiet
      exact ⟨t, trace_cons_iff.mpr ⟨next, [], _, stepped, fed, rfl⟩, waiting⟩

/-- The decoder at the payload of a frame. -/
def Decoder.opened (s : Decoder) (frame : Frame) : Decoder :=
  { s with
    rxPkt := { s.rxPkt with ofs := 0, payloadLen := frame.len, type := 0xA5 }
    crcReceived := half frame.crcLow frame.crcHigh
    crcCalculated := 0
    status := .data
    headerLow := lowByte frame.len
    headerHigh := highByte frame.len }

/-- The header and the check bytes bring a waiting decoder to the payload, also when noise
has left it behind a start byte.
-/
theorem trace_header (s : Decoder) (waiting : s.Waiting) (frame : Frame)
    : trace decodeStep s (frame.header ++ [frame.crcLow, frame.crcHigh])
      = .ok (s.opened frame, List.replicate 6 []) := by
  have declared
      : (lowByte frame.len).toUInt16 ||| (highByte frame.len).toUInt16 <<< 8 = frame.len :=
    half_bytes frame.len
  rcases waiting with idle | cmd
  · simp [Frame.header, trace, decodeStep, packetDecode, idle, declared, Decoder.opened, half]
  · simp [Frame.header, trace, decodeStep, packetDecode, cmd, declared, Decoder.opened, half]

/-- The decoder with a payload byte stored. -/
def Decoder.stored (s : Decoder) (c : UInt8) : Decoder :=
  { s with
    rxPkt.buf := s.rxPkt.buf.setIfInBounds s.rxPkt.ofs.toNat c
    rxPkt.ofs := s.rxPkt.ofs + 1 }

/-- Short of the end of the buffer, a payload byte is stored, and completes the packet when
the declared length is reached.
-/
theorem packetData_stored (s : Decoder) (c : UInt8) (type : s.rxPkt.type = 0xA5)
    (room : s.rxPkt.ofs.toNat + 1 < MAX_PACKET_LEN)
    : packetData s c
      = if s.rxPkt.payloadLen.toNat ≤ s.rxPkt.ofs.toNat + 1 then
          .ok ((packetComplete (s.stored c)).1, CH_OK, (packetComplete (s.stored c)).2)
        else
          .ok (s.stored c, CH_OK, none) := by
  have capacity : MAX_PACKET_LEN = 2048 := rfl
  have inside : s.rxPkt.ofs.toNat < MAX_PACKET_LEN := by omega
  have next := s.rxPkt.ofs_next inside
  have below : ¬ UInt32.ofNat MAX_PACKET_LEN ≤ s.rxPkt.ofs + 1 := by
    rw [UInt32.le_iff_toNat_le, next]
    exact Nat.not_le_of_lt room
  have reached : s.rxPkt.payloadLen.toUInt32 ≤ s.rxPkt.ofs + 1
      ↔ s.rxPkt.payloadLen.toNat ≤ s.rxPkt.ofs.toNat + 1 := by
    rw [UInt32.le_iff_toNat_le, next, UInt16.toNat_toUInt32]
  simp only [packetData, inside, if_true, below, if_false, reached, type, and_true,
    Decoder.stored]

/-- The decoder with payload bytes stored and the declared length reached. -/
def Decoder.filled (s : Decoder) (payload : List UInt8) : Decoder :=
  { s with
    rxPkt.buf := Buffer.store s.rxPkt.buf s.rxPkt.ofs.toNat payload
    rxPkt.ofs := s.rxPkt.payloadLen.toUInt32 }

/-- Payload bytes fill the buffer, and the last one completes the packet; by induction on
the bytes still to come.
-/
theorem trace_payload (s : Decoder) (rest : List UInt8) (nonempty : rest ≠ [])
    (status : s.status = .data) (type : s.rxPkt.type = 0xA5)
    (count : s.rxPkt.ofs.toNat + rest.length = s.rxPkt.payloadLen.toNat)
    (room : s.rxPkt.payloadLen.toNat < MAX_PACKET_LEN)
    : trace decodeStep s rest
      = .ok
          ((packetComplete (s.filled rest)).1,
            List.replicate (rest.length - 1) []
            ++ [(packetComplete (s.filled rest)).2.toList]) := by
  induction rest generalizing s with
  | nil => exact (nonempty rfl).elim
  | cons byte rest ih =>
      simp only [List.length_cons] at count
      have capacity : MAX_PACKET_LEN = 2048 := rfl
      have stored := packetData_stored s byte type (by omega)
      have next := s.rxPkt.ofs_next (by omega)
      cases rest with
      | nil =>
          have last : s.rxPkt.ofs.toNat + 1 = s.rxPkt.payloadLen.toNat := count
          have same : s.stored byte = s.filled [byte] := by
            have ofs : s.rxPkt.ofs + 1 = s.rxPkt.payloadLen.toUInt32 := by
              rw [← UInt32.toNat_inj, next, last, UInt16.toNat_toUInt32]
            simp only [Decoder.stored, Decoder.filled, Buffer.store, ofs]
          rw [if_pos (Nat.le_of_eq last.symm), same] at stored
          apply trace_singleton
          simp only [decodeStep, packetDecode, status, stored]
      | cons second rest =>
          simp only [List.length_cons] at count
          rw [if_neg (by omega)] at stored
          have taken : decodeStep s byte = .ok (s.stored byte, []) := by
            simp only [decodeStep, packetDecode, status, stored]
            rfl
          have same
              : (s.stored byte).filled (second :: rest) = s.filled (byte :: second :: rest) := by
            simp only [Decoder.stored, Decoder.filled, Buffer.store, next]
          have fed := ih (s.stored byte) (by simp) status type
            (by
              simp only [Decoder.stored, next, List.length_cons]
              omega)
            room
          rw [same] at fed
          exact trace_cons_iff.mpr ⟨_, _, _, taken, fed, rfl⟩

/-- The check over the header and the payload, which the code makes in two passes. -/
theorem packetComplete_event (s : Decoder) (fresh : s.crcCalculated = 0)
    : (packetComplete s).2
      = if crc16Update 0 (s.crcHeader ++ s.rxPkt.buf.toList.take s.rxPkt.ofs.toNat)
            = s.crcReceived then
          some s.rxPkt
        else
          none := by
  have twice
      : crc16Update (crc16Update s.crcCalculated s.crcHeader)
          (s.rxPkt.buf.toList.take s.rxPkt.ofs.toNat)
        = crc16Update 0 (s.crcHeader ++ s.rxPkt.buf.toList.take s.rxPkt.ofs.toNat) := by
    rw [fresh]
    exact Crc.feed_truncated _ _ _ _
  simp only [packetComplete, twice]

theorem filled_payload (s : Decoder) (frame : Frame)
    : ((s.opened frame).filled frame.payload).rxPkt.payload = frame.payload := by
  have stored : (Buffer.store s.rxPkt.buf 0 frame.payload).toList.take frame.payload.length
      = frame.payload := Buffer.take_store s.rxPkt.buf frame.payload (Nat.le_of_lt frame.fits)
  rwa [← frame.len_toNat] at stored

/-- The completed packet of a frame is handed over if the frame is valid. -/
theorem filled_event (s : Decoder) (frame : Frame)
    : (packetComplete ((s.opened frame).filled frame.payload)).2
      = if frame.Valid then some ((s.opened frame).filled frame.payload).rxPkt else none := by
  have event := packetComplete_event ((s.opened frame).filled frame.payload) rfl
  have received : ((s.opened frame).filled frame.payload).rxPkt.buf.toList.take
        ((s.opened frame).filled frame.payload).rxPkt.ofs.toNat
      = frame.payload := by
    have stored := filled_payload s frame
    rw [Packet.payload] at stored
    simpa only [Decoder.filled, Decoder.opened, UInt16.toNat_toUInt32] using stored
  rw [received] at event
  exact event

/-- A frame brings a waiting decoder to the check, with its payload in the buffer. -/
theorem trace_checked (s : Decoder) (waiting : s.Waiting) (frame : Frame)
    : trace decodeStep s frame.bytes
      = .ok
          ((packetComplete ((s.opened frame).filled frame.payload)).1,
            List.replicate 6 []
            ++ (List.replicate (frame.payload.length - 1) []
              ++ [(packetComplete ((s.opened frame).filled frame.payload)).2.toList])) := by
  have len := frame.len_toNat
  have payload := trace_payload (s.opened frame) frame.payload
    (List.ne_nil_of_length_pos frame.nonempty) rfl rfl ((Nat.zero_add _).trans len.symm)
    (Nat.lt_of_le_of_lt (Nat.le_of_eq len) frame.fits)
  exact trace_append (trace_header s waiting frame) payload

/-- A frame fed to a waiting decoder is handed over at its last byte if it is valid. -/
theorem trace_frame (s : Decoder) (waiting : s.Waiting) (frame : Frame)
    : ∃ t outputs,
        trace decodeStep s frame.bytes = .ok (t, outputs)
        ∧ t.Waiting
        ∧ outputs.map (List.map Packet.delivered) = frame.expected := by
  have nonempty := frame.nonempty
  refine ⟨_, _, trace_checked s waiting frame, Or.inl rfl, ?_⟩
  have delivered : (packetComplete ((s.opened frame).filled frame.payload)).2.toList.map
        Packet.delivered
      = if frame.Valid then [(frame.len, frame.payload)] else [] := by
    rw [filled_event]
    split
    · exact congrArg (fun payload => [(frame.len, payload)]) (filled_payload s frame)
    · rfl
  rw [Frame.expected, List.map_append, List.map_append, List.map_singleton, delivered,
    List.map_replicate, List.map_replicate, ← List.append_assoc,
    List.replicate_append_replicate]
  congr 2
  omega

/-- A valid frame hands one packet over and leaves the decoder idle. -/
theorem run_frame (s : Decoder) (waiting : s.Waiting) (frame : Frame) (valid : frame.Valid)
    : ∃ t pkt,
        run decodeStep s frame.bytes = .ok (t, [pkt])
        ∧ t.status = .idle
        ∧ pkt.type = 0xA5
        ∧ pkt.delivered = (frame.len, frame.payload) := by
  have payload := filled_payload s frame
  refine ⟨_, ((s.opened frame).filled frame.payload).rxPkt,
    run_iff.mpr ⟨_, trace_checked s waiting frame, ?_⟩, rfl, rfl, ?_⟩
  · rw [filled_event, if_pos valid]
    simp
  · exact congrArg (Prod.mk frame.len) payload

/-- Bursts fed to an idle decoder: each frame is handed over at its last byte exactly if it
is valid, with its length and payload, and nothing else is; by induction on the bursts,
between which the decoder is waiting.
-/
theorem bursts_delivered (s : Decoder) (idle : s.status = .idle) (bursts : List Burst)
    : ∃ t outputs,
        trace decodeStep s (bursts.flatMap Burst.bytes) = .ok (t, outputs)
        ∧ outputs.map (List.map Packet.delivered) = bursts.flatMap Burst.expected := by
  have waiting : s.Waiting := Or.inl idle
  clear idle
  induction bursts generalizing s with
  | nil => exact ⟨s, [], rfl, rfl⟩
  | cons burst rest ih =>
      obtain ⟨t, noise, waiting⟩ := trace_noise s waiting burst.noise burst.quiet
      obtain ⟨u, outputs, frame, waiting, delivered⟩ := trace_frame t waiting burst.frame
      obtain ⟨v, later, fed, matched⟩ := ih u waiting
      refine ⟨v, _, trace_append (trace_append noise frame) fed, ?_⟩
      rw [List.flatMap_cons, List.map_append, List.map_append, delivered, matched,
        List.map_replicate]
      rfl

/-- A valid frame of one byte behind a lone start byte. -/
def loneStart : Burst :=
  {
    noise := [0x5A]
    quiet := by decide
    frame :=
      {
        payload := [0x11]
        crcLow := 0x8F
        crcHigh := 0x30
        nonempty := by decide
        fits := by decide
      }
  }

/-- From power-on that frame is handed over at the eighth byte. -/
theorem bursts_delivered_loneStart
    : ∃ t outputs,
        trace decodeStep .init ([loneStart].flatMap Burst.bytes) = .ok (t, outputs)
        ∧ outputs.map (List.map Packet.delivered) = [loneStart].flatMap Burst.expected :=
  bursts_delivered .init rfl [loneStart]

end At32.Imu
