import At32.Bootloader.Board
import At32.Bootloader.Parser
import At32.Lib.Buffer

/-! Host packets on the wire and what the parser makes of each of them.
A packet fed from the idle parser leaves it idle, so packets are understood one by one
whatever an earlier one left in the packet buffer.
-/

namespace At32.Bootloader

open LittleEndian Transducer

/-- A command or data frame that a host may send to a bootloader of this packet size,
with any check bytes.
-/
structure Frame (packetSize : UInt32) where
  kind : FrameKind
  payload : List UInt8
  crcLow : UInt8
  crcHigh : UInt8
  nonempty : 0 < payload.length
  fits : payload.length ≤ packetSize.toNat

variable {packetSize : UInt32}

namespace Frame

/-- The declared length. -/
def len (frame : Frame packetSize) : UInt16 := UInt16.ofNat frame.payload.length

theorem len_toNat (frame : Frame packetSize) (room : packetSize.toNat ≤ LENGTH)
    : frame.len.toNat = frame.payload.length := by
  have fits := frame.fits
  have capacity : LENGTH = 256 := rfl
  rw [len, UInt16.toNat_ofNat']
  exact Nat.mod_eq_of_lt (by omega)

def header (frame : Frame packetSize) : List UInt8 :=
  [FramingPacketType.startByte, frame.kind.packetType, lowByte frame.len, highByte frame.len]

def bytes (frame : Frame packetSize) : List UInt8 :=
  frame.header ++ [frame.crcLow, frame.crcHigh] ++ frame.payload

/-- The check bytes match the check value over the header and the payload. -/
def Valid (frame : Frame packetSize) : Prop :=
  crcUpdate (frame.header ++ frame.payload) = half frame.crcLow frame.crcHigh

instance (frame : Frame packetSize) : Decidable frame.Valid :=
  inferInstanceAs (Decidable (_ = _))

end Frame

inductive HostPacket (packetSize : UInt32)
  | ping
  | ack
  | frame (sent : Frame packetSize)

def HostPacket.bytes : HostPacket packetSize → List UInt8
  | .ping => [FramingPacketType.startByte, FramingPacketType.ping]
  | .ack => [FramingPacketType.startByte, FramingPacketType.ack]
  | .frame sent => sent.bytes

-----------------------------------------------------------------------------------------
-- How an idle parser takes a packet, byte by byte
-----------------------------------------------------------------------------------------

/-- The parser waits for a start byte with nothing counted. -/
def State.Idle (s : State) : Prop :=
  s.blVariate.status = .start ∧ s.blVariate.count = 0

theorem State.idle_of_sameParser {s t : State} (same : s.parser = t.parser) (idle : t.Idle)
    : s.Idle := by
  simp only [State.parser, Prod.mk.injEq] at same
  exact ⟨same.2.2.1.trans idle.1, same.1.trans idle.2⟩

/-- The state in which a frame is checked: its fields in the packet buffer, over whatever
the buffer held behind the payload.
-/
def State.received (s : State) (frame : Frame packetSize) : State :=
  { s with
    fp :=
      {
        startByte := FramingPacketType.startByte
        packetType := frame.kind.packetType
        lenLow := lowByte frame.len
        lenHigh := highByte frame.len
        crcLow := frame.crcLow
        crcHigh := frame.crcHigh
        data := Buffer.store s.fp.data 0 frame.payload
      }
    blVariate :=
      { s.blVariate with count := 0, length := frame.len, status := .start, appFlag := 1 } }

def State.started (s : State) : State :=
  { s with
    fp.startByte := FramingPacketType.startByte
    blVariate.appFlag := 1
    blVariate.status := .cmd }

/-- The start byte is accepted by the idle parser and marks the bootloader connected. -/
theorem run_startByte (ops : BlTestFuncOps) (s : State) (idle : s.Idle) (rest : List UInt8)
    : run (analysisPacket ops) s (FramingPacketType.startByte :: rest)
      = run (analysisPacket ops) s.started rest := by
  apply run_cons_silent
  simp [analysisPacket, idle.1, State.started]

/-- Payload bytes that fit the buffer and do not bring the count to the declared length are
stored from the count on, with no call; by induction on the bytes still to come.
-/
theorem run_stored (ops : BlTestFuncOps) (s : State) (front : List UInt8)
    (status : s.blVariate.status = .data)
    (inside : s.blVariate.count.toNat + front.length ≤ LENGTH)
    (unfinished
      : s.blVariate.length.toNat ≤ s.blVariate.count.toNat
        ∨ s.blVariate.count.toNat + front.length < s.blVariate.length.toNat)
    : run (analysisPacket ops) s front
      = .ok
          ({ s with
              fp.data := Buffer.store s.fp.data s.blVariate.count.toNat front
              blVariate.count := s.blVariate.count + UInt16.ofNat front.length }, []) := by
  induction front generalizing s with
  | nil => simp [Buffer.store]
  | cons byte rest ih =>
      simp only [List.length_cons] at inside unfinished
      have index : s.blVariate.count.toNat < LENGTH := by omega
      have next := State.count_next index
      have more : s.blVariate.count + 1 ≠ s.blVariate.length := by
        rw [Ne, ← UInt16.toNat_inj, next]
        omega
      have step : analysisPacket ops s byte
          = .ok
              ({ s with
                  fp.data := s.fp.data.setIfInBounds s.blVariate.count.toNat byte
                  blVariate.count := s.blVariate.count + 1 },
                []) := by
        simp [analysisPacket, status, analysisData, index, more]
      rw [run_cons_silent step, ih]
      · simp [next, Buffer.store, UInt16.add_assoc, UInt16.add_comm]
      · exact status
      · simp only [next]
        omega
      · simp only [next]
        omega

/-- Payload bytes fill the buffer from the count on, and the last one has the packet
checked.
-/
theorem run_payload (ops : BlTestFuncOps) (s : State) (rest : List UInt8)
    (nonempty : rest ≠ []) (status : s.blVariate.status = .data)
    (count : s.blVariate.count.toNat + rest.length = s.blVariate.length.toNat)
    (room : s.blVariate.length.toNat ≤ LENGTH)
    : run (analysisPacket ops) s rest
      = checkCrc ops
          { s with
            fp.data := Buffer.store s.fp.data s.blVariate.count.toNat rest
            blVariate.status := .start
            blVariate.count := 0 }
          s.blVariate.length := by
  obtain ⟨front, last, rfl⟩ := (List.eq_nil_or_concat' rest).resolve_left nonempty
  rw [List.length_append, List.length_singleton] at count
  have capacity : LENGTH = 256 := rfl
  have filled : (s.blVariate.count + UInt16.ofNat front.length).toNat
      = s.blVariate.count.toNat + front.length := by
    rw [UInt16.toNat_add, UInt16.toNat_ofNat']
    omega
  have index : s.blVariate.count.toNat + front.length < LENGTH := by omega
  have final : s.blVariate.count + UInt16.ofNat front.length + 1 = s.blVariate.length := by
    rw [← UInt16.toNat_inj, UInt16.toNat_add, filled, UInt16.toNat_one]
    omega
  rw [run_append_silent (run_stored ops s front status (by omega) (by omega)), run_singleton,
    Buffer.store_append]
  simp [analysisPacket, status, analysisData, filled, index, final, Buffer.store]

/-- The header and check bytes of a frame bring the idle parser to its payload. -/
theorem run_header (ops : BlTestFuncOps) (room : ops.packetSize.toNat ≤ LENGTH) (s : State)
    (idle : s.Idle) (frame : Frame ops.packetSize) (rest : List UInt8)
    : run (analysisPacket ops) s (frame.header ++ [frame.crcLow, frame.crcHigh] ++ rest)
      = run (analysisPacket ops)
          { s.received frame with
            fp.data := s.fp.data
            blVariate.status := .data }
          rest := by
  have count := idle.2
  have accepted : frame.len.toUInt32 ≤ ops.packetSize := by
    rw [UInt32.le_iff_toNat_le, UInt16.toNat_toUInt32, frame.len_toNat room]
    exact frame.fits
  have declared
      : (lowByte frame.len).toUInt16 ||| (highByte frame.len).toUInt16 <<< 8 = frame.len :=
    half_bytes frame.len
  simp only [Frame.header, List.cons_append, List.nil_append]
  rw [run_startByte ops s idle]
  cases kind : frame.kind
  all_goals
    simp only [FrameKind.packetType]
    rw [run_cons_silent rfl, run_cons_silent rfl, run_cons_silent rfl]
    simp only [State.setStatus, analysisLenHigh, mask_low, declared, accepted, if_true]
    rw [run_cons_silent rfl, run_cons_silent rfl]
    simp [State.received, State.started, State.setStatus, count, kind, FrameKind.packetType]

/-- A frame fed to the idle parser comes to one check of the packet it describes. -/
theorem run_frame (ops : BlTestFuncOps) (room : ops.packetSize.toNat ≤ LENGTH) (s : State)
    (idle : s.Idle) (frame : Frame ops.packetSize)
    : run (analysisPacket ops) s frame.bytes
      = checkCrc ops (s.received frame) frame.len := by
  have len := frame.len_toNat room
  have fits := frame.fits
  rw [Frame.bytes, run_header ops room s idle frame, run_payload ops _ frame.payload]
  · rfl
  · exact List.ne_nil_of_length_pos frame.nonempty
  · rfl
  · exact (Nat.zero_add _).trans len.symm
  · exact len.trans_le (fits.trans room)

/-- The packet of a received frame carries the frame's payload in front. -/
theorem received_payload (room : packetSize.toNat ≤ LENGTH) (s : State)
    (frame : Frame packetSize)
    : (s.received frame).fp.payload = frame.payload := by
  have len := frame.len_toNat room
  have fits := frame.fits
  rw [FramingPacket.payload, FramingPacket.length]
  simp only [State.received, half_bytes]
  rw [len]
  exact Buffer.take_store s.fp.data frame.payload (by omega)

theorem received_header (s : State) (frame : Frame packetSize)
    : (s.received frame).fp.header = frame.header := rfl

theorem received_matches_iff (room : packetSize.toNat ≤ LENGTH) (s : State)
    (frame : Frame packetSize)
    : (s.received frame).CrcMatches frame.len ↔ frame.Valid := by
  have payload := received_payload room s frame
  rw [FramingPacket.payload, FramingPacket.length] at payload
  simp only [State.received, half_bytes] at payload
  simp only [State.CrcMatches, received_header, Frame.Valid]
  simp only [State.received, payload]

/-- A valid frame is dispatched once to the handler of its kind. -/
theorem run_frame_valid (ops : BlTestFuncOps) (room : ops.packetSize.toNat ≤ LENGTH)
    (s : State) (idle : s.Idle) (frame : Frame ops.packetSize) (valid : frame.Valid)
    : run (analysisPacket ops) s frame.bytes
      = .ok
          ((handle ops (s.received frame) frame.kind).1,
            .dispatch frame.kind (s.received frame).fp
              :: (handle ops (s.received frame) frame.kind).2) := by
  rw [run_frame ops room s idle frame]
  apply checkCrc_of_matches
  · rw [frame.len_toNat room]
    exact frame.fits.trans room
  · exact (received_matches_iff room s frame).mpr valid
  · rfl

/-- A frame with other check bytes is dropped with a debug print. -/
theorem run_frame_invalid (ops : BlTestFuncOps) (room : ops.packetSize.toNat ≤ LENGTH)
    (s : State) (idle : s.Idle) (frame : Frame ops.packetSize) (invalid : ¬ frame.Valid)
    : ∃ calls, run (analysisPacket ops) s frame.bytes = .ok (s.received frame, calls)
        ∧ ∀ call ∈ calls, call.isPrint := by
  rw [run_frame ops room s idle frame]
  apply checkCrc_of_mismatch
  · rw [frame.len_toNat room]
    exact frame.fits.trans room
  · exact fun matched => invalid ((received_matches_iff room s frame).mp matched)

-----------------------------------------------------------------------------------------
-- What the answer to a packet shows of it
-----------------------------------------------------------------------------------------

/-- A dispatch as the handler sees it: the kind and the payload in the packet buffer. -/
def Call.dispatched? : Call → Option (FrameKind × List UInt8)
  | .analysisCommandTag fp => some (.command, fp.payload)
  | .recvData fp => some (.data, fp.payload)
  | _ => none

def Call.isPingResponse (call : Call) : Bool :=
  call = .blSendData 0 pingResponseBuffer

/-- What a packet should have dispatched. -/
def HostPacket.dispatched? : HostPacket packetSize → Option (FrameKind × List UInt8)
  | .frame sent => if sent.Valid then some (sent.kind, sent.payload) else none
  | _ => none

def HostPacket.isPing : HostPacket packetSize → Bool
  | .ping => true
  | _ => false

/-- The calls a packet leads to dispatch what it should and answer it if it is a ping. -/
def HostPacket.AnsweredBy (packet : HostPacket packetSize) (calls : List Call) : Prop :=
  calls.filterMap Call.dispatched? = packet.dispatched?.toList
  ∧ calls.countP Call.isPingResponse = if packet.isPing then 1 else 0

@[simp] theorem dispatched?_dispatch (kind : FrameKind) (fp : FramingPacket)
    : (Call.dispatch kind fp).dispatched? = some (kind, fp.payload) := by
  cases kind <;> rfl

@[simp] theorem isPingResponse_dispatch (kind : FrameKind) (fp : FramingPacket)
    : (Call.dispatch kind fp).isPingResponse = false := by
  cases kind <;> rfl

/-- A handler's calls dispatch nothing and answer no ping. -/
theorem Call.FromHandler.quiet {call : Call} (h : call.FromHandler)
    : call.dispatched? = none ∧ call.isPingResponse = false := by
  cases call with
  | blSendData port buf =>
      refine ⟨rfl, ?_⟩
      have length : buf ≠ pingResponseBuffer := by
        rintro rfl
        rcases h with two | eighteen
        · cases two
        · cases eighteen
      simp [Call.isPingResponse, length]
  | analysisCommandTag fp | recvData fp | pingResponsePacket => exact h.elim
  | resetMcu | blDelayms _ | blWriteMemory _ _ _ | blFlashEraseRegion _ | printf _ _ =>
      exact ⟨rfl, rfl⟩

/-- Debug prints dispatch nothing and answer no ping either. -/
theorem Call.quiet_of_isPrint {call : Call} (h : call.isPrint)
    : call.dispatched? = none ∧ call.isPingResponse = false := by
  cases call <;> first | exact ⟨rfl, rfl⟩ | cases h

/-- Quiet calls show no dispatch and no ping response. -/
theorem quiet_calls {calls : List Call}
    (quiet : ∀ call ∈ calls, call.dispatched? = none ∧ call.isPingResponse = false)
    : calls.filterMap Call.dispatched? = [] ∧ calls.countP Call.isPingResponse = 0 := by
  constructor
  · exact List.filterMap_eq_nil_iff.mpr (fun call member => (quiet call member).1)
  · apply List.countP_eq_zero.mpr
    intro call member
    simp [(quiet call member).2]

theorem run_ping (ops : BlTestFuncOps) (s : State) (idle : s.Idle)
    : run (analysisPacket ops) s [FramingPacketType.startByte, FramingPacketType.ping]
      = .ok
          ({ s with
              fp.startByte := FramingPacketType.startByte
              fp.packetType := FramingPacketType.ping
              blVariate.appFlag := 1
              blVariate.status := .start },
            .pingResponsePacket :: pingResponsePacket) := by
  rw [run_startByte ops s idle, run_singleton]
  rfl

theorem run_ack (ops : BlTestFuncOps) (s : State) (idle : s.Idle)
    : run (analysisPacket ops) s [FramingPacketType.startByte, FramingPacketType.ack]
      = .ok
          ({ s with
              fp.startByte := FramingPacketType.startByte
              blVariate.appFlag := 1
              blVariate.status := .start }, []) := by
  rw [run_startByte ops s idle, run_singleton]
  rfl

/-- One packet from the idle parser: it is answered and the parser is idle again, by cases
on the packet and on the validity of a frame.
-/
theorem run_packet (ops : BlTestFuncOps) (room : ops.packetSize.toNat ≤ LENGTH) (s : State)
    (packet : HostPacket ops.packetSize) (idle : s.Idle)
    : ∃ t calls,
        run (analysisPacket ops) s packet.bytes = .ok (t, calls)
        ∧ t.Idle
        ∧ packet.AnsweredBy calls := by
  cases packet with
  | ping =>
      refine ⟨_, _, run_ping ops s idle, ⟨rfl, idle.2⟩, ?_⟩
      simp [HostPacket.AnsweredBy, HostPacket.dispatched?, HostPacket.isPing,
        pingResponsePacket, Call.dispatched?, Call.isPingResponse]
  | ack =>
      refine ⟨_, _, run_ack ops s idle, ⟨rfl, idle.2⟩, ?_⟩
      simp [HostPacket.AnsweredBy, HostPacket.dispatched?, HostPacket.isPing]
  | frame sent =>
      by_cases valid : sent.Valid
      · refine ⟨_, _, run_frame_valid ops room s idle sent valid, ?_, ?_⟩
        · exact State.idle_of_sameParser (handle_sameParser ops _ sent.kind) ⟨rfl, rfl⟩
        · have quiet := quiet_calls fun call member =>
            (handle_fromHandler ops (s.received sent) sent.kind call member).quiet
          simp [HostPacket.AnsweredBy, HostPacket.dispatched?, HostPacket.isPing, valid,
            received_payload room, quiet]
      · obtain ⟨calls, fed, prints⟩ := run_frame_invalid ops room s idle sent valid
        have quiet := quiet_calls fun call member => call.quiet_of_isPrint (prints call member)
        refine ⟨_, calls, fed, ⟨rfl, rfl⟩, ?_⟩
        simp [HostPacket.AnsweredBy, HostPacket.dispatched?, HostPacket.isPing, valid, quiet]

/-- Packets answered one by one are answered in order in the whole run. -/
theorem answers_flatten {packets : List (HostPacket packetSize)} {answers : List (List Call)}
    (answered : List.Forall₂ HostPacket.AnsweredBy packets answers)
    : answers.flatten.filterMap Call.dispatched? = packets.filterMap HostPacket.dispatched?
      ∧ answers.flatten.countP Call.isPingResponse = packets.countP HostPacket.isPing := by
  induction answered with
  | nil => exact ⟨rfl, rfl⟩
  | @cons packet calls packets answers first _ ih =>
      obtain ⟨dispatched, pings⟩ := first
      constructor
      · rw [List.flatten_cons, List.filterMap_append, dispatched, ih.1]
        cases same : packet.dispatched? with
        | none => simp [same]
        | some frame => simp [same]
      · rw [List.flatten_cons, List.countP_append, pings, ih.2, List.countP_cons]
        omega

/-- Any list of host packets is dispatched frame by frame: exactly the valid ones, in
order and with their payloads, with one response for each ping and the parser idle at the
end. Witness: one packet from the idle parser, then the rule for blocks.
-/
theorem packets_dispatched (ops : BlTestFuncOps) (room : ops.packetSize.toNat ≤ LENGTH)
    (fp : FramingPacket) (packets : List (HostPacket ops.packetSize))
    : ∃ s calls,
        run (analysisPacket ops) (.powerOn fp) (packets.flatMap HostPacket.bytes)
          = .ok (s, calls)
        ∧ calls.filterMap Call.dispatched? = packets.filterMap HostPacket.dispatched?
        ∧ calls.countP Call.isPingResponse = packets.countP HostPacket.isPing
        ∧ s.blVariate.status = .start
        ∧ s.blVariate.count = 0 := by
  obtain ⟨s, answers, fed, idle, answered⟩ :=
    trace_blocks (fun state packet idle => run_packet ops room state packet idle)
      (⟨rfl, rfl⟩ : (State.powerOn fp).Idle) packets
  obtain ⟨dispatched, pings⟩ := answers_flatten answered
  refine ⟨s, answers.flatten, ?_, dispatched, pings, idle⟩
  rw [List.flatMap_def]
  exact run_flatten fed

/-- A data packet of two bytes, with any check bytes. -/
def pairFrame (crcLow crcHigh : UInt8) : Frame blTestFunc.packetSize :=
  {
    kind := .data
    payload := [0x12, 0x34]
    crcLow
    crcHigh
    nonempty := by decide
    fits := by decide
  }

/-- The board of main.c, fed a ping, a damaged packet and the packet again. -/
theorem packets_dispatched_again
    : ∃ s calls,
        run (analysisPacket blTestFunc) (.powerOn .zero)
            ([.ping, .frame (pairFrame 0x0B 0x00), .frame (pairFrame 0x0B 0x01)].flatMap
              HostPacket.bytes)
          = .ok (s, calls)
        ∧ calls.filterMap Call.dispatched? = [(.data, [0x12, 0x34])]
        ∧ calls.countP Call.isPingResponse = 1
        ∧ s.blVariate.status = .start
        ∧ s.blVariate.count = 0 := by
  obtain ⟨s, calls, ran, dispatched, pings, idle⟩ :=
    packets_dispatched blTestFunc (by decide) .zero
      [.ping, .frame (pairFrame 0x0B 0x00), .frame (pairFrame 0x0B 0x01)]
  refine ⟨s, calls, ran, dispatched.trans ?_, pings, idle⟩
  decide +kernel

end At32.Bootloader
