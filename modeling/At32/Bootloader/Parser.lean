import At32.Bootloader.Commands
import At32.Lib.Transducer

/-! The byte parser of the bootloader and its frame check. -/

namespace At32.Bootloader

open LittleEndian

/-- The four header bytes that go into the check, as the packet holds them. -/
def FramingPacket.header (fp : FramingPacket) : List UInt8 :=
  [fp.startByte, fp.packetType, fp.lenLow, fp.lenHigh]

def checkCrc (ops : BlTestFuncOps) (s : State) (len : UInt16)
    : Except Fault (State × List Call) :=
  if len.toNat ≤ LENGTH then
    let packetBuf := s.fp.header ++ s.fp.data.toList.take len.toNat
    let ret := crcUpdate packetBuf
    let crcValue :=
      ((0xff : UInt16) &&& s.fp.crcLow.toUInt16)
      ||| ((s.fp.crcHigh.toUInt16 <<< 8) &&& (0xff00 : UInt16))
    if ret = crcValue then
      match s.fp.packetType with
      | FramingPacketType.command =>
          let (next, calls) := analysisCommandTag ops s
          .ok (next, .analysisCommandTag s.fp :: calls)
      | FramingPacketType.data =>
          let (next, calls) := recvData ops s
          .ok (next, .recvData s.fp :: calls)
      | _ => .ok (s, [.printf "fp_t->packet_type = [%X]\r\n" s.fp.packetType.toUInt32])
    else
      .ok (s,
        [
          .printf "%d" len.toUInt32, .printf "%X" s.fp.crcLow.toUInt32,
          .printf "%X" s.fp.crcHigh.toUInt32, .printf "%X" crcValue.toUInt32,
          .printf "%X" ret.toUInt32
        ])
  else
    .error (.packetBuf len.toNat)

/-- The two packet types that the check dispatches. -/
inductive FrameKind
  | command
  | data
  deriving DecidableEq, Repr

def FrameKind.packetType : FrameKind → UInt8
  | .command => FramingPacketType.command
  | .data => FramingPacketType.data

/-- The handler that the check calls for a kind of frame. -/
def handle (ops : BlTestFuncOps) (s : State) : FrameKind → State × List Call
  | .command => analysisCommandTag ops s
  | .data => recvData ops s

theorem handle_sameParser (ops : BlTestFuncOps) (s : State) (kind : FrameKind)
    : (handle ops s kind).1.parser = s.parser := by
  cases kind
  · exact analysisCommandTag_sameParser ops s
  · exact recvData_sameParser ops s

theorem handle_fromHandler (ops : BlTestFuncOps) (s : State) (kind : FrameKind)
    : ∀ call ∈ (handle ops s kind).2, call.FromHandler := by
  cases kind
  · exact analysisCommandTag_fromHandler ops s
  · exact recvData_fromHandler ops s

def Call.dispatch : FrameKind → FramingPacket → Call
  | .command, fp => .analysisCommandTag fp
  | .data, fp => .recvData fp

def Call.isPrint : Call → Bool
  | .printf _ _ => true
  | _ => false

/-- The stored check bytes are the check value of the header and the first bytes of the
buffer.
-/
def State.CrcMatches (s : State) (len : UInt16) : Prop :=
  crcUpdate (s.fp.header ++ s.fp.data.toList.take len.toNat) = half s.fp.crcLow s.fp.crcHigh

instance (s : State) (len : UInt16) : Decidable (s.CrcMatches len) :=
  inferInstanceAs (Decidable (_ = _))

/-- The check value that check_crc assembles is the two check bytes. -/
theorem crcValue_eq (low high : UInt8)
    : ((0xff : UInt16) &&& low.toUInt16) ||| ((high.toUInt16 <<< 8) &&& (0xff00 : UInt16))
      = half low high := by
  rw [mask_low, mask_high, half]

/-- A packet of a dispatched type that matches its check goes to the handler. -/
theorem checkCrc_of_matches {ops : BlTestFuncOps} {s : State} {len : UInt16}
    {kind : FrameKind} (room : len.toNat ≤ LENGTH) (matched : s.CrcMatches len)
    (type : s.fp.packetType = kind.packetType)
    : checkCrc ops s len
      = .ok ((handle ops s kind).1, .dispatch kind s.fp :: (handle ops s kind).2) := by
  rw [State.CrcMatches] at matched
  simp only [checkCrc, room, if_true, crcValue_eq, matched]
  cases kind <;> rw [type] <;> rfl

/-- A packet that does not match its check changes nothing and is only printed. -/
theorem checkCrc_of_mismatch (ops : BlTestFuncOps) {s : State} {len : UInt16}
    (room : len.toNat ≤ LENGTH) (mismatch : ¬ s.CrcMatches len)
    : ∃ calls, checkCrc ops s len = .ok (s, calls) ∧ ∀ call ∈ calls, call.isPrint := by
  rw [State.CrcMatches] at mismatch
  simp only [checkCrc, room, if_true, crcValue_eq, mismatch, if_false]
  exact ⟨_, rfl, by simp [Call.isPrint]⟩

/-- What a completed check can do: dispatch a matching packet of one of the two types, or
print.
-/
theorem checkCrc_cases {ops : BlTestFuncOps} {s t : State} {len : UInt16}
    {calls : List Call} (checked : checkCrc ops s len = .ok (t, calls))
    : (∃ kind : FrameKind,
        s.CrcMatches len
        ∧ s.fp.packetType = kind.packetType
        ∧ t = (handle ops s kind).1
        ∧ calls = .dispatch kind s.fp :: (handle ops s kind).2)
      ∨ ((¬ s.CrcMatches len ∨ ∀ kind : FrameKind, s.fp.packetType ≠ kind.packetType)
        ∧ t = s
        ∧ ∀ call ∈ calls, call.isPrint) := by
  have room : len.toNat ≤ LENGTH := by
    by_contra outside
    simp [checkCrc, outside] at checked
  by_cases matched : s.CrcMatches len
  · by_cases dispatched : ∃ kind : FrameKind, s.fp.packetType = kind.packetType
    · obtain ⟨kind, type⟩ := dispatched
      rw [checkCrc_of_matches room matched type] at checked
      simp only [Except.ok.injEq, Prod.mk.injEq] at checked
      exact Or.inl ⟨kind, matched, type, checked.1.symm, checked.2.symm⟩
    · have other := not_exists.mp dispatched
      refine Or.inr ⟨Or.inr other, ?_⟩
      have command := other .command
      have data := other .data
      rw [State.CrcMatches] at matched
      simp only [checkCrc, room, if_true, crcValue_eq, matched] at checked
      split at checked
      · contradiction
      · contradiction
      · simp only [Except.ok.injEq, Prod.mk.injEq] at checked
        obtain ⟨rfl, rfl⟩ := checked
        simp [Call.isPrint]
  · obtain ⟨prints, outcome, printed⟩ := checkCrc_of_mismatch ops room matched
    rw [outcome] at checked
    simp only [Except.ok.injEq, Prod.mk.injEq] at checked
    obtain ⟨rfl, rfl⟩ := checked
    exact Or.inr ⟨Or.inl matched, rfl, printed⟩

/-- A check leaves the parser's variables as they are, whatever it calls. -/
theorem checkCrc_sameParser {ops : BlTestFuncOps} {s t : State} {len : UInt16}
    {calls : List Call} (checked : checkCrc ops s len = .ok (t, calls))
    : t.parser = s.parser := by
  rcases checkCrc_cases checked with ⟨kind, _, _, rfl, _⟩ | ⟨_, rfl, _⟩
  · exact handle_sameParser ops s kind
  · rfl

def State.setStatus (s : State) (status : Status) : State :=
  { s with blVariate.status := status }

/-- The byte after the start byte: nak and abort leave the parser waiting. -/
def analysisCmd (s : State) (data : UInt8) : State × List Call :=
  match data with
  | FramingPacketType.ack => (s.setStatus .start, [])
  | FramingPacketType.nak => (s, [])
  | FramingPacketType.ackAbort => (s, [])
  | FramingPacketType.command =>
      (({ s with fp.packetType := data } : State).setStatus .lenLow, [])
  | FramingPacketType.data =>
      (({ s with fp.packetType := data } : State).setStatus .lenLow, [])
  | FramingPacketType.ping =>
      (({ s with fp.packetType := data } : State).setStatus .start,
        .pingResponsePacket :: pingResponsePacket)
  | FramingPacketType.pingResponse =>
      -- no length byte comes: the length is that of an earlier packet
      (({ s with fp.packetType := data } : State).setStatus .data, [])
  | _ => (s.setStatus .start, [])

/-- The second length byte: a length above the packet size is given up. -/
def analysisLenHigh (ops : BlTestFuncOps) (s : State) (data : UInt8) : State :=
  let s : State := { s with fp.lenHigh := data }
  let length := ((0xff : UInt16) &&& s.fp.lenLow.toUInt16) ||| s.fp.lenHigh.toUInt16 <<< 8
  let status := if length.toUInt32 ≤ ops.packetSize then .crcLow else .start
  { s with blVariate.length := length, blVariate.status := status }

/-- A payload byte: the packet is checked when the count meets the declared length. -/
def analysisData (ops : BlTestFuncOps) (s : State) (data : UInt8)
    : Except Fault (State × List Call) :=
  let index := s.blVariate.count.toNat
  if index < LENGTH then
    -- the count is raised before it is compared, so a length of zero is never met
    let count := s.blVariate.count + 1
    let s : State := { s with fp.data := s.fp.data.setIfInBounds index data }
    if count = s.blVariate.length then
      checkCrc ops { s with blVariate.status := .start, blVariate.count := 0 }
        s.blVariate.length
    else
      .ok ({ s with blVariate.count := count }, [])
  else
    .error (.dataStore index)

/-- Inside the payload array the count does not wrap. -/
theorem State.count_next {s : State} (inside : s.blVariate.count.toNat < LENGTH)
    : (s.blVariate.count + 1).toNat = s.blVariate.count.toNat + 1 := by
  have capacity : LENGTH = 256 := rfl
  rw [UInt16.toNat_add, UInt16.toNat_one]
  omega

def analysisPacket (ops : BlTestFuncOps) (s : State) (data : UInt8)
    : Except Fault (State × List Call) :=
  match s.blVariate.status with
  | .start =>
      if FramingPacketType.startByte = data then
        .ok
          ({ s with
              fp.startByte := data, blVariate.appFlag := 1, blVariate.status := .cmd }, [])
      else
        .ok (s, [])
  | .cmd => .ok (analysisCmd s data)
  | .lenLow =>
      .ok (({ s with fp.lenLow := data } : State).setStatus .lenHigh, [])
  | .lenHigh => .ok (analysisLenHigh ops s data, [])
  | .crcLow =>
      .ok (({ s with fp.crcLow := data } : State).setStatus .crcHigh, [])
  | .crcHigh =>
      .ok (({ s with fp.crcHigh := data } : State).setStatus .data, [])
  | .data => analysisData ops s data

end At32.Bootloader
