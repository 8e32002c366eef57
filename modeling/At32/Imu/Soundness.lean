import At32.Imu.Completeness

/-! What a packet handed over says about the bytes received, and when those bytes end with
a frame.
-/

namespace At32.Imu

open LittleEndian Transducer

/-- The bytes end with a frame of this payload length whose check bytes match. -/
def EndsWithFrame (received : List UInt8) (length : Nat) : Prop :=
  ∃ lenLow lenHigh crcLow crcHigh payload,
    payload.length = length
    ∧ (half lenLow lenHigh).toNat = length
    ∧ crc16Update 0 ([0x5A, 0xA5, lenLow, lenHigh] ++ payload) = half crcLow crcHigh
    ∧ [0x5A, 0xA5, lenLow, lenHigh, crcLow, crcHigh] ++ payload <:+ received

/-- The payload bytes received so far are in the buffer, behind check bytes and a length
that are kept, and the declared length is not reached.
-/
structure Decoder.Receiving (s : Decoder) (crcLow crcHigh : UInt8) (data : List UInt8)
    : Prop where
  status : s.status = .data
  type : s.rxPkt.type = 0xA5
  declared : s.rxPkt.payloadLen = half s.headerLow s.headerHigh
  check : s.crcReceived = half crcLow crcHigh
  fresh : s.crcCalculated = 0
  count : data.length = s.rxPkt.ofs.toNat
  stored : s.rxPkt.buf.toList.take s.rxPkt.ofs.toNat = data
  room : s.rxPkt.ofs.toNat < MAX_PACKET_LEN
  unfinished : s.rxPkt.ofs.toNat < s.rxPkt.payloadLen.toNat ∨ s.rxPkt.ofs.toNat = 0

/-- The bytes from the second header byte on, as the decoder has kept them. -/
inductive Decoder.Follows (s : Decoder) : List UInt8 → Prop
  | waiting (waiting : s.Waiting) : s.Follows []
  | lenLow (status : s.status = .lenLow) (type : s.rxPkt.type = 0xA5) : s.Follows [0xA5]
  | lenHigh (status : s.status = .lenHigh) (type : s.rxPkt.type = 0xA5)
    (declared : s.rxPkt.payloadLen = s.headerLow.toUInt16)
    : s.Follows [0xA5, s.headerLow]
  | crcLow (status : s.status = .crcLow) (type : s.rxPkt.type = 0xA5)
    (declared : s.rxPkt.payloadLen = half s.headerLow s.headerHigh)
    : s.Follows [0xA5, s.headerLow, s.headerHigh]
  | crcHigh (low : UInt8) (status : s.status = .crcHigh) (type : s.rxPkt.type = 0xA5)
    (declared : s.rxPkt.payloadLen = half s.headerLow s.headerHigh)
    (check : s.crcReceived = low.toUInt16)
    : s.Follows [0xA5, s.headerLow, s.headerHigh, low]
  | data (low high : UInt8) (data : List UInt8) (receiving : s.Receiving low high data)
    : s.Follows ([0xA5, s.headerLow, s.headerHigh, low, high] ++ data)

/-- The bytes received end with what the decoder has kept of them. -/
def Decoder.Remembers (received : List UInt8) (s : Decoder) : Prop :=
  ∃ tail, tail <:+ received ∧ s.Follows tail

-----------------------------------------------------------------------------------------
-- One byte keeps what the decoder remembers
-----------------------------------------------------------------------------------------

/-- The byte that fills the buffer is stored, and the packet is given up. -/
theorem packetData_full (s : Decoder) (c : UInt8) (room : s.rxPkt.ofs.toNat + 1 = MAX_PACKET_LEN)
    : packetData s c = .ok ({ s.stored c with status := .idle }, CH_ERR, none) := by
  have capacity : MAX_PACKET_LEN = 2048 := rfl
  have inside : s.rxPkt.ofs.toNat < MAX_PACKET_LEN := by omega
  have next := s.rxPkt.ofs_next inside
  have reached : UInt32.ofNat MAX_PACKET_LEN ≤ s.rxPkt.ofs + 1 := by
    rw [UInt32.le_iff_toNat_le, next, room]
    exact Nat.le_refl _
  simp only [packetData, inside, if_true, reached, Decoder.stored]

/-- The place behind one more payload byte, and the bytes before it. -/
theorem Decoder.Receiving.stored_next {s : Decoder} {low high : UInt8} {data : List UInt8}
    (receiving : s.Receiving low high data) (c : UInt8)
    : (s.stored c).rxPkt.ofs.toNat = s.rxPkt.ofs.toNat + 1
      ∧ (s.stored c).rxPkt.buf.toList.take (s.rxPkt.ofs.toNat + 1) = data ++ [c] := by
  refine ⟨s.rxPkt.ofs_next receiving.room, ?_⟩
  rw [← receiving.stored]
  exact Buffer.take_store_at s.rxPkt.buf s.rxPkt.ofs.toNat [c] receiving.room

/-- A payload byte either ends the packet, handed over only if the check matches, or is one
more byte received; by whether it fills the buffer or reaches the declared length.
-/
theorem Decoder.Receiving.step {s : Decoder} {low high : UInt8} {data : List UInt8}
    (receiving : s.Receiving low high data) {c : UInt8} {t : Decoder} {packets : List Packet}
    (taken : decodeStep s c = .ok (t, packets))
    : (t.status = .idle
        ∧ ∀ pkt ∈ packets,
            pkt.payloadLen = s.rxPkt.payloadLen
            ∧ s.rxPkt.payloadLen.toNat ≤ s.rxPkt.ofs.toNat + 1
            ∧ crc16Update 0 (s.crcHeader ++ (data ++ [c])) = half low high)
      ∨ (t.Receiving low high (data ++ [c])
        ∧ t.headerLow = s.headerLow
        ∧ t.headerHigh = s.headerHigh
        ∧ packets = []) := by
  have capacity : MAX_PACKET_LEN = 2048 := rfl
  have room := receiving.room
  obtain ⟨next, extended⟩ := receiving.stored_next c
  simp only [decodeStep, packetDecode, receiving.status] at taken
  by_cases full : s.rxPkt.ofs.toNat + 1 = MAX_PACKET_LEN
  · rw [packetData_full s c full] at taken
    obtain ⟨rfl, rfl⟩ := Prod.mk.inj (Except.ok.inj taken)
    exact Or.inl ⟨rfl, fun pkt member => (List.not_mem_nil member).elim⟩
  · rw [packetData_stored s c receiving.type (by omega)] at taken
    by_cases reached : s.rxPkt.payloadLen.toNat ≤ s.rxPkt.ofs.toNat + 1
    · rw [if_pos reached] at taken
      obtain ⟨rfl, rfl⟩ := Prod.mk.inj (Except.ok.inj taken)
      refine Or.inl ⟨rfl, fun pkt member => ?_⟩
      have event := packetComplete_event (s.stored c) receiving.fresh
      rw [next, extended] at event
      rw [event] at member
      split at member
      · rename_i matched
        obtain rfl := List.mem_singleton.mp member
        exact ⟨rfl, reached, matched.trans receiving.check⟩
      · cases member
    · rw [if_neg reached] at taken
      obtain ⟨rfl, rfl⟩ := Prod.mk.inj (Except.ok.inj taken)
      refine Or.inr ⟨?_, rfl, rfl, rfl⟩
      exact {
        status := receiving.status
        type := receiving.type
        declared := receiving.declared
        check := receiving.check
        fresh := receiving.fresh
        count := by
          rw [List.length_append, receiving.count]
          exact next.symm
        stored := by rw [next, extended]
        room := by
          rw [next]
          omega
        unfinished := by
          rw [next]
          exact Or.inl (Nat.lt_of_not_le reached)
      }

/-- One more byte is remembered, by cases on what the decoder has kept. -/
theorem Decoder.Remembers.step {received : List UInt8} {s t : Decoder} {c : UInt8}
    {packets : List Packet} (remembers : Decoder.Remembers received s)
    (taken : decodeStep s c = .ok (t, packets))
    : Decoder.Remembers (received ++ [c]) t := by
  obtain ⟨tail, ⟨front, rfl⟩, follows⟩ := remembers
  have longer (more : List UInt8) (kept : t.Follows (tail ++ more)) (last : more = [c])
      : Decoder.Remembers (front ++ tail ++ [c]) t := by
    subst last
    exact ⟨tail ++ [c], ⟨front, (List.append_assoc _ _ _).symm⟩, kept⟩
  have forgotten (waiting : t.Waiting) : Decoder.Remembers (front ++ tail ++ [c]) t :=
    ⟨[], List.nil_suffix, .waiting waiting⟩
  cases follows with
  | waiting waiting =>
      rcases waiting with idle | cmd
      · simp only [decodeStep, packetDecode, idle] at taken
        obtain ⟨rfl, _⟩ := Prod.mk.inj (Except.ok.inj taken)
        apply forgotten
        split
        · exact Or.inr rfl
        · exact Or.inl idle
      · simp only [decodeStep, packetDecode, cmd] at taken
        obtain ⟨rfl, _⟩ := Prod.mk.inj (Except.ok.inj taken)
        by_cases second : c = 0xA5
        · subst second
          exact longer [0xA5] (.lenLow rfl rfl) rfl
        · apply forgotten
          rw [if_neg second]
          exact Or.inr rfl
  | lenLow status type =>
      simp only [decodeStep, packetDecode, status] at taken
      obtain ⟨rfl, _⟩ := Prod.mk.inj (Except.ok.inj taken)
      exact longer [c] (.lenHigh rfl type rfl) rfl
  | lenHigh status type declared =>
      simp only [decodeStep, packetDecode, status] at taken
      obtain ⟨rfl, _⟩ := Prod.mk.inj (Except.ok.inj taken)
      exact longer [c] (.crcLow rfl type (by rw [declared]; rfl)) rfl
  | crcLow status type declared =>
      simp only [decodeStep, packetDecode, status] at taken
      obtain ⟨rfl, _⟩ := Prod.mk.inj (Except.ok.inj taken)
      exact longer [c] (.crcHigh c rfl type declared rfl) rfl
  | crcHigh low status type declared check =>
      simp only [decodeStep, packetDecode, status] at taken
      obtain ⟨rfl, _⟩ := Prod.mk.inj (Except.ok.inj taken)
      refine longer [c] (.data low c [] ?_) rfl
      exact {
        status := rfl
        type := type
        declared := declared
        check := by rw [check]; rfl
        fresh := rfl
        count := rfl
        stored := rfl
        room := Nat.succ_pos 2047
        unfinished := Or.inr rfl
      }
  | data low high data receiving =>
      rcases receiving.step taken with ⟨idle, _⟩ | ⟨still, headerLow, headerHigh, _⟩
      · exact forgotten (Or.inl idle)
      · refine longer [c] ?_ rfl
        rw [List.append_assoc, ← headerLow, ← headerHigh]
        exact .data low high (data ++ [c]) still

/-- A packet is handed over only by a decoder that is receiving its payload. -/
theorem Decoder.Remembers.receiving {received : List UInt8} {s t : Decoder} {c : UInt8}
    {pkt : Packet} (remembers : Decoder.Remembers received s)
    (taken : decodeStep s c = .ok (t, [pkt]))
    : ∃ low high data,
        s.Receiving low high data
        ∧ [0xA5, s.headerLow, s.headerHigh, low, high] ++ data <:+ received := by
  obtain ⟨tail, suffix, follows⟩ := remembers
  cases follows with
  | data low high data receiving => exact ⟨low, high, data, receiving, suffix⟩
  | waiting waiting =>
      rcases waiting with status | status
      all_goals
        simp only [decodeStep, packetDecode, status] at taken
        cases (Prod.mk.inj (Except.ok.inj taken)).2
  | lenLow status | lenHigh status | crcLow status | crcHigh _ status =>
      simp only [decodeStep, packetDecode, status] at taken
      cases (Prod.mk.inj (Except.ok.inj taken)).2

-----------------------------------------------------------------------------------------
-- When a packet handed over has its whole frame behind it
-----------------------------------------------------------------------------------------

/-- The byte before the second header byte of a packet with this many payload bytes, which
end the bytes received, is the start byte.
-/
def StartsWhole (received : List UInt8) (length : Nat) : Prop :=
  received.reverse[length + 5]? = some 0x5A

instance (received : List UInt8) (length : Nat) : Decidable (StartsWhole received length) :=
  inferInstanceAs (Decidable (_ = _))

/-- A list is a suffix with one more element in front when that is the element before it. -/
theorem cons_suffix_iff {α : Type*} {first : α} {rest all : List α}
    : first :: rest <:+ all ↔ rest <:+ all ∧ all.reverse[rest.length]? = some first := by
  constructor
  · intro suffix
    obtain ⟨front, rfl⟩ := suffix
    exact ⟨⟨front ++ [first], by simp⟩, by simp⟩
  · intro both
    obtain ⟨⟨front, rfl⟩, here⟩ := both
    rw [List.reverse_append, List.getElem?_append_right (by simp), List.length_reverse,
      Nat.sub_self] at here
    obtain ⟨before, rfl⟩ : ∃ before, front = before ++ [first] := by
      rw [← List.head?_eq_getElem?, List.head?_reverse] at here
      exact List.getLast?_eq_some_iff.mp here
    exact ⟨before, by simp⟩

/-- The bytes behind a packet handed over end with its frame exactly when its declared
length is not zero and its header is whole.
-/
theorem handed_over_iff {received : List UInt8} {s t : Decoder} {c : UInt8} {pkt : Packet}
    (remembers : Decoder.Remembers received s) (taken : decodeStep s c = .ok (t, [pkt]))
    : EndsWithFrame (received ++ [c]) pkt.payloadLen.toNat
      ↔ s.rxPkt.payloadLen ≠ 0
        ∧ StartsWhole (received ++ [c]) s.rxPkt.payloadLen.toNat := by
  obtain ⟨low, high, data, receiving, front, rfl⟩ := remembers.receiving taken
  rcases receiving.step taken with ⟨_, handed⟩ | ⟨_, _, _, none⟩
  · obtain ⟨declared, reached, matched⟩ := handed pkt List.mem_cons_self
    have unfinished := receiving.unfinished
    have count := receiving.count
    have tail : [0xA5, s.headerLow, s.headerHigh, low, high] ++ (data ++ [c])
        <:+ front ++ ([0xA5, s.headerLow, s.headerHigh, low, high] ++ data) ++ [c] :=
      ⟨front, by simp⟩
    generalize front ++ ([0xA5, s.headerLow, s.headerHigh, low, high] ++ data) ++ [c] = all
      at tail ⊢
    rw [declared]
    constructor
    · intro framed
      obtain ⟨lenLow, lenHigh, crcLow, crcHigh, payload, length, _, _, suffix⟩ := framed
      have whole := (cons_suffix_iff.mp suffix).2
      have start : StartsWhole all s.rxPkt.payloadLen.toNat := by
        rw [StartsWhole, ← length, ← whole]
        rfl
      refine ⟨fun zero => ?_, start⟩
      have empty : data.length = 0 := by
        rw [zero, UInt16.toNat_zero] at unfinished
        omega
      have five : ([s.headerLow, s.headerHigh, low, high] ++ (data ++ [c])).length = 5 := by
        simp [empty]
      have second
          : all.reverse[([s.headerLow, s.headerHigh, low, high] ++ (data ++ [c])).length]?
            = some 0xA5 := (cons_suffix_iff.mp tail).2
      rw [five] at second
      rw [StartsWhole, zero] at start
      exact absurd (Option.some.inj (start.symm.trans second)) (by decide)
    · intro condition
      obtain ⟨nonzero, start⟩ := condition
      have positive : s.rxPkt.payloadLen.toNat ≠ 0 :=
        fun zero => nonzero (UInt16.toNat_inj.mp zero)
      have length : (data ++ [c]).length = s.rxPkt.payloadLen.toNat := by
        rw [List.length_append, List.length_singleton]
        omega
      refine ⟨s.headerLow, s.headerHigh, low, high, data ++ [c], length, ?_, matched, ?_⟩
      · rw [← receiving.declared]
      · refine cons_suffix_iff.mpr ⟨tail, ?_⟩
        rw [StartsWhole, ← length] at start
        exact start
  · cases none

/-- A decoder that starts idle remembers what it has received. -/
theorem run_remembers {s t : Decoder} {received : List UInt8} {packets : List Packet}
    (idle : s.status = .idle) (ran : run decodeStep s received = .ok (t, packets))
    : Decoder.Remembers received t := by
  have none : Decoder.Remembers [] s := ⟨[], List.nil_suffix, .waiting (Or.inl idle)⟩
  exact run_history
    (fun received s c t packets (remembers : Decoder.Remembers received s) taken =>
      remembers.step taken)
    none ran

/-- The byte passes the tests of the data state: it is stored inside the buffer, reaches the
declared length, and the check matches.
-/
structure Decoder.Accepts (s : Decoder) (c : UInt8) : Prop where
  status : s.status = .data
  type : s.rxPkt.type = 0xA5
  room : s.rxPkt.ofs.toNat + 1 < MAX_PACKET_LEN
  reached : s.rxPkt.payloadLen.toNat ≤ s.rxPkt.ofs.toNat + 1
  matched
    : crc16Update (crc16Update s.crcCalculated s.crcHeader)
        ((s.stored c).rxPkt.buf.toList.take (s.stored c).rxPkt.ofs.toNat)
      = s.crcReceived

/-- A byte that passes the tests completes the packet, which is handed over. -/
theorem Decoder.Accepts.taken {s : Decoder} {c : UInt8} (accepts : s.Accepts c)
    : decodeStep s c = .ok ((packetComplete (s.stored c)).1, [(s.stored c).rxPkt]) := by
  have stored := packetData_stored s c accepts.type accepts.room
  rw [if_pos accepts.reached] at stored
  have event : (packetComplete (s.stored c)).2 = some (s.stored c).rxPkt :=
    if_pos accepts.matched
  simp only [decodeStep, packetDecode, accepts.status, stored, event, Option.toList]

/-- A packet is handed over for exactly the bytes that pass the tests. -/
theorem accepts_iff (s : Decoder) (c : UInt8)
    : s.Accepts c ↔ ∃ t pkt, decodeStep s c = .ok (t, [pkt]) := by
  constructor
  · intro accepts
    exact ⟨_, _, accepts.taken⟩
  · intro accepted
    obtain ⟨t, pkt, taken⟩ := accepted
    cases status : s.status with
    | data =>
        simp only [decodeStep, packetDecode, status, packetData] at taken
        by_cases inside : s.rxPkt.ofs.toNat < MAX_PACKET_LEN
        · have next := s.rxPkt.ofs_next inside
          rw [if_pos inside] at taken
          by_cases full : UInt32.ofNat MAX_PACKET_LEN ≤ s.rxPkt.ofs + 1
          · rw [if_pos full] at taken
            cases (Prod.mk.inj (Except.ok.inj taken)).2
          · rw [if_neg full] at taken
            rw [UInt32.le_iff_toNat_le, next] at full
            by_cases complete
                : s.rxPkt.payloadLen.toUInt32 ≤ s.rxPkt.ofs + 1 ∧ s.rxPkt.type = 0xA5
            · rw [if_pos complete] at taken
              obtain ⟨reached, type⟩ := complete
              rw [UInt32.le_iff_toNat_le, next, UInt16.toNat_toUInt32] at reached
              have handed : (packetComplete (s.stored c)).2.toList = [pkt] :=
                (Prod.mk.inj (Except.ok.inj taken)).2
              refine ⟨status, type, Nat.lt_of_not_le full, reached, ?_⟩
              by_contra mismatch
              have event : (packetComplete (s.stored c)).2 = none := if_neg mismatch
              rw [event] at handed
              cases handed
            · rw [if_neg complete] at taken
              cases (Prod.mk.inj (Except.ok.inj taken)).2
        · rw [if_neg inside] at taken
          cases taken
    | idle | cmd | lenLow | lenHigh | crcLow | crcHigh =>
        simp only [decodeStep, packetDecode, status] at taken
        cases (Prod.mk.inj (Except.ok.inj taken)).2

/-- One byte hands over one packet at most. -/
theorem decodeStep_handed {s t : Decoder} {c : UInt8} {packets : List Packet} {pkt : Packet}
    (taken : decodeStep s c = .ok (t, packets)) (member : pkt ∈ packets)
    : packets = [pkt] := by
  cases decoded : packetDecode s c with
  | error fault =>
      rw [decodeStep, decoded] at taken
      cases taken
  | ok outcome =>
      obtain ⟨next, result, event⟩ := outcome
      rw [decodeStep, decoded] at taken
      obtain ⟨rfl, rfl⟩ := Prod.mk.inj (Except.ok.inj taken)
      obtain rfl := Option.mem_toList.mp member
      rfl

/-- A packet that is handed over is the one that the byte completes. -/
theorem accepts_of_handed {s t : Decoder} {c : UInt8} {pkt : Packet}
    (taken : decodeStep s c = .ok (t, [pkt]))
    : s.Accepts c ∧ t = (packetComplete (s.stored c)).1 ∧ pkt = (s.stored c).rxPkt := by
  have accepts := (accepts_iff s c).mpr ⟨t, pkt, taken⟩
  have same := Prod.mk.inj (Except.ok.inj (taken.symm.trans accepts.taken))
  exact ⟨accepts, same.1, (List.cons.inj same.2).1⟩

/-- In any byte stream, every packet handed over comes with its frame at the end of the
bytes received, exactly when every byte that passes the tests does so with a declared length
other than zero and the start byte right before the second header byte.
-/
theorem handed_over_sound_iff (start : Decoder) (idle : start.status = .idle)
    (bytes : List UInt8)
    : (∀ received c rest,
        bytes = received ++ c :: rest
        → ∀ s earlier,
            run decodeStep start received = .ok (s, earlier)
            → ∀ t pkt,
                decodeStep s c = .ok (t, [pkt])
                → EndsWithFrame (received ++ [c]) pkt.payloadLen.toNat)
      ↔ ∀ received c rest,
          bytes = received ++ c :: rest
          → ∀ s earlier,
              run decodeStep start received = .ok (s, earlier)
              → s.Accepts c
              → s.rxPkt.payloadLen ≠ 0
                ∧ StartsWhole (received ++ [c]) s.rxPkt.payloadLen.toNat := by
  constructor
  · intro sound received c rest split s earlier ran accepts
    obtain ⟨t, pkt, taken⟩ := (accepts_iff s c).mp accepts
    exact (handed_over_iff (run_remembers idle ran) taken).mp
      (sound received c rest split s earlier ran t pkt taken)
  · intro whole received c rest split s earlier ran t pkt taken
    exact (handed_over_iff (run_remembers idle ran) taken).mpr
      (whole received c rest split s earlier ran ((accepts_iff s c).mpr ⟨t, pkt, taken⟩))

/-- A stream with one frame. -/
theorem handed_over_sound_loneStart
    : (∀ received c rest,
        loneStart.frame.bytes = received ++ c :: rest
        → ∀ s earlier,
            run decodeStep .init received = .ok (s, earlier)
            → ∀ t pkt,
                decodeStep s c = .ok (t, [pkt])
                → EndsWithFrame (received ++ [c]) pkt.payloadLen.toNat)
      ↔ ∀ received c rest,
          loneStart.frame.bytes = received ++ c :: rest
          → ∀ s earlier,
              run decodeStep .init received = .ok (s, earlier)
              → s.Accepts c
              → s.rxPkt.payloadLen ≠ 0
                ∧ StartsWhole (received ++ [c]) s.rxPkt.payloadLen.toNat :=
  handed_over_sound_iff .init rfl loneStart.frame.bytes

/-- A frame whose two header bytes are parted by a zero is handed over all the same: the
decoder does not go back to the start for a byte that is not the second one.
-/
theorem handed_over_unsound_parted
    : ¬ ∀ received c rest,
        [0x5A, 0x00, 0xA5, 0x01, 0x00, 0x8F, 0x30, 0x11] = received ++ c :: rest
        → ∀ s earlier,
            run decodeStep .init received = .ok (s, earlier)
            → ∀ t pkt,
                decodeStep s c = .ok (t, [pkt])
                → EndsWithFrame (received ++ [c]) pkt.payloadLen.toNat := by
  intro sound
  have opened : run decodeStep .init [0x5A, 0x00, 0xA5, 0x01, 0x00, 0x8F, 0x30]
      = .ok (Decoder.init.opened loneStart.frame, []) := rfl
  have event := filled_event .init loneStart.frame
  rw [if_pos (by decide +kernel)] at event
  have fed := trace_payload (Decoder.init.opened loneStart.frame) loneStart.frame.payload
    (List.cons_ne_nil _ _) rfl rfl rfl (by decide)
  rw [event] at fed
  obtain ⟨t, packets, _, taken, _, handed⟩ := trace_cons_iff.mp fed
  obtain rfl := (List.cons.inj handed).1
  have whole := (handed_over_iff (run_remembers rfl opened) taken).mp
    (sound _ _ [] rfl _ _ opened _ _ taken)
  exact absurd whole.2 (by decide)

end At32.Imu
