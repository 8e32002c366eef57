import At32.Imu.Soundness

/-! The receive buffer of the packet decoder: every byte of any stream is stored inside it, and
what is known of the bytes in it when the event handler is called.
-/

namespace At32.Imu

open LittleEndian Transducer

/-- A packet that is handed over behind these bytes: the place is at the declared length or behind
it, inside the buffer, and the check is over the four header bytes and the bytes before the place,
which are the last ones received.
-/
structure Checked (received : List UInt8) (t : Decoder) (pkt : Packet) : Prop where
  reached : pkt.payloadLen.toNat ≤ pkt.ofs.toNat
  inside : pkt.ofs.toNat ≤ 2047
  declared : pkt.payloadLen = half t.headerLow t.headerHigh
  calculated
    : t.crcCalculated
      = crc16Update (crc16Update 0 [0x5A, 0xA5, t.headerLow, t.headerHigh])
          (pkt.buf.toList.take pkt.ofs.toNat)
  matched : t.crcCalculated = t.crcReceived
  stored
    : ∃ low high,
        t.crcReceived = half low high
        ∧ [0xA5, t.headerLow, t.headerHigh, low, high] ++ pkt.buf.toList.take pkt.ofs.toNat
          <:+ received

/-- A byte is taken where the buffer has room for it. -/
theorem decodeStep_takes {s : Decoder}
    (room : s.status = .data → s.rxPkt.ofs.toNat < MAX_PACKET_LEN) (c : UInt8)
    : ∃ t packets, decodeStep s c = .ok (t, packets) := by
  suffices ∃ outcome, packetDecode s c = .ok outcome by
    obtain ⟨outcome, decoded⟩ := this
    exact ⟨outcome.1, outcome.2.2.toList, by rw [decodeStep, decoded]⟩
  cases status : s.status with
  | data =>
      simp only [packetDecode, status, packetData, if_pos (room status)]
      split
      · exact ⟨_, rfl⟩
      · split <;> exact ⟨_, rfl⟩
  | _ =>
      simp only [packetDecode, status]
      exact ⟨_, rfl⟩

/-- A decoder that receives a payload has room for a byte of it. -/
theorem Decoder.Remembers.room {received : List UInt8} {s : Decoder}
    (remembers : Decoder.Remembers received s) (status : s.status = .data)
    : s.rxPkt.ofs.toNat < MAX_PACKET_LEN := by
  obtain ⟨tail, _, follows⟩ := remembers
  cases follows with
  | data _ _ _ receiving => exact receiving.room
  | waiting waiting =>
      rcases waiting with other | other
      all_goals exact absurd (status.symm.trans other) (by decide)
  | lenLow other | lenHigh other | crcLow other | crcHigh _ other =>
      exact absurd (status.symm.trans other) (by decide)

/-- What a packet says that is handed over. -/
theorem Decoder.Remembers.checked {received : List UInt8} {s t : Decoder} {c : UInt8}
    {pkt : Packet} (remembers : Decoder.Remembers received s)
    (taken : decodeStep s c = .ok (t, [pkt]))
    : Checked (received ++ [c]) t pkt := by
  obtain ⟨low, high, data, receiving, front, suffix⟩ := remembers.receiving taken
  obtain ⟨next, extended⟩ := receiving.stored_next c
  obtain ⟨accepts, rfl, rfl⟩ := accepts_of_handed taken
  exact {
    reached := by
      rw [next]
      exact accepts.reached
    inside := by
      rw [next]
      exact Nat.le_of_lt_succ accepts.room
    declared := receiving.declared
    calculated := by
      change crc16Update (crc16Update s.crcCalculated s.crcHeader) _ = _
      rw [receiving.fresh]
      rfl
    matched := accepts.matched
    stored := by
      refine ⟨low, high, receiving.check, front, ?_⟩
      rw [next, extended, ← suffix, List.append_assoc front]
      rfl
  }

/-- For every stream of bytes from the initial state: no byte is stored outside the buffer, the
place is inside it in every state that waits for a byte of the payload, and every packet is handed
over checked.
-/
theorem packetDecode_inBuffer (bytes : List UInt8)
    : ∃ s packets,
        run decodeStep .init bytes = .ok (s, packets)
        ∧ (s.status = .data → s.rxPkt.ofs.toNat < MAX_PACKET_LEN)
        ∧ ∀ c, ∃ t handed,
            decodeStep s c = .ok (t, handed)
            ∧ ∀ pkt ∈ handed, Checked (bytes ++ [c]) t pkt := by
  have takes (received : List UInt8) (s : Decoder) (c : UInt8)
      (remembers : Decoder.Remembers received s)
      : ∃ t packets, decodeStep s c = .ok (t, packets) :=
    decodeStep_takes remembers.room c
  have keeps (received : List UInt8) (s : Decoder) (c : UInt8) (t : Decoder)
      (packets : List Packet) (remembers : Decoder.Remembers received s)
      (taken : decodeStep s c = .ok (t, packets))
      : Decoder.Remembers (received ++ [c]) t :=
    remembers.step taken
  have start : Decoder.Remembers [] .init := ⟨[], List.nil_suffix, .waiting (.inl rfl)⟩
  obtain ⟨s, packets, ran⟩ := run_takes takes keeps start bytes
  have remembers := run_remembers rfl ran
  refine ⟨s, packets, ran, remembers.room, fun c => ?_⟩
  obtain ⟨t, handed, taken⟩ := takes bytes s c remembers
  refine ⟨t, handed, taken, fun pkt member => ?_⟩
  obtain rfl := decodeStep_handed taken member
  exact remembers.checked taken

end At32.Imu
