import At32.Imu.DataDecode
import At32.Imu.Soundness

/-! When the walk over a payload reads only payload bytes and writes only records of the
array: every item that it comes to has to lie in the payload.
-/

namespace At32.Imu

/-- The case label that the payload byte at (offset) matches. -/
def tagAt? (payload : List UInt8) (offset : Nat) : Option ItemID :=
  payload[offset]?.bind ItemID.ofByte?

/-- The record count of an RFSOL item at (offset). -/
def recordCount (payload : List UInt8) (offset : Nat) : Nat :=
  (payload[offset + 2]?.getD 0).toNat

/-- The bytes from an item at (offset) to the next one. -/
def itemSize (payload : List UInt8) (offset : Nat) : Nat :=
  match tagAt? payload offset with
  | some .id => 2
  | some .accRaw | some .gyrRaw | some .magRaw | some .rotationEul => 7
  | some .rotationQuat => 17
  | some .pressure => 5
  | some .imusol => 76
  | some .gwsol => 8 + 76 * recordCount payload offset
  | none => 1

/-- The payload holds what is used of the item at (offset). An ID is taken from the second
byte of the payload and the floats of an IMUSOL item from its bytes 12 to 75, wherever the
item is; the bytes of a pressure item are not used.
-/
def ItemFits (payload : List UInt8) (offset : Nat) : Prop :=
  match tagAt? payload offset with
  | some .id => 2 ≤ payload.length
  | some .accRaw | some .gyrRaw | some .magRaw | some .rotationEul =>
      offset + 7 ≤ payload.length
  | some .rotationQuat => offset + 17 ≤ payload.length
  | some .imusol => offset + 2 ≤ payload.length ∧ 76 ≤ payload.length
  | some .gwsol =>
      offset + 3 ≤ payload.length
      ∧ (recordCount payload offset = 0
        ∨ recordCount payload offset ≤ MAX_LENGTH
          ∧ offset + 8 + 76 * recordCount payload offset ≤ payload.length)
  | some .pressure | none => True

/-- Every item from (offset) to the end of the payload fits. -/
inductive ItemsFit (payload : List UInt8) : Nat → Prop
  | done {offset : Nat} (past : payload.length ≤ offset) : ItemsFit payload offset
  | item {offset : Nat} (inside : offset < payload.length) (fits : ItemFits payload offset)
    (rest : ItemsFit payload (offset + itemSize payload offset))
    : ItemsFit payload offset

/-- Inside the payload, the items fit when the first one and the following ones do. -/
theorem itemsFit_item_iff {payload : List UInt8} {offset : Nat} (inside : offset < payload.length)
    : ItemsFit payload offset
      ↔ ItemFits payload offset ∧ ItemsFit payload (offset + itemSize payload offset) := by
  constructor
  · intro fit
    cases fit with
    | done past => omega
    | item _ fits rest => exact ⟨fits, rest⟩
  · intro both
    obtain ⟨fits, rest⟩ := both
    exact .item inside fits rest

-----------------------------------------------------------------------------------------
-- What the walk is given
-----------------------------------------------------------------------------------------

/-- A packet handed over has the type that the event handler asks for and a length below
that of the buffer, whatever bytes came before.
-/
theorem decodeStep_delivers {s t : Decoder} {c : UInt8} {packets : List Packet} {pkt : Packet}
    (taken : decodeStep s c = .ok (t, packets)) (member : pkt ∈ packets)
    : pkt.type = 0xA5 ∧ pkt.payloadLen.toNat < MAX_PACKET_LEN := by
  obtain rfl := decodeStep_handed taken member
  obtain ⟨accepts, -, rfl⟩ := accepts_of_handed taken
  exact ⟨accepts.type, Nat.lt_of_le_of_lt accepts.reached accepts.room⟩

-----------------------------------------------------------------------------------------
-- The accesses of an item and of a walk
-----------------------------------------------------------------------------------------

/-- The record loop stays in bounds when its records are in the array and in the payload;
by induction on the records.
-/
theorem gwsolRecords_within_iff (pkt : Packet) (remaining i : Nat) (s : Sensor)
    (offset length : Nat)
    : (∀ access ∈ (gwsolRecords pkt remaining i s offset).accesses, access.Within length)
      ↔ remaining = 0 ∨ i + remaining ≤ MAX_LENGTH ∧ offset + 76 * remaining ≤ length := by
  induction remaining generalizing i s offset with
  | zero => simp [gwsolRecords]
  | succ remaining ih =>
      simp only [gwsolRecords, List.cons_append, List.nil_append, List.forall_mem_cons]
      rw [ih]
      simp only [Access.Within]
      omega

/-- Inside the payload, the label is that of the byte on which the source switches. -/
theorem Packet.tagAt?_payload (pkt : Packet) (short : pkt.payloadLen.toNat < MAX_PACKET_LEN)
    {offset : Nat} (inside : offset < pkt.payloadLen.toNat)
    : tagAt? pkt.payload offset = ItemID.ofByte? (pkt.byte offset) := by
  rw [tagAt?, pkt.payload_getElem? short inside, Option.bind_some]

/-- The accesses of an item are in bounds exactly when it fits, by cases on its tag. -/
theorem onItem_within_iff (pkt : Packet) (short : pkt.payloadLen.toNat < MAX_PACKET_LEN)
    (s : Sensor) {offset : Nat} (inside : offset < pkt.payloadLen.toNat)
    : (∀ access ∈ (onItem pkt s offset).accesses, access.Within pkt.payloadLen.toNat)
      ↔ ItemFits pkt.payload offset := by
  have length := pkt.payload_length short
  have tag := pkt.tagAt?_payload short inside
  unfold onItem ItemFits
  rw [tag, length]
  cases ItemID.ofByte? (pkt.byte offset) with
  | none => simp
  | some item =>
      cases item
      case gwsol =>
        have count : recordCount pkt.payload offset = (pkt.byte (offset + 2)).toNat
            ∨ pkt.payloadLen.toNat ≤ offset + 2 := by
          by_cases header : offset + 2 < pkt.payloadLen.toNat
          · rw [recordCount, pkt.payload_getElem? short header, Option.getD_some]
            exact Or.inl rfl
          · exact Or.inr (by omega)
        dsimp only
        rw [List.forall_mem_cons, gwsolRecords_within_iff]
        simp only [Access.Within]
        omega
      all_goals
        simp [Access.Within]
        try omega

/-- An item that fits is followed by the next one after its size, by cases on its tag. -/
theorem onItem_offset (pkt : Packet) (short : pkt.payloadLen.toNat < MAX_PACKET_LEN)
    (s : Sensor) {offset : Nat} (inside : offset < pkt.payloadLen.toNat)
    (fits : ItemFits pkt.payload offset)
    : (onItem pkt s offset).offset = offset + itemSize pkt.payload offset := by
  have length := pkt.payload_length short
  have tag := pkt.tagAt?_payload short inside
  unfold ItemFits at fits
  unfold onItem itemSize
  rw [tag] at fits ⊢
  cases found : ItemID.ofByte? (pkt.byte offset) with
  | none => rfl
  | some item =>
      cases item
      case gwsol =>
        simp only [found, length] at fits
        simp only [gwsolRecords_offset, recordCount, pkt.payload_getElem? short fits.1,
          Option.getD_some]
        omega
      all_goals rfl

/-- A walk completes with every access in bounds exactly when the items fit; by induction on
what is left of the payload.
-/
theorem walk_within_iff (pkt : Packet) (short : pkt.payloadLen.toNat < MAX_PACKET_LEN)
    (s : Sensor) (offset : Nat)
    : (∃ t log,
        walk pkt s offset = .ok (t, log) ∧ ∀ access ∈ log, access.Within pkt.payloadLen.toNat)
      ↔ ItemsFit pkt.payload offset := by
  have length := pkt.payload_length short
  by_cases inside : offset < pkt.payloadLen.toNat
  · have tagInside : (Access.read offset 1).Within pkt.payloadLen.toNat := inside
    have bounded := onItem_within_iff pkt short (enterItem s offset) inside
    rw [itemsFit_item_iff (by omega)]
    constructor
    · intro walkBounded
      obtain ⟨t, log, walked, within⟩ := walkBounded
      obtain ⟨rest, rfl, -, next⟩ := (walk_item pkt s inside t log).mp walked
      rw [List.forall_mem_append, List.forall_mem_cons] at within
      have fits := bounded.mp within.1.2
      have advanced := onItem_advances pkt (enterItem s offset) offset
      rw [← onItem_offset pkt short (enterItem s offset) inside fits]
      exact ⟨fits, (walk_within_iff pkt short _ _).mp ⟨t, rest, next, within.2⟩⟩
    · intro fit
      obtain ⟨fits, rest⟩ := fit
      have advanced := onItem_advances pkt (enterItem s offset) offset
      rw [← onItem_offset pkt short (enterItem s offset) inside fits] at rest
      obtain ⟨t, log, next, within⟩ := (walk_within_iff pkt short _ _).mpr rest
      have here := List.forall_mem_cons.mpr ⟨tagInside, bounded.mpr fits⟩
      refine ⟨t, _, (walk_item pkt s inside t _).mpr ⟨log, rfl, ?_, next⟩, ?_⟩
      · intro access member
        exact (here access member).mono (Nat.le_of_lt short)
      · exact List.forall_mem_append.mpr ⟨here, within⟩
  · constructor
    · intro _
      exact .done (by omega)
    · intro _
      exact ⟨s, [], walk_done pkt s (by omega), fun access member => by cases member⟩
termination_by pkt.payloadLen.toNat - offset

/-- Every packet handed over has the type that the event handler asks for and fits its buffer,
and the walk over such a packet reads only payload bytes and writes only records of the array
exactly when every item that it comes to fits the payload.
-/
theorem payload_walk_bounded_iff (s : Sensor)
    : (∀ d c e packets,
        decodeStep d c = .ok (e, packets)
        → ∀ pkt ∈ packets, pkt.type = 0xA5 ∧ pkt.payloadLen.toNat < MAX_PACKET_LEN)
      ∧ ∀ pkt : Packet,
        pkt.type = 0xA5
        → pkt.payloadLen.toNat < MAX_PACKET_LEN
        → ((∃ t log,
              onDataReceived s pkt = .ok (t, log)
              ∧ ∀ access ∈ log, access.Within pkt.payloadLen.toNat)
            ↔ ItemsFit pkt.payload 0) := by
  constructor
  · intro d c e packets taken pkt member
    exact decodeStep_delivers taken member
  · intro pkt type short
    rw [onDataReceived, if_pos type]
    exact walk_within_iff pkt short s 0

/-- A payload of one whole ID item is walked inside its bounds. -/
theorem payload_walk_bounded_id
    : ∃ t log,
        onDataReceived .init (.ofPayload [0x90, 0x05]) = .ok (t, log)
        ∧ ∀ access ∈ log, access.Within (Packet.ofPayload [0x90, 0x05]).payloadLen.toNat := by
  have short : [(0x90 : UInt8), 0x05].length < MAX_PACKET_LEN := by decide
  have length := Packet.ofPayload_payloadLen short
  apply ((payload_walk_bounded_iff .init).2 (.ofPayload [0x90, 0x05]) rfl (by omega)).mpr
  rw [Packet.ofPayload_payload short]
  exact .item (by decide) (Nat.le_refl 2) (.done (Nat.le_refl 2))

/-- An RFSOL item of three bytes that announces 17 records is walked out of bounds: its
records are read behind the payload, and the last one is written behind the array.
-/
theorem payload_walk_unbounded_seventeen
    : ¬ ∃ t log,
        onDataReceived .init (.ofPayload [0x62, 0x00, 0x11]) = .ok (t, log)
        ∧ ∀ access ∈ log,
            access.Within (Packet.ofPayload [0x62, 0x00, 0x11]).payloadLen.toNat := by
  have short : [(0x62 : UInt8), 0x00, 0x11].length < MAX_PACKET_LEN := by decide
  have length := Packet.ofPayload_payloadLen short
  have type : (Packet.ofPayload [0x62, 0x00, 0x11]).type = 0xA5 := rfl
  rw [onDataReceived, if_pos type, walk_within_iff _ (by omega), Packet.ofPayload_payload short]
  intro fit
  cases fit with
  | done past => exact absurd past (by decide)
  | item _ fits _ =>
      have few : 17 = 0 ∨ 17 ≤ MAX_LENGTH ∧ 0 + 8 + 76 * 17 ≤ 3 := fits.2
      exact absurd few (by decide)

end At32.Imu
