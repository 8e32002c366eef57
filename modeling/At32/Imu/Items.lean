import At32.Imu.PayloadBounds
import At32.Lib.LastWrite

/-! Payloads made of whole items. The walk leaves each field with what it reads at the last
item that carries the field, and that is the value of the item unless the source reads
elsewhere in the payload.
-/

namespace At32.Imu

open LittleEndian LastWrite

/-- An item of the sensor other than a RFSOL one. -/
inductive Item
  | id (value : UInt8)
  | accRaw (x y z : Int16)
  | gyrRaw (x y z : Int16)
  | magRaw (x y z : Int16)
  | rotationEul (x y z : Int16)
  | rotationQuat (quat : Vector UInt8 16)
  | pressure (bytes : Vector UInt8 4)
  | imusol (value : UInt8) (reserved : Vector UInt8 10) (data : Vector UInt8 64)
  deriving DecidableEq

def Item.kind : Item → ItemID
  | .id _ => .id
  | .accRaw .. => .accRaw
  | .gyrRaw .. => .gyrRaw
  | .magRaw .. => .magRaw
  | .rotationEul .. => .rotationEul
  | .rotationQuat _ => .rotationQuat
  | .pressure _ => .pressure
  | .imusol .. => .imusol

/-- Three signed halfwords, low byte first. -/
def int16Bytes (x y z : Int16) : List UInt8 :=
  [lowByte x.toUInt16, highByte x.toUInt16, lowByte y.toUInt16, highByte y.toUInt16,
    lowByte z.toUInt16, highByte z.toUInt16]

def Item.body : Item → List UInt8
  | .id value => [value]
  | .accRaw x y z | .gyrRaw x y z | .magRaw x y z | .rotationEul x y z => int16Bytes x y z
  | .rotationQuat quat => quat.toList
  | .pressure bytes => bytes.toList
  | .imusol value reserved data => value :: (reserved.toList ++ data.toList)

def Item.encode (item : Item) : List UInt8 := item.kind.tag :: item.body

def encode (items : List Item) : List UInt8 := items.flatMap Item.encode

/-- The fields of a record that items carry. -/
inductive Field
  | id
  | acc
  | gyr
  | mag
  | eul
  | quat
  deriving DecidableEq, Repr

abbrev Field.Value : Field → Type
  | .id => UInt8
  | .acc | .gyr | .mag | .eul => Vector FloatCell 3
  | .quat => Vector FloatCell 4

def ReceiveImusol.get (record : ReceiveImusol) : (field : Field) → field.Value
  | .id => record.id
  | .acc => record.acc
  | .gyr => record.gyr
  | .mag => record.mag
  | .eul => record.eul
  | .quat => record.quat

/-- The value that an item carries for a field. -/
def Item.value? : (field : Field) → Item → Option field.Value
  | .id, .id value => some value
  | .id, .imusol value _ _ => some value
  | .acc, .accRaw x y z =>
      some (vec3 (.scaled 1000 x.toInt) (.scaled 1000 y.toInt) (.scaled 1000 z.toInt))
  | .acc, .imusol _ _ data => some (floats (byteAt data) 0 3)
  | .gyr, .gyrRaw x y z =>
      some (vec3 (.scaled 10 x.toInt) (.scaled 10 y.toInt) (.scaled 10 z.toInt))
  | .gyr, .imusol _ _ data => some (floats (byteAt data) 12 3)
  | .mag, .magRaw x y z =>
      some (vec3 (.scaled 10 x.toInt) (.scaled 10 y.toInt) (.scaled 10 z.toInt))
  | .mag, .imusol _ _ data => some (floats (byteAt data) 24 3)
  | .eul, .rotationEul x y z =>
      some (vec3 (.scaled 100 y.toInt) (.scaled 100 x.toInt) (.scaled 10 z.toInt))
  | .eul, .imusol _ _ data => some (floats (byteAt data) 36 3)
  | .quat, .rotationQuat quat => some (floats (byteAt quat) 0 4)
  | .quat, .imusol _ _ data => some (floats (byteAt data) 48 4)
  | _, _ => none

/-- The bits of the fields that an item carries. -/
def Item.bits : Item → UInt8
  | .id _ => BIT_VALID_ID
  | .accRaw .. => BIT_VALID_ACC
  | .gyrRaw .. => BIT_VALID_GYR
  | .magRaw .. => BIT_VALID_MAG
  | .rotationEul .. => BIT_VALID_EUL
  | .rotationQuat _ => BIT_VALID_QUAT
  | .pressure _ => 0
  | .imusol .. => BIT_VALID_ALL

/-- The bitmap with the bits of the items added. -/
def addBits (bitmap : UInt8) (items : List Item) : UInt8 :=
  items.foldl (fun bitmap item => bitmap ||| item.bits) bitmap

/-- The variables after a frame of these items: every field holds the value carried last,
the bitmap the bits of the items, and one more frame is counted.
-/
structure Decoded (items : List Item) (s t : Sensor) : Prop where
  fields : ∀ field,
    t.receiveImusol.get field
      = (last (Item.value? field) items).getD (s.receiveImusol.get field)
  tag : t.receiveImusol.tag = s.receiveImusol.tag
  bitmap : t.bitmap = addBits 0 items
  frameCount : t.frameCount = s.frameCount + 1

/-- What the source stores in a field at an item: it takes an ID from the second byte of the
payload and the floats of an IMUSOL item from byte 12 on.
-/
def Item.stored? (byte : Nat → UInt8) : (field : Field) → Item → Option field.Value
  | .id, .id _ => some (byte 1)
  | .acc, .imusol .. => some (floats byte 12 3)
  | .gyr, .imusol .. => some (floats byte (12 + 12) 3)
  | .mag, .imusol .. => some (floats byte (12 + 24) 3)
  | .eul, .imusol .. => some (floats byte (12 + 36) 3)
  | .quat, .imusol .. => some (floats byte (12 + 48) 4)
  | field, item => item.value? field

/-- The place of a field among the 64 data bytes of an IMUSOL item, and its length; the ID
is not among them.
-/
def Field.place : Field → Nat × Nat
  | .id => (0, 0)
  | .acc => (0, 12)
  | .gyr => (12, 12)
  | .mag => (24, 12)
  | .eul => (36, 12)
  | .quat => (48, 16)

/-- The payload holds the field of this item also where the source reads it: an ID in the
second byte, the floats of an IMUSOL item from byte 12 on.
-/
def Item.HeldInPlace (payload : List UInt8) (field : Field) : Item → Prop
  | .id value => payload[1]? = some value
  | .imusol _ _ data =>
      ∀ k, k < field.place.2 → payload[12 + (field.place.1 + k)]? = data[field.place.1 + k]?
  | _ => True

-----------------------------------------------------------------------------------------
-- An item at its place in the payload
-----------------------------------------------------------------------------------------

/-- Floats filled from two arrays are the same when the bytes are. -/
theorem floats_eq_iff {byte other : Nat → UInt8} {start place count : Nat}
    : floats byte start count = floats other place count
      ↔ ∀ k, k < 4 * count → byte (start + k) = other (place + k) := by
  simp only [floats, Vector.ext_iff, Vector.getElem_ofFn, FloatCell.raw.injEq]
  constructor
  · intro same k inside
    have bytes := same (k / 4) (by omega) (k % 4) (Nat.mod_lt k (by decide))
    rwa [Nat.add_assoc, Nat.add_assoc, Nat.div_add_mod] at bytes
  · intro same i inside k small
    rw [Nat.add_assoc, Nat.add_assoc]
    exact same (4 * i + k) (by omega)

/-- An item that starts at (offset), with what follows it, is what the payload holds there. -/
structure Packet.HoldsAt (pkt : Packet) (offset : Nat) (item : Item) (rest : List UInt8)
    : Prop where
  short : pkt.payloadLen.toNat < MAX_PACKET_LEN
  drop : pkt.payload.drop offset = item.encode ++ rest

variable {pkt : Packet} {offset : Nat} {item : Item} {rest : List UInt8}

/-- The item lies within the declared length. -/
theorem Packet.HoldsAt.within (here : pkt.HoldsAt offset item rest)
    : offset + item.encode.length ≤ pkt.payloadLen.toNat := by
  have total := congrArg List.length here.drop
  have tagged : 0 < item.encode.length := Nat.succ_pos _
  rw [List.length_drop, List.length_append, pkt.payload_length here.short] at total
  omega

theorem Packet.HoldsAt.inside (here : pkt.HoldsAt offset item rest)
    : offset < pkt.payloadLen.toNat :=
  Nat.lt_of_lt_of_le (Nat.lt_add_of_pos_right (Nat.succ_pos _)) here.within

/-- The bytes of the item are those that the source finds at its place. -/
theorem Packet.HoldsAt.byte (here : pkt.HoldsAt offset item rest) {k : Nat}
    (inside : k < item.encode.length)
    : item.encode[k]? = some (pkt.byte (offset + k)) := by
  have within := here.within
  rw [← pkt.payload_getElem? here.short (by omega), ← List.getElem?_drop, here.drop,
    List.getElem?_append_left inside]

/-- What follows the item starts after it. -/
theorem Packet.HoldsAt.next (here : pkt.HoldsAt offset item rest)
    : pkt.payload.drop (offset + item.encode.length) = rest := by
  rw [← List.drop_drop, here.drop, List.drop_left]

/-- The switch takes the case of the item. -/
theorem Packet.HoldsAt.tag (here : pkt.HoldsAt offset item rest)
    : ItemID.ofByte? (pkt.byte offset) = some item.kind := by
  have tag : some item.kind.tag = some (pkt.byte offset) := here.byte (k := 0) (Nat.succ_pos _)
  rw [← Option.some.inj tag, ItemID.ofByte?_tag]

/-- A whole item fits, and its size is the length of its encoding; by cases on the item. -/
theorem Packet.HoldsAt.fits (here : pkt.HoldsAt offset item rest)
    : ItemFits pkt.payload offset ∧ itemSize pkt.payload offset = item.encode.length := by
  have within := here.within
  have length := pkt.payload_length here.short
  have tag : tagAt? pkt.payload offset = some item.kind := by
    rw [pkt.tagAt?_payload here.short here.inside, here.tag]
  unfold ItemFits itemSize
  rw [tag]
  cases item <;>
    simp [Item.kind, Item.encode, Item.body, int16Bytes] at within ⊢ <;>
    omega

/-- The bytes of the body follow the tag. -/
theorem Packet.HoldsAt.bodyByte (here : pkt.HoldsAt offset item rest) {k : Nat}
    (inside : k < item.body.length)
    : item.body[k]? = some (pkt.byte (offset + 1 + k)) := by
  rw [Nat.add_assoc, Nat.add_comm 1 k, ← here.byte (Nat.succ_lt_succ inside)]
  rfl

/-- Three halfwords are read back as they were encoded, byte by byte. -/
theorem stream2int16_int16Bytes {src : Nat → UInt8} {start : Nat} {x y z : Int16}
    (bytes : ∀ k, k < 6 → (int16Bytes x y z)[k]? = some (src (start + k)))
    : stream2int16 src start = vec3 x.toInt y.toInt z.toInt := by
  have b0 : lowByte x.toUInt16 = src start := Option.some.inj (bytes 0 (by decide))
  have b1 := Option.some.inj (bytes 1 (by decide))
  have b2 := Option.some.inj (bytes 2 (by decide))
  have b3 := Option.some.inj (bytes 3 (by decide))
  have b4 := Option.some.inj (bytes 4 (by decide))
  have b5 := Option.some.inj (bytes 5 (by decide))
  have first : half (src start) (src (start + 1)) = x.toUInt16 := by rw [← b0, ← b1, half_bytes]
  have second : half (src (start + 2)) (src (start + 3)) = y.toUInt16 := by
    rw [← b2, ← b3, half_bytes]
  have third : half (src (start + 4)) (src (start + 5)) = z.toUInt16 := by
    rw [← b4, ← b5, half_bytes]
  rw [stream2int16, first, second, third, Int16.toInt16_toUInt16, Int16.toInt16_toUInt16,
    Int16.toInt16_toUInt16]

/-- The halfwords of an item are read back. -/
theorem Packet.HoldsAt.halfwords (here : pkt.HoldsAt offset item rest) {x y z : Int16}
    (body : item.body = int16Bytes x y z)
    : stream2int16 pkt.byte (offset + 1) = vec3 x.toInt y.toInt z.toInt := by
  apply stream2int16_int16Bytes
  intro k inside
  rw [← body]
  exact here.bodyByte (by rw [body]; exact inside)

-----------------------------------------------------------------------------------------
-- What the source stores for the items
-----------------------------------------------------------------------------------------

/-- The variables after the items: every field holds what the source stores at its last
carrier, the bits of the items are added, and nothing else changes.
-/
structure Stored (pkt : Packet) (items : List Item) (s t : Sensor) : Prop where
  fields : ∀ field,
    t.receiveImusol.get field
      = (last (Item.stored? pkt.byte field) items).getD (s.receiveImusol.get field)
  tag : t.receiveImusol.tag = s.receiveImusol.tag
  bitmap : t.bitmap = addBits s.bitmap items
  frameCount : t.frameCount = s.frameCount

/-- No items leave the variables as they are. -/
theorem Stored.nil (pkt : Packet) (s : Sensor) : Stored pkt [] s s :=
  { fields := fun _ => rfl, tag := rfl, bitmap := rfl, frameCount := rfl }

/-- What an item stores is kept unless a later item carries the field. -/
theorem Stored.cons {items : List Item} {s t u : Sensor} (first : Stored pkt [item] s t)
    (later : Stored pkt items t u)
    : Stored pkt (item :: items) s u where
  fields field := by
    rw [later.fields, first.fields, last_cons, last_cons, last_nil, Option.none_or,
      Option.getD_or]
  tag := later.tag.trans first.tag
  bitmap := by
    rw [later.bitmap, first.bitmap]
    rfl
  frameCount := later.frameCount.trans first.frameCount

/-- The case of an item stores it, by cases on the item. -/
theorem onItem_stored (here : pkt.HoldsAt offset item rest) (s : Sensor)
    (valid : s.bitmap ||| BIT_VALID_ALL = BIT_VALID_ALL)
    : Stored pkt [item] s (onItem pkt s offset).sensor := by
  have single (field : Field)
      : last (Item.stored? pkt.byte field) [item] = item.stored? pkt.byte field := by
    rw [last_cons, last_nil, Option.none_or]
  have tag := here.tag
  unfold onItem
  rw [tag]
  cases item with
  | id value =>
      refine { fields := fun field => ?_, tag := rfl, bitmap := rfl, frameCount := rfl }
      rw [single]
      cases field <;> rfl
  | accRaw x y z | gyrRaw x y z | magRaw x y z | rotationEul x y z =>
      refine { fields := fun field => ?_, tag := rfl, bitmap := rfl, frameCount := rfl }
      simp only [Item.kind, here.halfwords rfl, single]
      cases field <;> rfl
  | rotationQuat quat =>
      have copied : floats pkt.byte (offset + 1) 4 = floats (byteAt quat) 0 4 := by
        apply floats_eq_iff.mpr
        intro k inside
        have held := here.bodyByte (k := k) (by simpa [Item.body] using inside)
        rw [Nat.zero_add, byteAt, ← Vector.getElem?_toList]
        exact (Option.getD_eq_iff.mpr (Or.inl held)).symm
      refine { fields := fun field => ?_, tag := rfl, bitmap := rfl, frameCount := rfl }
      simp only [Item.kind, copied, single]
      cases field <;> rfl
  | pressure bytes =>
      refine { fields := fun field => ?_, tag := rfl, bitmap := ?_, frameCount := rfl }
      · rw [single]
        cases field <;> rfl
      · exact (UInt8.or_zero).symm
  | imusol value reserved data =>
      have held : value = pkt.byte (offset + 1) :=
        Option.some.inj (here.bodyByte (k := 0) (Nat.succ_pos _))
      -- the case sets all bits, which is what adding them to valid ones gives
      refine { fields := fun field => ?_, tag := rfl, bitmap := valid.symm, frameCount := rfl }
      rw [single]
      simp only [Item.kind, ← held]
      cases field <;> rfl

/-- Every bit that items carry is one of BIT_VALID_ALL, by cases on the item. -/
theorem Item.bits_valid (item : Item) : item.bits ||| BIT_VALID_ALL = BIT_VALID_ALL := by
  cases item <;>
    simp only [Item.bits] <;>
    decide

/-- An item stored keeps the bitmap below BIT_VALID_ALL. -/
theorem Stored.valid {s t : Sensor} (stored : Stored pkt [item] s t)
    (valid : s.bitmap ||| BIT_VALID_ALL = BIT_VALID_ALL)
    : t.bitmap ||| BIT_VALID_ALL = BIT_VALID_ALL := by
  rw [stored.bitmap]
  change (s.bitmap ||| item.bits) ||| BIT_VALID_ALL = BIT_VALID_ALL
  rw [UInt8.or_assoc, item.bits_valid, valid]

/-- A walk that comes to an item completes when the one behind it does. -/
theorem walk_next (here : pkt.HoldsAt offset item rest) (s : Sensor) {t : Sensor}
    {log : List Access}
    (next : walk pkt (onItem pkt (enterItem s offset) offset).sensor
      (offset + item.encode.length) = .ok (t, log))
    : ∃ log, walk pkt s offset = .ok (t, log) := by
  have inside := here.inside
  obtain ⟨fits, size⟩ := here.fits
  have within := (onItem_within_iff pkt here.short (enterItem s offset) inside).mpr fits
  have moved := onItem_offset pkt here.short (enterItem s offset) inside fits
  rw [← size, ← moved] at next
  refine ⟨_, (walk_item pkt s inside t _).mpr ⟨log, rfl, ?_, next⟩⟩
  intro access member
  have bounded : access.Within pkt.payloadLen.toNat := by
    rcases List.mem_cons.mp member with rfl | member
    · exact inside
    · exact within access member
  exact bounded.mono (Nat.le_of_lt here.short)

/-- Behind the first item, the walk over items stores them one after another; by induction
on the items.
-/
theorem walk_items (short : pkt.payloadLen.toNat < MAX_PACKET_LEN) (items : List Item)
    (s : Sensor) (behind : 0 < offset) (drop : pkt.payload.drop offset = encode items)
    (valid : s.bitmap ||| BIT_VALID_ALL = BIT_VALID_ALL)
    : ∃ t log, walk pkt s offset = .ok (t, log) ∧ Stored pkt items s t := by
  induction items generalizing s offset with
  | nil =>
      have past := List.drop_eq_nil_iff.mp drop
      rw [pkt.payload_length short] at past
      exact ⟨s, [], walk_done pkt s past, .nil pkt s⟩
  | cons item items ih =>
      have here : pkt.HoldsAt offset item (encode items) := ⟨short, drop⟩
      have entered : enterItem s offset = s := if_neg (by omega)
      have first := onItem_stored here s valid
      obtain ⟨t, log, walked, later⟩ := ih (onItem pkt s offset).sensor
        (Nat.lt_of_lt_of_le behind (Nat.le_add_right _ _)) here.next (first.valid valid)
      obtain ⟨whole, reached⟩ := walk_next here s (by rw [entered]; exact walked)
      exact ⟨t, whole, reached, first.cons later⟩

-----------------------------------------------------------------------------------------
-- When the values stored are those encoded
-----------------------------------------------------------------------------------------

/-- An item of a list is no longer than the list. -/
theorem encode_length_le {items : List Item} (member : item ∈ items)
    : item.encode.length ≤ (encode items).length := by
  obtain ⟨before, after, rfl⟩ := List.append_of_mem member
  simp only [encode, List.flatMap_append, List.flatMap_cons, List.length_append]
  omega

theorem Item.stored?_isSome (byte : Nat → UInt8) (field : Field) (item : Item)
    : (item.stored? byte field).isSome = (item.value? field).isSome := by
  cases field <;> cases item <;> rfl

/-- Floats copied from byte (12) of the payload on are those of the data exactly when the
bytes there are.
-/
theorem floats_held_iff (short : pkt.payloadLen.toNat < MAX_PACKET_LEN)
    (long : 76 ≤ pkt.payloadLen.toNat) (data : Vector UInt8 64) (first count : Nat)
    (inside : first + 4 * count ≤ 64)
    : floats pkt.byte (12 + first) count = floats (byteAt data) first count
      ↔ ∀ k, k < 4 * count → pkt.payload[12 + (first + k)]? = data[first + k]? := by
  rw [floats_eq_iff]
  refine forall_congr' fun k => imp_congr_right fun small => ?_
  have place : first + k < 64 := by omega
  rw [pkt.payload_getElem? short (by omega), byteAt, Vector.getElem?_eq_getElem place,
    Option.getD_some, Option.some.injEq, Nat.add_assoc]

/-- The source stores the value of an item exactly when the payload holds it where the
source reads it; by cases on the item and the field.
-/
theorem Item.stored?_eq_iff (short : pkt.payloadLen.toNat < MAX_PACKET_LEN) (field : Field)
    (long : item.encode.length ≤ pkt.payloadLen.toNat)
    (carried : (item.value? field).isSome)
    : item.stored? pkt.byte field = item.value? field
      ↔ item.HeldInPlace pkt.payload field := by
  cases item with
  | id value =>
      cases field with
      | id =>
          have second : 1 < pkt.payloadLen.toNat := long
          simp only [stored?, value?, HeldInPlace, pkt.payload_getElem? short second]
      | _ => cases carried
  | imusol value reserved data =>
      have long : 76 ≤ pkt.payloadLen.toNat := by
        simpa [Item.encode, Item.body] using long
      have held (first count : Nat) (inside : first + 4 * count ≤ 64)
          : some (floats pkt.byte (12 + first) count) = some (floats (byteAt data) first count)
            ↔ ∀ k, k < 4 * count → pkt.payload[12 + (first + k)]? = data[first + k]? := by
        rw [Option.some.injEq, floats_held_iff short long data first count inside]
      simp only [HeldInPlace]
      cases field with
      | id => simp [stored?, value?, Field.place]
      | acc => exact held 0 3 (by decide)
      | gyr => exact held 12 3 (by decide)
      | mag => exact held 24 3 (by decide)
      | eul => exact held 36 3 (by decide)
      | quat => exact held 48 4 (by decide)
  | _ => cases field <;> simp [stored?, value?, HeldInPlace]

/-- Stored items are decoded as they were encoded exactly when the payload holds the last
carrier of every field where the source reads it.
-/
theorem Stored.decoded_iff {items : List Item} {s t : Sensor}
    (short : pkt.payloadLen.toNat < MAX_PACKET_LEN) (encoded : pkt.payload = encode items)
    (stored : Stored pkt items (enterItem s 0) t)
    : Decoded items s t
      ↔ ∀ field item,
          carrier (Item.value? field) items = some item
          → item.HeldInPlace (encode items) field := by
  have fieldIff (field : Field)
      : t.receiveImusol.get field
            = (last (Item.value? field) items).getD (s.receiveImusol.get field)
        ↔ ∀ item,
            carrier (Item.value? field) items = some item
            → item.HeldInPlace (encode items) field := by
    rw [stored.fields]
    change (last (Item.stored? pkt.byte field) items).getD (s.receiveImusol.get field) = _ ↔ _
    rw [last_getD_eq_iff items _ (Item.stored?_isSome pkt.byte field)]
    refine forall_congr' fun item => forall_congr' fun found => ?_
    have long := encode_length_le (mem_of_carrier found)
    rw [← encoded, pkt.payload_length short] at long
    rw [Item.stored?_eq_iff short field long (carrier_isSome found), encoded]
  constructor
  · intro decoded field
    exact (fieldIff field).mp (decoded.fields field)
  · intro held
    exact {
      fields := fun field => (fieldIff field).mpr (held field)
      tag := stored.tag
      bitmap := stored.bitmap
      frameCount := stored.frameCount
    }

/-- The handler stores the items of a payload that has any, in a new frame. -/
theorem onDataReceived_stores (s : Sensor) (type : pkt.type = 0xA5)
    (short : pkt.payloadLen.toNat < MAX_PACKET_LEN) (item : Item) (items : List Item)
    (encoded : pkt.payload = encode (item :: items))
    : ∃ t log,
        onDataReceived s pkt = .ok (t, log) ∧ Stored pkt (item :: items) (enterItem s 0) t := by
  have here : pkt.HoldsAt 0 item (encode items) := ⟨short, encoded⟩
  have cleared : (enterItem s 0).bitmap = 0 := rfl
  have valid : (enterItem s 0).bitmap ||| BIT_VALID_ALL = BIT_VALID_ALL := by
    rw [cleared]
    decide
  have first := onItem_stored here (enterItem s 0) valid
  have behind : 0 < 0 + item.encode.length := by
    rw [Nat.zero_add]
    exact Nat.succ_pos _
  obtain ⟨t, log, walked, later⟩ := walk_items short items
    (onItem pkt (enterItem s 0) 0).sensor behind here.next (first.valid valid)
  obtain ⟨whole, reached⟩ := walk_next here s walked
  rw [onDataReceived, if_pos type]
  exact ⟨t, whole, reached, first.cons later⟩

/-- A payload of whole items is decoded as it was encoded exactly when it has an item, and
the last item that carries a field is held where the source reads it.
-/
theorem items_decoded_iff (s : Sensor) (pkt : Packet) (type : pkt.type = 0xA5)
    (short : pkt.payloadLen.toNat < MAX_PACKET_LEN) (items : List Item)
    (encoded : pkt.payload = encode items)
    : (∃ t log, onDataReceived s pkt = .ok (t, log) ∧ Decoded items s t)
      ↔ items ≠ []
        ∧ ∀ field item,
            carrier (Item.value? field) items = some item
            → item.HeldInPlace (encode items) field := by
  cases items with
  | nil =>
      have empty : pkt.payloadLen.toNat ≤ 0 := by
        rw [← pkt.payload_length short, encoded]
        exact Nat.le_refl 0
      rw [onDataReceived, if_pos type, walk_done pkt s empty]
      constructor
      · intro outcome
        obtain ⟨t, log, walked, decoded⟩ := outcome
        obtain ⟨rfl, rfl⟩ := Prod.mk.inj (Except.ok.inj walked)
        have counted := congrArg UInt32.toNat decoded.frameCount
        rw [UInt32.toNat_add, UInt32.toNat_one] at counted
        omega
      · intro condition
        obtain ⟨nonempty, _⟩ := condition
        exact absurd rfl nonempty
  | cons item items =>
      obtain ⟨t, log, received, stored⟩ :=
        onDataReceived_stores s type short item items encoded
      rw [← stored.decoded_iff short encoded, received]
      constructor
      · intro outcome
        obtain ⟨_, _, same, decoded⟩ := outcome
        obtain ⟨rfl, rfl⟩ := Prod.mk.inj (Except.ok.inj same)
        exact ⟨List.cons_ne_nil _ _, decoded⟩
      · intro condition
        obtain ⟨-, decoded⟩ := condition
        exact ⟨t, log, rfl, decoded⟩

/-- An ID and accelerations behind it are decoded. -/
theorem items_decoded_idFirst
    : ∃ t log,
        onDataReceived .init (.ofPayload (encode [.id 7, .accRaw 1 (-2) 3])) = .ok (t, log)
        ∧ Decoded [.id 7, .accRaw 1 (-2) 3] .init t := by
  have short : (encode [.id 7, .accRaw 1 (-2) 3]).length < MAX_PACKET_LEN := by decide
  have length := Packet.ofPayload_payloadLen short
  refine (items_decoded_iff .init _ rfl (by omega) _ (Packet.ofPayload_payload short)).mpr
    ⟨List.cons_ne_nil _ _, fun field item found => ?_⟩
  have member := mem_of_carrier found
  rcases List.mem_cons.mp member with rfl | member
  · exact rfl
  · obtain rfl := List.mem_singleton.mp member
    trivial

/-- An ID behind accelerations is decoded as the low byte of the first acceleration. -/
theorem items_undecoded_idSecond
    : ¬ ∃ t log,
        onDataReceived .init (.ofPayload (encode [.accRaw 1 (-2) 3, .id 7])) = .ok (t, log)
        ∧ Decoded [.accRaw 1 (-2) 3, .id 7] .init t := by
  intro outcome
  obtain ⟨t, log, received, decoded⟩ := outcome
  have short : (encode [.accRaw 1 (-2) 3, .id 7]).length < MAX_PACKET_LEN := by decide
  have length := Packet.ofPayload_payloadLen short
  have encoded := Packet.ofPayload_payload short
  obtain ⟨t', log', received', stored⟩ :=
    onDataReceived_stores .init rfl (by omega) (.accRaw 1 (-2) 3) [.id 7] encoded
  obtain ⟨rfl, rfl⟩ := Prod.mk.inj (Except.ok.inj (received.symm.trans received'))
  have held : (encode [.accRaw 1 (-2) 3, .id 7])[1]? = some 7 :=
    (stored.decoded_iff (by omega) encoded).mp decoded .id (.id 7) rfl
  exact absurd held (by decide)

end At32.Imu
