import At32.Bootloader.Download
import At32.Bootloader.Parameters
import At32.Bootloader.Replies

/-! What a command frame leads to with one and with another content of the packet buffer before
it.
-/

namespace At32.Bootloader

open LittleEndian Transducer

/-- The state with other bytes in the packet buffer. -/
def State.withData (s : State) (data : Vector UInt8 LENGTH) : State := { s with fp.data := data }

/-- The calls that leave the bootloader for the board. -/
def Call.isCallback : Call → Bool
  | .resetMcu | .blSendData _ _ | .blDelayms _ | .blWriteMemory _ _ _ | .blFlashEraseRegion _ =>
      true
  | .analysisCommandTag _ | .recvData _ | .pingResponsePacket | .printf _ _ => false

/-- The same callbacks, and the same static variables behind them. -/
structure Alike (left right : State × List Call) : Prop where
  callbacks : left.2.filter Call.isCallback = right.2.filter Call.isCallback
  appProgram : left.1.appProgram = right.1.appProgram
  blVariate : left.1.blVariate = right.1.blVariate

theorem Alike.of_eq {left right : State × List Call} (same : left = right)
    : Alike left right := by
  subst same
  exact { callbacks := rfl, appProgram := rfl, blVariate := rfl }

/-- A frame is handled alike whichever of the two contents the packet buffer has before it. -/
def HandledAlike {packetSize : UInt32} (ops : BlTestFuncOps) (frame : Frame packetSize)
    (s : State) (stale : Vector UInt8 LENGTH)
    : Prop :=
  ∃ left right,
    run (analysisPacket ops) (s.withData stale) frame.bytes = .ok left
    ∧ run (analysisPacket ops) s frame.bytes = .ok right
    ∧ Alike left right

/-- How many bytes of a packet the handler of a command reads. -/
def parameterBytes : UInt8 → Nat
  | FLASH_ERASE_REGION | WRITE_MEMORY => 12
  | GET_PROPERTY => 5
  | _ => 1

/-- The tag of a command frame. -/
def Frame.tag {packetSize : UInt32} (frame : Frame packetSize) : UInt8 :=
  frame.payload.get ⟨0, frame.nonempty⟩

-----------------------------------------------------------------------------------------
-- What the handlers read
-----------------------------------------------------------------------------------------

section Handlers

variable {ops : BlTestFuncOps} {s : State} {data : Vector UInt8 LENGTH}

theorem analysisAppDownloadAddr_withData (same : (s.withData data).fp.declared = s.fp.declared)
    : analysisAppDownloadAddr (s.withData data) = (analysisAppDownloadAddr s).withData data := by
  have joined := analysisAppDownloadAddr_appProgram (s.withData data)
  rw [same] at joined
  have region : (analysisAppDownloadAddr (s.withData data)).appProgram
      = (analysisAppDownloadAddr s).appProgram := by
    rw [joined, analysisAppDownloadAddr_appProgram]
    rfl
  exact congrArg (fun region => ({ s with fp.data := data, appProgram := region } : State)) region

/-- The response to a command clears the packet buffer. -/
theorem genericResponsePacket_withData (tag : data[0] = s.fp.tag)
    : genericResponsePacket (s.withData data).nameCommand 0
      = genericResponsePacket s.nameCommand 0 := by
  simp only [genericResponsePacket, State.nameCommand, State.withData, tag, FramingPacket.tag]

/-- FlashEraseRegion reads the tag and the region, and leaves no trace of other bytes. -/
theorem flashEraseRegion_withData (tag : data[0] = s.fp.tag)
    (region : (s.withData data).fp.declared = s.fp.declared)
    : flashEraseRegion ops (s.withData data) = flashEraseRegion ops s := by
  have response := genericResponsePacket_withData (s := analysisAppDownloadAddr s) tag
  simp only [flashEraseRegion, analysisAppDownloadAddr_withData region, response]
  rfl

/-- So does WriteMemory. -/
theorem writeMemory_withData (tag : data[0] = s.fp.tag)
    (region : (s.withData data).fp.declared = s.fp.declared)
    : writeMemory (s.withData data) = writeMemory s := by
  have response := genericResponsePacket_withData
    (s := { analysisAppDownloadAddr s with
      blVariate.writeMemoryStart := (analysisAppDownloadAddr s).appProgram.flashStartAddr })
    tag
  simp only [writeMemory, analysisAppDownloadAddr_withData region]
  exact congrArg (fun answer => (answer.1, ackPacket ++ answer.2)) response

/-- GetProperty reads the property. -/
theorem propertyTag_withData (property : data[4] = s.fp.property)
    : Alike (propertyTag ops (s.withData data)) (propertyTag ops s) := by
  have same : propertyValue? ops (s.withData data).fp.property
      = propertyValue? ops s.fp.property :=
    congrArg (propertyValue? ops) property
  cases known : propertyValue? ops s.fp.property with
  | none =>
      rw [propertyTag_prints known, propertyTag_prints (same.trans known)]
      exact { callbacks := rfl, appProgram := rfl, blVariate := rfl }
  | some value =>
      rw [propertyTag_answers known, propertyTag_answers (same.trans known)]
      exact .of_eq rfl

/-- Commands read the tag, and then a region or a property; by cases on the tag. -/
theorem analysisCommandTag_withData (tag : data[0] = s.fp.tag)
    (region : s.fp.NamesRegion → (s.withData data).fp.declared = s.fp.declared)
    (property : s.fp.tag = GET_PROPERTY → data[4] = s.fp.property)
    : Alike (analysisCommandTag ops (s.withData data)) (analysisCommandTag ops s) := by
  have same : (s.withData data).fp.tag = s.fp.tag := tag
  by_cases erase : s.fp.tag = FLASH_ERASE_REGION
  · rw [analysisCommandTag_erase ops erase, analysisCommandTag_erase ops (same.trans erase)]
    exact .of_eq (flashEraseRegion_withData tag (region (Or.inl erase)))
  by_cases write : s.fp.tag = WRITE_MEMORY
  · rw [analysisCommandTag_write ops write, analysisCommandTag_write ops (same.trans write)]
    exact .of_eq (writeMemory_withData tag (region (Or.inr write)))
  by_cases named : s.fp.tag = GET_PROPERTY
  · rw [analysisCommandTag_property ops named,
      analysisCommandTag_property ops (same.trans named)]
    exact propertyTag_withData (property named)
  by_cases reset : s.fp.tag = RESET_MCU
  · rw [analysisCommandTag_reset ops reset, analysisCommandTag_reset ops (same.trans reset)]
    exact .of_eq rfl
  · rw [analysisCommandTag_other ops erase write named reset,
      analysisCommandTag_other ops (by rwa [same]) (by rwa [same]) (by rwa [same])
        (by rwa [same])]
    exact { callbacks := rfl, appProgram := rfl, blVariate := rfl }

end Handlers

-----------------------------------------------------------------------------------------
-- Frames over one and another content
-----------------------------------------------------------------------------------------

section Frames

variable {ops : BlTestFuncOps} {frame : Frame ops.packetSize}

/-- The packet of a frame received over other bytes. -/
abbrev Frame.over (frame : Frame ops.packetSize) (stale : Vector UInt8 LENGTH)
    : Vector UInt8 LENGTH :=
  Buffer.store stale 0 frame.payload

variable (room : ops.packetSize.toNat ≤ LENGTH)
include room

/-- In the payload nothing is left of the bytes below. -/
theorem over_sent (stale : Vector UInt8 LENGTH) {place : Nat} (small : place < LENGTH)
    (sent : place < frame.payload.length)
    : (frame.over stale)[place] = frame.payload[place] :=
  Buffer.getElem_store stale frame.payload (frame.fits.trans room) sent

/-- Behind it they are there. -/
theorem over_behind (stale : Vector UInt8 LENGTH) {place : Nat} (small : place < LENGTH)
    (behind : frame.payload.length ≤ place)
    : (frame.over stale)[place] = stale[place] :=
  Buffer.getElem_store_behind stale frame.payload (frame.fits.trans room) behind small

/-- A valid command frame is handled alike when its handler answers the two packets alike. -/
theorem handledAlike_iff (command : frame.kind = .command) (valid : frame.Valid) {s : State}
    (idle : s.Idle) (stale : Vector UInt8 LENGTH)
    : HandledAlike ops frame s stale
      ↔ Alike (analysisCommandTag ops ((s.received frame).withData (frame.over stale)))
          (analysisCommandTag ops (s.received frame)) := by
  have there := run_frame_valid ops room (s.withData stale) idle frame valid
  have here := run_frame_valid ops room s idle frame valid
  rw [command] at there here
  constructor
  · rintro ⟨left, right, fed, fed', alike⟩
    obtain rfl := Except.ok.inj (there.symm.trans fed)
    obtain rfl := Except.ok.inj (here.symm.trans fed')
    exact { callbacks := alike.callbacks, appProgram := alike.appProgram,
            blVariate := alike.blVariate }
  · intro alike
    exact ⟨_, _, there, here,
      { callbacks := alike.callbacks, appProgram := alike.appProgram,
        blVariate := alike.blVariate }⟩

/-- A frame with all bytes that its handler reads. -/
theorem complete_alike (complete : parameterBytes frame.tag ≤ frame.payload.length) (s : State)
    (stale : Vector UInt8 LENGTH)
    : Alike (analysisCommandTag ops ((s.received frame).withData (frame.over stale)))
        (analysisCommandTag ops (s.received frame)) := by
  have same {place : Nat} (small : place < LENGTH) (sent : place < frame.payload.length)
      : (frame.over stale)[place] = (s.received frame).fp.data[place] :=
    (over_sent room stale small sent).trans (over_sent room s.fp.data small sent).symm
  have tag : (s.received frame).fp.tag = frame.tag :=
    over_sent room s.fp.data (by decide) frame.nonempty
  refine analysisCommandTag_withData (same (by decide) frame.nonempty) (fun carries => ?_)
    fun named => ?_
  · have twelve : 12 ≤ frame.payload.length := by
      rcases carries with erase | write
      · rwa [← tag, erase] at complete
      · rwa [← tag, write] at complete
    have bytes {place : Nat} (small : place < LENGTH) (parameter : place < 12)
        : (frame.over stale)[place] = (s.received frame).fp.data[place] :=
      same small (Nat.lt_of_lt_of_le parameter twelve)
    simp only [FramingPacket.declared, State.withData]
    rw [@bytes 4, @bytes 5, @bytes 6, @bytes 7, @bytes 8, @bytes 9, @bytes 10, @bytes 11]
    all_goals decide
  · rw [← tag, named] at complete
    exact same (by decide) (Nat.lt_of_lt_of_le (by decide) complete)

/-- A region command without its last parameter byte takes the one that is left. -/
theorem region_differs (command : frame.kind = .command) (valid : frame.Valid)
    (names : frame.tag = FLASH_ERASE_REGION ∨ frame.tag = WRITE_MEMORY)
    (short : frame.payload.length < 12)
    : ¬ HandledAlike ops frame (.powerOn .zero) (FramingPacket.zero.data.set 11 0x80) := by
  intro handled
  have alike := (handledAlike_iff room command valid ⟨rfl, rfl⟩ _).mp handled
  -- the top byte of the count is the one at the end of the parameters
  have top (data : Vector UInt8 LENGTH)
      : (analysisCommandTag ops
            (((State.powerOn .zero).received frame).withData
              (frame.over data))).1.appProgram.flashByteCount.toNat / 2 ^ 24
        = data[11].toNat := by
    have carries : (((State.powerOn .zero).received frame).withData
        (frame.over data)).fp.NamesRegion := by
      have tag : (frame.over data)[0] = frame.tag :=
        over_sent room data (by decide) frame.nonempty
      rcases names with erase | write
      · exact Or.inl (tag.trans erase)
      · exact Or.inr (tag.trans write)
    have last : (frame.over data)[11] = data[11] :=
      over_behind room data (by decide) (Nat.le_of_lt_succ short)
    rw [analysisCommandTag_region ops _ carries, State.region,
      analysisAppDownloadAddr_appProgram]
    change ((0 : UInt32) ||| word (frame.over data)[8] (frame.over data)[9]
      (frame.over data)[10] (frame.over data)[11]).toNat / 2 ^ 24 = _
    rw [UInt32.zero_or, word_toNat, last]
    have b8 := (frame.over data)[8].toNat_lt
    have b9 := (frame.over data)[9].toNat_lt
    have b10 := (frame.over data)[10].toNat_lt
    omega
  have left := top (FramingPacket.zero.data.set 11 0x80)
  have right := top FramingPacket.zero.data
  rw [alike.appProgram] at left
  exact absurd (left.symm.trans right) (by decide)

/-- GetProperty without its property takes the one that is left. -/
theorem property_differs (command : frame.kind = .command) (valid : frame.Valid)
    (names : frame.tag = GET_PROPERTY) (short : frame.payload.length < 5)
    : ¬ HandledAlike ops frame (.powerOn .zero)
          (FramingPacket.zero.data.set 4 CURRENT_VERSION) := by
  intro handled
  have alike := (handledAlike_iff room command valid ⟨rfl, rfl⟩ _).mp handled
  have asked (data : Vector UInt8 LENGTH)
      : (((State.powerOn .zero).received frame).withData (frame.over data)).fp.tag
          = GET_PROPERTY
        ∧ (((State.powerOn .zero).received frame).withData (frame.over data)).fp.property
          = data[4] :=
    ⟨(over_sent room data (by decide) frame.nonempty).trans names,
      over_behind room data (by decide) (Nat.le_of_lt_succ short)⟩
  obtain ⟨tag, version⟩ := asked (FramingPacket.zero.data.set 4 CURRENT_VERSION)
  obtain ⟨tag', zero⟩ := asked FramingPacket.zero.data
  have answered := (analysisCommandTag_property ops tag).trans
    (propertyTag_answers (by rw [version]; rfl))
  have printed := (analysisCommandTag_property ops tag').trans
    (propertyTag_prints (by rw [zero]; rfl))
  have callbacks := alike.callbacks
  rw [answered] at callbacks
  change _ = (analysisCommandTag ops (((State.powerOn .zero).received frame).withData
    (frame.over FramingPacket.zero.data))).2.filter Call.isCallback at callbacks
  rw [printed] at callbacks
  cases callbacks

/-- A valid command frame is handled alike in every idle state (`idle_of_run`: every state of
status start that the host can reach), whatever the packet buffer holds before it, exactly when
it has all bytes that its handler reads.
-/
theorem frame_handledAlike_iff (command : frame.kind = .command) (valid : frame.Valid)
    : (∀ s : State, s.Idle → ∀ stale, HandledAlike ops frame s stale)
      ↔ parameterBytes frame.tag ≤ frame.payload.length := by
  constructor
  · intro handled
    by_contra short
    have region (names : frame.tag = FLASH_ERASE_REGION ∨ frame.tag = WRITE_MEMORY)
        (short : frame.payload.length < 12)
        : False :=
      region_differs room command valid names short (handled _ ⟨rfl, rfl⟩ _)
    unfold parameterBytes at short
    split at short
    · rename_i erase
      exact region (Or.inl erase) (Nat.lt_of_not_le short)
    · rename_i write
      exact region (Or.inr write) (Nat.lt_of_not_le short)
    · rename_i property
      exact property_differs room command valid property (Nat.lt_of_not_le short)
        (handled _ ⟨rfl, rfl⟩ _)
    · exact short frame.nonempty
  · intro complete s idle stale
    exact (handledAlike_iff room command valid idle stale).mpr
      (complete_alike room complete s stale)

end Frames

/-- ResetMcu without parameters. -/
def bareReset : Frame blTestFunc.packetSize :=
  {
    kind := .command
    payload := [RESET_MCU]
    crcLow := 0x40
    crcHigh := 0xF5
    nonempty := by decide
    fits := by decide
  }

theorem bareReset_handledAlike
    : (∀ s : State, s.Idle → ∀ stale, HandledAlike blTestFunc bareReset s stale)
      ↔ parameterBytes bareReset.tag ≤ bareReset.payload.length :=
  frame_handledAlike_iff (by decide) rfl (by decide +kernel)

/-- FlashEraseRegion without parameters. -/
def bareErase : Frame blTestFunc.packetSize :=
  {
    kind := .command
    payload := [FLASH_ERASE_REGION]
    crcLow := 0x69
    crcHigh := 0x64
    nonempty := by decide
    fits := by decide
  }

/-- It erases what an earlier packet left. -/
theorem bareErase_stale
    : ¬ HandledAlike blTestFunc bareErase (.powerOn .zero)
          (FramingPacket.zero.data.set 11 0x80) :=
  region_differs (by decide) rfl (by decide +kernel) (Or.inl rfl) (by decide)

end At32.Bootloader
