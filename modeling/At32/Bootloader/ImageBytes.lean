import At32.Bootloader.Download
import At32.Bootloader.Parameters

/-! The bytes of data packets behind a WriteMemory command, against the bytes that the write
callback is handed.
-/

namespace At32.Bootloader

open BitMask LittleEndian Transducer

/-- The address and the bytes that a write call hands over, two for each halfword. -/
def Call.written? : Call → Option (UInt32 × List UInt8)
  | .blWriteMemory addr buf len => some (addr, (buf.take len.toNat).flatMap halfBytes)
  | _ => none

/-- What some calls hand to the write callback, in order. -/
def written (calls : List Call) : List (UInt32 × List UInt8) :=
  calls.filterMap Call.written?

/-- The place of each payload when they follow one another from a place on. -/
def places : Nat → List (List UInt8) → List Nat
  | _, [] => []
  | place, payload :: rest => place :: places (place + payload.length) rest

/-- The writes hand over the payloads whole and in order, each from its place on. -/
def HandsOver (writes : List (UInt32 × List UInt8)) (place : Nat) (payloads : List (List UInt8))
    : Prop :=
  writes.flatMap Prod.snd = payloads.flatten
  ∧ writes.map (fun write => write.1.toNat) = places place payloads

/-- What payloads at a pointer hand over: a pointer below the application stays and hands
over nothing, and a payload of odd length loses its last byte.
-/
def handed (appAddress : UInt32) : UInt32 → List (List UInt8) → List (UInt32 × List UInt8)
  | _, [] => []
  | start, payload :: rest =>
      if appAddress ≤ start then
        (start, payload.take (2 * (payload.length / 2)))
          :: handed appAddress (start + UInt32.ofNat payload.length) rest
      else
        handed appAddress start rest

theorem places_length (place : Nat) (payloads : List (List UInt8))
    : (places place payloads).length = payloads.length := by
  induction payloads generalizing place with
  | nil => rfl
  | cons payload rest ih => simp [places, ih]

/-- There is at most one write for each payload, with no more bytes than they have. -/
theorem handed_le (appAddress start : UInt32) (payloads : List (List UInt8))
    : (handed appAddress start payloads).length ≤ payloads.length
      ∧ ((handed appAddress start payloads).flatMap Prod.snd).length
        ≤ payloads.flatten.length := by
  induction payloads generalizing start with
  | nil => exact ⟨Nat.le_refl _, Nat.le_refl _⟩
  | cons payload rest ih =>
      simp only [handed]
      split
      · obtain ⟨count, bytes⟩ := ih (start + UInt32.ofNat payload.length)
        simp only [List.length_cons, List.flatMap_cons, List.flatten_cons, List.length_append,
          List.length_take]
        exact ⟨Nat.succ_le_succ count, by omega⟩
      · obtain ⟨count, bytes⟩ := ih start
        simp only [List.length_cons, List.flatten_cons, List.length_append]
        exact ⟨by omega, by omega⟩

/-- Payloads of even length at places inside the address space are handed over, by induction
on the payloads.
-/
theorem handed_exact (appAddress start : UInt32) (payloads : List (List UInt8))
    (above : appAddress ≤ start) (even : ∀ payload ∈ payloads, payload.length % 2 = 0)
    (top : start.toNat + payloads.dropLast.flatten.length < 2 ^ 32)
    : HandsOver (handed appAddress start payloads) start.toNat payloads := by
  induction payloads generalizing start with
  | nil => exact ⟨rfl, rfl⟩
  | cons payload rest ih =>
      obtain ⟨evenFirst, evenRest⟩ := List.forall_mem_cons.mp even
      have whole : payload.take (2 * (payload.length / 2)) = payload :=
        List.take_of_length_le (by omega)
      simp only [handed, above, if_true, HandsOver, List.flatMap_cons, List.map_cons, places,
        whole, List.flatten_cons]
      cases rest with
      | nil => exact ⟨rfl, rfl⟩
      | cons second rest =>
          rw [List.dropLast_cons_of_ne_nil (List.cons_ne_nil _ _), List.flatten_cons,
            List.length_append] at top
          have next : (start + UInt32.ofNat payload.length).toNat
              = start.toNat + payload.length := by
            rw [UInt32.toNat_add, UInt32.toNat_ofNat', Nat.add_mod_mod]
            exact Nat.mod_eq_of_lt (by omega)
          have higher : appAddress ≤ start + UInt32.ofNat payload.length := by
            rw [UInt32.le_iff_toNat_le] at above ⊢
            omega
          obtain ⟨bytes, addrs⟩ :=
            ih (start + UInt32.ofNat payload.length) higher evenRest (by rw [next]; omega)
          rw [next] at addrs
          exact ⟨congrArg (payload ++ ·) bytes, congrArg (start.toNat :: ·) addrs⟩

/-- Payloads that are handed over from a place on are there, have even length and do not
reach around the address space before the last; by induction on the payloads.
-/
theorem exact_handed (appAddress start : UInt32) (place : Nat) (payloads : List (List UInt8))
    (nonempty : payloads ≠ [])
    (full : HandsOver (handed appAddress start payloads) place payloads)
    : start.toNat = place
      ∧ (∀ payload ∈ payloads, payload.length % 2 = 0)
      ∧ place + payloads.dropLast.flatten.length < 2 ^ 32 := by
  induction payloads generalizing start place with
  | nil => contradiction
  | cons payload rest ih =>
      obtain ⟨bytes, addrs⟩ := full
      by_cases above : appAddress ≤ start
      · simp only [handed, above, if_true, List.flatMap_cons, List.flatten_cons, List.map_cons,
          places, List.cons.injEq] at bytes addrs
        have sizes := congrArg List.length bytes
        obtain ⟨_, fewer⟩ := handed_le appAddress (start + UInt32.ofNat payload.length) rest
        simp only [List.length_append, List.length_take] at sizes
        have even : payload.length % 2 = 0 := by omega
        have whole : payload.take (2 * (payload.length / 2)) = payload :=
          List.take_of_length_le (by omega)
        rw [whole] at bytes
        have bound := start.toNat_lt
        cases rest with
        | nil => exact ⟨addrs.1, by simpa using even, by simpa [addrs.1] using bound⟩
        | cons second rest =>
            obtain ⟨_, evenRest, top⟩ :=
              ih (start + UInt32.ofNat payload.length) (place + payload.length)
                (List.cons_ne_nil _ _) ⟨List.append_cancel_left bytes, addrs.2⟩
            refine ⟨addrs.1, List.forall_mem_cons.mpr ⟨even, evenRest⟩, ?_⟩
            rw [List.dropLast_cons_of_ne_nil (List.cons_ne_nil _ _), List.flatten_cons,
              List.length_append]
            omega
      · have count := congrArg List.length addrs
        obtain ⟨fewer, _⟩ := handed_le appAddress start rest
        rw [List.length_map, places_length] at count
        simp only [handed, above, if_false, List.length_cons] at count
        omega

-----------------------------------------------------------------------------------------
-- The writes of a session
-----------------------------------------------------------------------------------------

@[simp] theorem written_append (left right : List Call)
    : written (left ++ right) = written left ++ written right :=
  List.filterMap_append

@[simp] theorem written_dispatch (kind : FrameKind) (fp : FramingPacket) (calls : List Call)
    : written (.dispatch kind fp :: calls) = written calls := by
  cases kind <;> rfl

/-- Commands write nothing. -/
theorem written_command (ops : BlTestFuncOps) (s : State)
    : written (analysisCommandTag ops s).2 = [] := by
  apply List.filterMap_eq_nil_iff.mpr
  intro call member
  have quiet := analysisCommandTag_fromCommand ops s call member
  cases call <;> first | rfl | exact quiet.elim

/-- A received data packet hands over its payload but for an odd last byte, when its
pointer is not below the application.
-/
theorem recvData_written (ops : BlTestFuncOps) (room : ops.packetSize.toNat ≤ LENGTH) (s : State)
    (frame : Frame ops.packetSize)
    : written (recvData ops (s.received frame)).2
      = if ops.appAddress ≤ s.blVariate.writeMemoryStart then
          [
            (s.blVariate.writeMemoryStart,
              frame.payload.take (2 * (frame.payload.length / 2)))
          ]
        else
          [] := by
  have finish (t : State) : written (recvDataFinish t).2 = [] := by
    simp only [recvDataFinish]
    split <;> rfl
  have quiet : written ackPacket = [] := rfl
  simp only [recvData, written_append, finish, quiet, List.append_nil]
  split
  · rename_i above
    have len := frame.len_toNat room
    have fits := frame.fits
    have halved : (frame.len / 2).toNat = frame.payload.length / 2 := by
      rw [UInt16.toNat_div, len]
      rfl
    have size : (s.received frame).fp.data.toList.length = LENGTH := Vector.length_toList
    have front : (s.received frame).fp.data.toList.take frame.payload.length
        = frame.payload := by
      rw [← len]
      have payload := received_payload room s frame
      rwa [FramingPacket.payload, FramingPacket.length,
        show half (s.received frame).fp.lenLow (s.received frame).fp.lenHigh = frame.len from
          half_bytes frame.len] at payload
    rw [recvDataWrite_received ops s frame above]
    simp only [written, List.filterMap_cons, Call.written?, List.filterMap_nil, halved]
    rw [halves_take _ _ (by omega), ← front, List.take_take, List.length_take, size,
      Nat.min_eq_left (by omega), Nat.min_eq_left (by omega)]
  · rename_i below
    have stays : ¬ ops.appAddress ≤ (s.received frame).blVariate.writeMemoryStart := below
    simp only [recvDataWrite, stays, if_false]
    rfl

/-- The pointer behind a data packet: it has moved by the payload, or not at all below the
application.
-/
def State.pointerBehind (ops : BlTestFuncOps) (s : State) (frame : Frame ops.packetSize)
    : UInt32 :=
  if ops.appAddress ≤ s.blVariate.writeMemoryStart then
    s.blVariate.writeMemoryStart + UInt32.ofNat frame.payload.length
  else
    s.blVariate.writeMemoryStart

/-- A data packet that ends before the region does leaves the pointer behind itself, still
inside the region.
-/
theorem recvData_pointer (ops : BlTestFuncOps) (room : ops.packetSize.toNat ≤ LENGTH)
    (s : State) (frame : Frame ops.packetSize) {reached : Nat}
    (pointer
      : s.blVariate.writeMemoryStart = s.appProgram.flashStartAddr + UInt32.ofNat reached)
    (inside : reached + frame.payload.length < s.appProgram.flashByteCount.toNat)
    : (recvData ops (s.received frame)).1.blVariate.writeMemoryStart
        = s.pointerBehind ops frame
      ∧ ∃ after,
          s.pointerBehind ops frame = s.appProgram.flashStartAddr + UInt32.ofNat after
          ∧ after ≤ reached + frame.payload.length := by
  have behind : ∃ after,
      s.pointerBehind ops frame = s.appProgram.flashStartAddr + UInt32.ofNat after
      ∧ after ≤ reached + frame.payload.length := by
    unfold State.pointerBehind
    split
    · refine ⟨reached + frame.payload.length, ?_, Nat.le_refl _⟩
      rw [pointer, UInt32.ofNat_add, UInt32.add_assoc]
    · exact ⟨reached, pointer, Nat.le_add_right _ _⟩
  refine ⟨?_, behind⟩
  obtain ⟨after, here, short⟩ := behind
  have length
      : (s.received frame).fp.length.toUInt32 = UInt32.ofNat frame.payload.length := by
    rw [← frame.len_toNat room, ← UInt16.toNat_toUInt32, UInt32.ofNat_toNat]
    exact congrArg UInt16.toUInt32 (half_bytes frame.len)
  have pointed
      : (recvDataWrite ops (s.received frame)).1.blVariate.writeMemoryStart
        = s.pointerBehind ops frame := by
    rw [(recvDataWrite_session ops (s.received frame)).2, length]
    rfl
  have within : after ≤ s.appProgram.flashByteCount.toNat := by omega
  have unfinished := (pointer_eq_end_iff s.appProgram within).not.mpr (by omega)
  rw [(recvData_session ops (s.received frame)).2]
  simp only [pointed, here]
  exact if_neg unfinished

/-- Data frames behind a pointer inside the region hand over what their payloads do at that
pointer, by induction on the frames.
-/
theorem run_dataFrames (ops : BlTestFuncOps) (room : ops.packetSize.toNat ≤ LENGTH) (s : State)
    (idle : s.Idle) (frames : List (Frame ops.packetSize))
    (sent : ∀ frame ∈ frames, frame.kind = .data ∧ frame.Valid) (reached : Nat)
    (pointer
      : s.blVariate.writeMemoryStart = s.appProgram.flashStartAddr + UInt32.ofNat reached)
    (inside
      : reached + (frames.flatMap Frame.payload).length ≤ s.appProgram.flashByteCount.toNat)
    : ∃ t calls,
        run (analysisPacket ops) s (frames.flatMap Frame.bytes) = .ok (t, calls)
        ∧ written calls
          = handed ops.appAddress s.blVariate.writeMemoryStart (frames.map Frame.payload) := by
  induction frames generalizing s reached with
  | nil => exact ⟨s, [], rfl, rfl⟩
  | cons frame rest ih =>
      obtain ⟨⟨kind, valid⟩, sentRest⟩ := List.forall_mem_cons.mp sent
      have first := run_frame_valid ops room s idle frame valid
      have handles := recvData_written ops room s frame
      rw [kind, handle] at first
      simp only [List.flatMap_cons, List.length_append] at inside
      obtain ⟨appProgram, _⟩ := recvData_session ops (s.received frame)
      have nextIdle : (recvData ops (s.received frame)).1.Idle :=
        State.idle_of_sameParser (recvData_sameParser ops _) ⟨rfl, rfl⟩
      obtain ⟨t, calls, fed, later⟩ : ∃ t calls,
          run (analysisPacket ops) (recvData ops (s.received frame)).1
              (rest.flatMap Frame.bytes)
            = .ok (t, calls)
          ∧ written calls
            = handed ops.appAddress (s.pointerBehind ops frame) (rest.map Frame.payload) := by
        cases rest with
        | nil => exact ⟨_, [], rfl, rfl⟩
        | cons second rest =>
            -- a further frame has at least one byte, so this one ends inside the region
            have more := second.nonempty
            simp only [List.flatMap_cons, List.length_append] at inside
            obtain ⟨next, after, here, short⟩ :=
              recvData_pointer ops room s frame pointer (by omega)
            rw [← next]
            refine ih _ nextIdle sentRest after ?_ ?_
            · rw [next, appProgram]
              exact here
            · rw [appProgram]
              simp only [List.flatMap_cons, List.length_append, State.received]
              omega
      refine ⟨t, _, run_append first fed, ?_⟩
      rw [written_append, written_dispatch, handles, later, State.pointerBehind]
      simp only [List.map_cons, handed]
      split <;> rfl

/-- A WriteMemory command and data frames behind it hand over what the payloads do at the
joined address.
-/
theorem run_session (ops : BlTestFuncOps) (room : ops.packetSize.toNat ≤ LENGTH) (s : State)
    (idle : s.Idle) {write : Frame ops.packetSize} {region : AppProgramLocation}
    (names : write.Names WRITE_MEMORY region) (frames : List (Frame ops.packetSize))
    (sent : ∀ frame ∈ frames, frame.kind = .data ∧ frame.Valid)
    (inside : (frames.flatMap Frame.payload).length ≤ region.flashByteCount.toNat)
    : ∃ t calls,
        run (analysisPacket ops) s (write.bytes ++ frames.flatMap Frame.bytes)
          = .ok (t, calls)
        ∧ written calls
          = handed ops.appAddress (s.appProgram.flashStartAddr ||| region.flashStartAddr)
              (frames.map Frame.payload) := by
  have first := run_frame_valid ops room s idle write names.valid
  have tag : (s.received write).fp.tag = WRITE_MEMORY := received_tag room s names.tagged
  have declared := received_declared room s names.named
  obtain ⟨_, _, declaredLe⟩ := region_le (s.received write)
  rw [names.kind, handle] at first
  rcases analysisCommandTag_session ops (s.received write) with
    ⟨_, appProgram, pointer⟩ | ⟨other, _, _⟩
  · have joined : (s.received write).region.flashStartAddr
        = s.appProgram.flashStartAddr ||| region.flashStartAddr := by
      rw [State.region, analysisAppDownloadAddr_appProgram, declared]
      rfl
    have commanded : (analysisCommandTag ops (s.received write)).1.Idle :=
      State.idle_of_sameParser (analysisCommandTag_sameParser ops _) ⟨rfl, rfl⟩
    obtain ⟨t, calls, fed, writes⟩ :=
      run_dataFrames ops room _ commanded frames sent 0
        (by rw [pointer, appProgram]; exact (UInt32.add_zero _).symm)
        (by
          rw [declared] at declaredLe
          rw [appProgram]
          omega)
    refine ⟨t, _, run_append first fed, ?_⟩
    rw [written_append, written_dispatch, written_command, writes, pointer, joined]
    rfl
  · exact (other tag).elim

/-- Behind a WriteMemory command from an idle state, data frames within the declared count
are handed over whole and in order, each at its place, exactly when there are none or the
kept address has no bit outside the declared one, all lengths are even and no frame begins
beyond the address space.
-/
theorem image_handedOver_iff (ops : BlTestFuncOps) (room : ops.packetSize.toNat ≤ LENGTH)
    (s : State) (idle : s.Idle) (write : Frame ops.packetSize) (region : AppProgramLocation)
    (names : write.Names WRITE_MEMORY region) (aboveApp : ops.appAddress ≤ region.flashStartAddr)
    (frames : List (Frame ops.packetSize))
    (sent : ∀ frame ∈ frames, frame.kind = .data ∧ frame.Valid)
    (inside : (frames.flatMap Frame.payload).length ≤ region.flashByteCount.toNat)
    : (∃ t calls,
        run (analysisPacket ops) s (write.bytes ++ frames.flatMap Frame.bytes)
          = .ok (t, calls)
        ∧ HandsOver (written calls) region.flashStartAddr.toNat (frames.map Frame.payload))
      ↔ frames = []
        ∨ (s.appProgram.flashStartAddr &&& ~~~ region.flashStartAddr = 0
          ∧ (∀ frame ∈ frames, frame.payload.length % 2 = 0)
          ∧ region.flashStartAddr.toNat + (frames.dropLast.flatMap Frame.payload).length
            < 2 ^ 32) := by
  obtain ⟨t, calls, fed, writes⟩ := run_session ops room s idle names frames sent inside
  have front : (frames.map Frame.payload).dropLast.flatten
      = frames.dropLast.flatMap Frame.payload := by
    rw [← List.map_dropLast, List.flatMap_def]
  constructor
  · intro handsOver
    obtain ⟨t', calls', fed', full⟩ := handsOver
    rw [fed] at fed'
    obtain ⟨rfl, rfl⟩ := Prod.mk.inj (Except.ok.inj fed')
    rw [writes] at full
    by_cases none : frames = []
    · exact Or.inl none
    · have payloads : frames.map Frame.payload ≠ [] := by simpa using none
      obtain ⟨same, even, top⟩ := exact_handed _ _ _ _ payloads full
      rw [front] at top
      refine Or.inr ⟨(or_eq_right_iff _ _).mp (UInt32.toNat_inj.mp same), ?_, top⟩
      intro frame member
      exact even _ (List.mem_map_of_mem member)
  · intro condition
    refine ⟨t, calls, fed, ?_⟩
    rw [writes]
    rcases condition with rfl | ⟨covered, even, top⟩
    · exact ⟨rfl, rfl⟩
    · rw [(or_eq_right_iff _ _).mpr covered]
      rw [← front] at top
      exact handed_exact _ _ _ aboveApp (by simpa using even) top

/-- WriteMemory for three bytes at 0x08009000. -/
def writeThree : Frame blTestFunc.packetSize :=
  {
    kind := .command
    payload := [WRITE_MEMORY, 0, 0, 0x02, 0x00, 0x90, 0x00, 0x08, 0x03, 0x00, 0x00, 0x00]
    crcLow := 0x74
    crcHigh := 0x74
    nonempty := by decide
    fits := by decide
  }

theorem writeThree_names
    : writeThree.Names WRITE_MEMORY { flashStartAddr := 0x08009000, flashByteCount := 3 } :=
  ⟨⟨rfl, by decide +kernel, rfl⟩, rfl⟩

/-- A data frame of two bytes. -/
def dataTwo : Frame blTestFunc.packetSize :=
  {
    kind := .data
    payload := [0x33, 0x44]
    crcLow := 0x4B
    crcHigh := 0x4A
    nonempty := by decide
    fits := by decide
  }

/-- A data frame of three bytes. -/
def dataThree : Frame blTestFunc.packetSize :=
  {
    kind := .data
    payload := [0x11, 0x22, 0x33]
    crcLow := 0xC5
    crcHigh := 0x47
    nonempty := by decide
    fits := by decide
  }

/-- The board of main.c, from power-on, with a data frame of two bytes. -/
theorem image_handedOver_dataTwo
    : (∃ t calls,
        run (analysisPacket blTestFunc) (.powerOn .zero)
            (writeThree.bytes ++ [dataTwo].flatMap Frame.bytes)
          = .ok (t, calls)
        ∧ HandsOver (written calls) 0x08009000 ([dataTwo].map Frame.payload))
      ↔ [dataTwo] = []
        ∨ ((0 : UInt32) &&& ~~~ 0x08009000 = 0
          ∧ (∀ frame ∈ [dataTwo], frame.payload.length % 2 = 0)
          ∧ 0x08009000 + ([dataTwo].dropLast.flatMap Frame.payload).length < 2 ^ 32) :=
  image_handedOver_iff blTestFunc (by decide) (.powerOn .zero) ⟨rfl, rfl⟩ writeThree _
    writeThree_names (by decide) [dataTwo]
    (List.forall_mem_singleton.mpr ⟨rfl, by decide +kernel⟩) (by decide)

/-- There a data frame of three bytes loses its last byte. -/
theorem image_truncated_dataThree
    : ¬ ∃ t calls,
        run (analysisPacket blTestFunc) (.powerOn .zero)
            (writeThree.bytes ++ [dataThree].flatMap Frame.bytes)
          = .ok (t, calls)
        ∧ HandsOver (written calls) 0x08009000 ([dataThree].map Frame.payload) := by
  intro handsOver
  obtain ⟨t, calls, fed, bytes, _⟩ := handsOver
  obtain ⟨t', calls', fed', writes⟩ :=
    run_session blTestFunc (by decide) (.powerOn .zero) ⟨rfl, rfl⟩ writeThree_names [dataThree]
      (List.forall_mem_singleton.mpr ⟨rfl, by decide +kernel⟩) (by decide)
  rw [fed] at fed'
  obtain ⟨rfl, rfl⟩ := Prod.mk.inj (Except.ok.inj fed')
  rw [writes] at bytes
  exact absurd bytes (by decide)

end At32.Bootloader
