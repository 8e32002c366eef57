import At32.Bootloader.Protection

/-! The byte that completes an accepted packet, in the runs of the parser. -/

namespace At32.Bootloader

open LittleEndian Transducer

variable {packetSize : UInt32}

/-- A byte that completes no accepted packet changes no parameter and no pointer, by cases on
the status.
-/
theorem unaccepted_session {ops : BlTestFuncOps} {s t : State} {data : UInt8}
    {calls : List Call} (unaccepted : ∀ kind, ¬ s.Accepts data kind)
    (taken : analysisPacket ops s data = .ok (t, calls))
    : t.appProgram = s.appProgram
      ∧ t.blVariate.writeMemoryStart = s.blVariate.writeMemoryStart := by
  cases status : s.blVariate.status with
  | start =>
      simp only [analysisPacket, status] at taken
      split at taken
      all_goals
        obtain ⟨rfl, _⟩ := Prod.mk.inj (Except.ok.inj taken)
        exact ⟨rfl, rfl⟩
  | cmd =>
      simp only [analysisPacket, status, Except.ok.injEq] at taken
      have kept : (analysisCmd s data).1.appProgram = s.appProgram
          ∧ (analysisCmd s data).1.blVariate.writeMemoryStart
            = s.blVariate.writeMemoryStart := by
        unfold analysisCmd
        split <;> exact ⟨rfl, rfl⟩
      rwa [taken] at kept
  | lenLow | lenHigh | crcLow | crcHigh =>
      simp only [analysisPacket, status, Except.ok.injEq, Prod.mk.injEq] at taken
      obtain ⟨rfl, _⟩ := taken
      exact ⟨rfl, rfl⟩
  | data =>
      simp only [analysisPacket, status, analysisData] at taken
      split at taken
      · rename_i index
        split at taken
        · rename_i last
          rcases checkCrc_cases taken with ⟨kind, matched, type, _, _⟩ | ⟨_, rfl, _⟩
          · exact (unaccepted kind ⟨status, index, last, matched, type⟩).elim
          · exact ⟨rfl, rfl⟩
        · obtain ⟨rfl, _⟩ := Prod.mk.inj (Except.ok.inj taken)
          exact ⟨rfl, rfl⟩
      · cases taken

/-- A valid frame fed to the idle parser is accepted at its last byte, and nothing is called
before.
-/
theorem run_frame_last (ops : BlTestFuncOps) (room : ops.packetSize.toNat ≤ LENGTH)
    (s : State) (idle : s.Idle) (frame : Frame ops.packetSize) (valid : frame.Valid)
    : ∃ front data last,
        frame.bytes = front ++ [data]
        ∧ run (analysisPacket ops) s front = .ok (last, [])
        ∧ last.Accepts data frame.kind
        ∧ last.completed data = s.received frame := by
  have len := frame.len_toNat room
  have fits := frame.fits
  have capacity : LENGTH = 256 := rfl
  obtain ⟨front, data, payload⟩ :=
    (List.eq_nil_or_concat' frame.payload).resolve_left
      (List.ne_nil_of_length_pos frame.nonempty)
  have size : frame.payload.length = front.length + 1 := by
    rw [payload, List.length_append, List.length_singleton]
  have index : (UInt16.ofNat front.length).toNat = front.length := by
    rw [UInt16.toNat_ofNat']
    exact Nat.mod_eq_of_lt (by omega)
  have counted : UInt16.ofNat front.length + 1 = frame.len := by
    rw [Frame.len, size, UInt16.ofNat_add]
    rfl
  have stored :
      (Buffer.store s.fp.data 0 front).setIfInBounds front.length data
        = Buffer.store s.fp.data 0 frame.payload := by
    rw [payload, Buffer.store_append, Nat.zero_add]
    rfl
  -- the state behind all bytes but the last
  let last : State :=
    { s.received frame with
      fp.data := Buffer.store s.fp.data 0 front
      blVariate.status := .data
      blVariate.count := UInt16.ofNat front.length }
  have completed : last.completed data = s.received frame := by
    simp only [State.completed, State.received, index, stored, last]
  have fed : run (analysisPacket ops) s (frame.header ++ [frame.crcLow, frame.crcHigh] ++ front)
      = .ok (last, []) := by
    rw [run_header ops room s idle frame, run_stored]
    · simp only [State.received, UInt16.zero_add, UInt16.toNat_zero, last]
    · rfl
    · simp only [State.received, UInt16.toNat_zero]
      omega
    · simp only [State.received, UInt16.toNat_zero, len]
      omega
  refine ⟨_, data, last, ?_, fed, ⟨rfl, ?_, counted, ?_, rfl⟩, completed⟩
  · rw [Frame.bytes, payload, List.append_assoc _ front]
  · simp only [index, last]
    omega
  · rw [completed]
    exact (received_matches_iff room s frame).mpr valid

end At32.Bootloader
