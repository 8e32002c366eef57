import At32.Bootloader.Framing

/-! Bounds of the packet buffer: which byte streams keep every payload store inside it. -/

namespace At32.Bootloader

open Transducer

/-- While payload bytes are expected, the count is below a length that the buffer holds. -/
def State.BufferSafe (s : State) : Prop :=
  s.blVariate.status = .data
  → s.blVariate.count < s.blVariate.length ∧ s.blVariate.length.toNat ≤ LENGTH

/-- The byte does not open the payload on a length that is zero or exceeds the buffer:
neither after the check bytes of a header nor by a ping response packet, whose two length
bytes are skipped.
-/
def State.OpensInRoom (s : State) (data : UInt8) : Prop :=
  (s.blVariate.status = .crcHigh → s.blVariate.length ≠ 0)
  ∧ (s.blVariate.status = .cmd
    → data = FramingPacketType.pingResponse
    → s.blVariate.length ≠ 0 ∧ s.blVariate.length.toNat ≤ LENGTH)

instance (s : State) (data : UInt8) : Decidable (s.OpensInRoom data) :=
  inferInstanceAs (Decidable (_ ∧ _))

/-- Nothing is counted outside a payload, and check bytes are expected only for a length
that was accepted.
-/
structure State.Counted (s : State) : Prop where
  outside : s.blVariate.status ≠ .data → s.blVariate.count = 0
  accepted
    : s.blVariate.status = .crcLow ∨ s.blVariate.status = .crcHigh
      → s.blVariate.length.toNat ≤ LENGTH

theorem State.counted_powerOn (fp : FramingPacket) : (State.powerOn fp).Counted :=
  ⟨fun _ => rfl, by simp [State.powerOn]⟩

/-- A check within the buffer returns, with the parser's variables untouched. -/
theorem checkCrc_returns (ops : BlTestFuncOps) (s : State) (len : UInt16)
    (room : len.toNat ≤ LENGTH)
    : ∃ t calls, checkCrc ops s len = .ok (t, calls) ∧ t.parser = s.parser := by
  simp only [checkCrc, room, if_true]
  split
  · split
    · exact ⟨_, _, rfl, analysisCommandTag_sameParser ops s⟩
    · exact ⟨_, _, rfl, recvData_sameParser ops s⟩
    · exact ⟨_, _, rfl, rfl⟩
  · exact ⟨_, _, rfl, rfl⟩

/-- The byte after the start byte moves the status only, and to the payload only for a ping
response.
-/
theorem analysisCmd_variables (s : State) (data : UInt8) (waiting : s.blVariate.status = .cmd)
    : (analysisCmd s data).1.blVariate.count = s.blVariate.count
      ∧ (analysisCmd s data).1.blVariate.length = s.blVariate.length
      ∧ (analysisCmd s data).1.blVariate.status ≠ .crcLow
      ∧ (analysisCmd s data).1.blVariate.status ≠ .crcHigh
      ∧ ((analysisCmd s data).1.blVariate.status = .data
        ↔ data = FramingPacketType.pingResponse) := by
  unfold analysisCmd
  split <;> simp_all [State.setStatus] <;> decide

/-- A payload byte below a length that the buffer holds is stored, and either the packet is
checked or the count stays below the length.
-/
theorem analysisData_returns (ops : BlTestFuncOps) (s : State) (data : UInt8)
    (count : s.blVariate.count < s.blVariate.length)
    (room : s.blVariate.length.toNat ≤ LENGTH)
    : ∃ t calls,
        analysisData ops s data = .ok (t, calls)
        ∧ ((t.blVariate.status = .start ∧ t.blVariate.count = 0)
          ∨ (t.blVariate.status = s.blVariate.status
            ∧ t.blVariate.length = s.blVariate.length
            ∧ t.blVariate.count < t.blVariate.length)) := by
  have below := UInt16.lt_iff_toNat_lt.mp count
  have index : s.blVariate.count.toNat < LENGTH := Nat.lt_of_lt_of_le below room
  have next := State.count_next index
  simp only [analysisData, index, if_true]
  split
  · obtain ⟨t, calls, checked, same⟩ :=
      checkCrc_returns ops
        { s with
          fp.data := s.fp.data.setIfInBounds s.blVariate.count.toNat data
          blVariate.status := .start
          blVariate.count := 0 }
        s.blVariate.length room
    simp only [State.parser, Prod.mk.injEq] at same
    exact ⟨t, calls, checked, Or.inl ⟨same.2.2.1, same.1⟩⟩
  · rename_i more
    refine ⟨_, _, rfl, Or.inr ⟨rfl, rfl, ?_⟩⟩
    rw [← UInt16.toNat_inj, next] at more
    rw [UInt16.lt_iff_toNat_lt, next]
    exact Nat.lt_of_le_of_ne (Nat.succ_le_of_lt below) more

/-- One byte is taken and keeps the buffer safe exactly when it opens no payload without
room, by cases on the status.
-/
theorem opensInRoom_iff (ops : BlTestFuncOps) (s : State) (data : UInt8) (counted : s.Counted)
    (safe : s.BufferSafe)
    : s.OpensInRoom data
      ↔ ∃ t calls, analysisPacket ops s data = .ok (t, calls) ∧ t.BufferSafe := by
  unfold analysisPacket
  cases status : s.blVariate.status with
  | start =>
      simp only
      split <;> simp_all [State.OpensInRoom, State.BufferSafe]
  | cmd =>
      have count : s.blVariate.count = 0 := counted.outside (by simp [status])
      obtain ⟨count', length', _, _, opens⟩ := analysisCmd_variables s data status
      cases taken : analysisCmd s data with
      | mk t calls =>
          rw [taken] at count' length' opens
          simp only [State.OpensInRoom, status, State.BufferSafe, Except.ok.injEq,
            Prod.mk.injEq, reduceCtorEq, false_implies, true_and, true_implies]
          constructor
          · intro room
            refine ⟨t, calls, ⟨rfl, rfl⟩, fun data => ?_⟩
            rw [count', length', count]
            obtain ⟨nonzero, fits⟩ := room (opens.mp data)
            exact ⟨UInt16.pos_iff_ne_zero.mpr nonzero, fits⟩
          · rintro ⟨_, _, ⟨rfl, rfl⟩, safe⟩ response
            have opened := safe (opens.mpr response)
            rw [count', length', count] at opened
            exact ⟨UInt16.pos_iff_ne_zero.mp opened.1, opened.2⟩
  | lenLow =>
      simp [State.OpensInRoom, State.BufferSafe, State.setStatus, status]
  | lenHigh =>
      simp only [analysisLenHigh]
      split <;> simp [State.OpensInRoom, State.BufferSafe, status]
  | crcLow =>
      simp [State.OpensInRoom, State.BufferSafe, State.setStatus, status]
  | crcHigh =>
      have count : s.blVariate.count = 0 := counted.outside (by simp [status])
      have fits := counted.accepted (Or.inr status)
      simp [State.OpensInRoom, State.BufferSafe, State.setStatus, status, count, fits,
        UInt16.pos_iff_ne_zero]
  | data =>
      obtain ⟨below, fits⟩ := safe status
      obtain ⟨t, calls, taken, outcome⟩ := analysisData_returns ops s data below fits
      refine ⟨fun _ => ⟨t, calls, taken, fun data => ?_⟩, fun _ => ?_⟩
      · rcases outcome with ⟨start, _⟩ | ⟨_, length, count⟩
        · rw [start] at data
          cases data
        · rw [length] at count ⊢
          exact ⟨count, fits⟩
      · simp [State.OpensInRoom, status]

/-- Each byte keeps the count at zero outside a payload and accepts no length above the
buffer, by cases on the status.
-/
theorem State.Counted.step {ops : BlTestFuncOps} (room : ops.packetSize.toNat ≤ LENGTH)
    {s t : State} {data : UInt8} {calls : List Call} (counted : s.Counted)
    (safe : s.BufferSafe) (taken : analysisPacket ops s data = .ok (t, calls))
    : t.Counted := by
  unfold analysisPacket at taken
  cases status : s.blVariate.status with
  | start =>
      have count := counted.outside (by simp [status])
      simp only [status] at taken
      split at taken
      all_goals
        simp only [Except.ok.injEq, Prod.mk.injEq] at taken
        obtain ⟨rfl, _⟩ := taken
        exact ⟨fun _ => count, by simp [status]⟩
  | cmd =>
      have count := counted.outside (by simp [status])
      obtain ⟨count', _, crcLow, crcHigh, _⟩ := analysisCmd_variables s data status
      simp only [status, Except.ok.injEq] at taken
      rw [taken] at count' crcLow crcHigh
      exact ⟨fun _ => count'.trans count, fun accepted => by simp_all⟩
  | lenLow =>
      have count := counted.outside (by simp [status])
      simp only [status, Except.ok.injEq, Prod.mk.injEq] at taken
      obtain ⟨rfl, _⟩ := taken
      exact ⟨fun _ => count, by simp [State.setStatus]⟩
  | lenHigh =>
      have count := counted.outside (by simp [status])
      simp only [status, analysisLenHigh, Except.ok.injEq, Prod.mk.injEq] at taken
      obtain ⟨rfl, _⟩ := taken
      refine ⟨fun _ => count, fun accepted => ?_⟩
      simp only at accepted ⊢
      split at accepted
      · rename_i within
        rw [UInt32.le_iff_toNat_le, UInt16.toNat_toUInt32] at within
        exact Nat.le_trans within room
      · simp at accepted
  | crcLow =>
      have count := counted.outside (by simp [status])
      have fits := counted.accepted (Or.inl status)
      simp only [status, Except.ok.injEq, Prod.mk.injEq] at taken
      obtain ⟨rfl, _⟩ := taken
      exact ⟨fun _ => count, fun _ => fits⟩
  | crcHigh =>
      simp only [status, Except.ok.injEq, Prod.mk.injEq] at taken
      obtain ⟨rfl, _⟩ := taken
      exact ⟨by simp [State.setStatus], by simp [State.setStatus]⟩
  | data =>
      obtain ⟨below, fits⟩ := safe status
      obtain ⟨_, _, returned, outcome⟩ := analysisData_returns ops s data below fits
      simp only [status] at taken
      rw [returned] at taken
      simp only [Except.ok.injEq, Prod.mk.injEq] at taken
      obtain ⟨rfl, _⟩ := taken
      rcases outcome with ⟨start, zero⟩ | ⟨same, _, _⟩
      · exact ⟨fun _ => zero, by simp [start]⟩
      · rw [status] at same
        exact ⟨by simp [same], by simp [same]⟩

/-- The buffer is safe throughout a byte stream exactly when no byte of the stream opens a
payload without room: then every store and every check stays inside the buffer.
-/
theorem packetBuffer_safe_iff (ops : BlTestFuncOps) (room : ops.packetSize.toNat ≤ LENGTH)
    (fp : FramingPacket) (bytes : List UInt8)
    : (∀ received rest,
        bytes = received ++ rest
        → ∃ s calls,
            run (analysisPacket ops) (.powerOn fp) received = .ok (s, calls) ∧ s.BufferSafe)
      ↔ StepsMeet (analysisPacket ops) State.OpensInRoom (.powerOn fp) bytes := by
  rw [← always_iff_prefixes]
  apply always_iff_stepsMeet
  · exact fun s data counted safe => opensInRoom_iff ops s data counted safe
  · exact fun s data t calls counted safe taken => counted.step room safe taken
  · exact State.counted_powerOn fp
  · simp [State.BufferSafe, State.powerOn]

/-- The board of main.c is safe while it is fed a whole data frame. -/
theorem packetBuffer_safe_frame
    : StepsMeet (analysisPacket blTestFunc) State.OpensInRoom (.powerOn .zero)
          [0x5A, 0xA5, 0x01, 0x00, 0xCF, 0x38, 0x55]
      ∧ ∀ received rest,
        [0x5A, 0xA5, 0x01, 0x00, 0xCF, 0x38, 0x55] = received ++ rest
        → ∃ s calls,
            run (analysisPacket blTestFunc) (.powerOn .zero) received = .ok (s, calls)
            ∧ s.BufferSafe := by
  have opens
      : StepsMeet (analysisPacket blTestFunc) State.OpensInRoom (.powerOn .zero)
          [0x5A, 0xA5, 0x01, 0x00, 0xCF, 0x38, 0x55] := by
    decide +kernel
  exact ⟨opens, (packetBuffer_safe_iff blTestFunc (by decide) .zero _).mpr opens⟩

-----------------------------------------------------------------------------------------
-- How a payload without room overflows the buffer
-----------------------------------------------------------------------------------------

/-- A payload opened without room takes every byte up to the end of the buffer and stores
the next one behind it.
-/
theorem run_overflow (ops : BlTestFuncOps) (s : State) (bytes : List UInt8)
    (status : s.blVariate.status = .data)
    (noRoom : s.blVariate.length = 0 ∨ LENGTH < s.blVariate.length.toNat)
    (full : s.blVariate.count.toNat + bytes.length = LENGTH + 1) (within : bytes ≠ [])
    : run (analysisPacket ops) s bytes = .error (.dataStore LENGTH) := by
  obtain ⟨front, last, rfl⟩ := (List.eq_nil_or_concat' bytes).resolve_left within
  rw [List.length_append, List.length_singleton] at full
  have capacity : LENGTH = 256 := rfl
  have filled : (s.blVariate.count + UInt16.ofNat front.length).toNat = LENGTH := by
    rw [UInt16.toNat_add, UInt16.toNat_ofNat']
    omega
  have unfinished : s.blVariate.length.toNat ≤ s.blVariate.count.toNat
      ∨ s.blVariate.count.toNat + front.length < s.blVariate.length.toNat := by
    rcases noRoom with zero | long
    · rw [zero, UInt16.toNat_zero]
      exact Or.inl (Nat.zero_le _)
    · exact Or.inr (by omega)
  rw [run_append_silent (run_stored ops s front status (by omega) unfinished), run_singleton]
  simp [analysisPacket, status, analysisData, filled]

/-- A ping response packet from power-on opens a payload of length zero; with 257 bytes
behind it the last one is stored past the buffer.
-/
theorem packetBuffer_overflow_pingResponse
    : ¬ ∀ received rest,
        0x5A :: 0xA7 :: List.replicate 257 0 = received ++ rest
        → ∃ s calls,
            run (analysisPacket blTestFunc) (.powerOn .zero) received = .ok (s, calls)
            ∧ s.BufferSafe := by
  intro safe
  obtain ⟨s, calls, fed, _⟩ := safe _ [] (List.append_nil _).symm
  rw [run_cons_silent rfl, run_cons_silent rfl, run_overflow] at fed
  · cases fed
  · rfl
  · exact Or.inl rfl
  · rw [List.length_replicate]
    rfl
  · exact List.cons_ne_nil _ _

end At32.Bootloader
