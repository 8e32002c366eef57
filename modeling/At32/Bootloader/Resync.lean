import At32.Bootloader.Accepted

/-! Which frames the parser takes behind bytes that are none: a frame that begins while it
waits for a start byte, and not one that begins behind a start byte.
-/

namespace At32.Bootloader

open LittleEndian Transducer

-----------------------------------------------------------------------------------------
-- How many bytes lead to a dispatch
-----------------------------------------------------------------------------------------

/-- The bytes of a frame in front of what is waited for; behind them the payload is counted.
-/
def Status.taken : Status → Nat
  | .start => 0
  | .cmd => 1
  | .lenLow => 2
  | .lenHigh => 3
  | .crcLow => 4
  | .crcHigh => 5
  | .data => 2

/-- What the parser can have taken in so many bytes since it waited for a start byte. -/
structure State.Since (s : State) (bytes : Nat) : Prop where
  outside : s.blVariate.status ≠ .data → s.blVariate.count = 0
  header : s.blVariate.status.taken ≤ bytes
  declared
    : s.blVariate.status = .crcLow ∨ s.blVariate.status = .crcHigh
      → s.blVariate.length = s.fp.length
  payload
    : s.blVariate.status = .data
      → ∀ kind : FrameKind,
          s.fp.packetType = kind.packetType
          → s.blVariate.length = s.fp.length ∧ 6 + s.blVariate.count.toNat ≤ bytes

/-- While the parser waits for a start byte, nothing is taken. -/
theorem State.since_start {s : State} (status : s.blVariate.status = .start)
    (count : s.blVariate.count = 0) (bytes : Nat)
    : s.Since bytes where
  outside _ := count
  header := by rw [status]; exact Nat.zero_le _
  declared waits := by rw [status] at waits; rcases waits with low | high <;> contradiction
  payload data := by rw [status] at data; cases data

/-- The byte after the start byte leaves the parser waiting for one of four things, a payload
only behind a ping response.
-/
theorem analysisCmd_status (s : State) (data : UInt8) (waiting : s.blVariate.status = .cmd)
    : (analysisCmd s data).1.blVariate.count = s.blVariate.count
      ∧ ((analysisCmd s data).1.blVariate.status = .start
        ∨ (analysisCmd s data).1.blVariate.status = .cmd
        ∨ (analysisCmd s data).1.blVariate.status = .lenLow
        ∨ (analysisCmd s data).1.blVariate.status = .data
          ∧ (analysisCmd s data).1.fp.packetType = FramingPacketType.pingResponse) := by
  unfold analysisCmd
  split <;> simp [State.setStatus, waiting]

/-- The byte after the start byte. -/
theorem State.Since.cmd {s : State} {bytes : Nat} (since : s.Since bytes)
    (status : s.blVariate.status = .cmd) (data : UInt8)
    : (analysisCmd s data).1.Since (bytes + 1) := by
  have header := since.header
  have count := since.outside (by simp [status])
  obtain ⟨same, after⟩ := analysisCmd_status s data status
  rw [status] at header
  rcases after with start | cmd | lenLow | ⟨opened, type⟩
  · exact since_start start (same.trans count) _
  · refine ⟨fun _ => same.trans count, ?_, by simp [cmd], by simp [cmd]⟩
    rw [cmd]
    exact Nat.le_succ_of_le header
  · refine ⟨fun _ => same.trans count, ?_, by simp [lenLow], by simp [lenLow]⟩
    rw [lenLow]
    exact Nat.succ_le_succ header
  · refine ⟨fun _ => same.trans count, ?_, by simp [opened], fun _ kind same => ?_⟩
    · rw [opened]
      exact Nat.succ_le_succ header
    · rw [type] at same
      cases kind <;> exact absurd same (by decide)

/-- The second length byte. -/
theorem State.Since.lenHigh {s : State} {bytes : Nat} (since : s.Since bytes)
    (status : s.blVariate.status = .lenHigh) (ops : BlTestFuncOps) (data : UInt8)
    : (analysisLenHigh ops s data).Since (bytes + 1) := by
  have header := since.header
  have count := since.outside (by simp [status])
  rw [status] at header
  refine ⟨fun _ => count, ?_, fun _ => ?_, fun opened => ?_⟩
  · simp only [analysisLenHigh]
    split
    · exact Nat.succ_le_succ header
    · exact Nat.zero_le _
  · simp only [analysisLenHigh, mask_low]
    rfl
  · simp only [analysisLenHigh] at opened
    split at opened <;> cases opened

/-- A payload byte. -/
theorem State.Since.data {ops : BlTestFuncOps} {s t : State} {bytes : Nat} {data : UInt8}
    {calls : List Call} (since : s.Since bytes) (status : s.blVariate.status = .data)
    (taken : analysisData ops s data = .ok (t, calls))
    : t.Since (bytes + 1) := by
  have header := since.header
  rw [status] at header
  simp only [analysisData] at taken
  split at taken
  · rename_i index
    split at taken
    · have same := checkCrc_sameParser taken
      simp only [parser, Prod.mk.injEq] at same
      exact since_start same.2.2.1 same.1 _
    · obtain ⟨rfl, _⟩ := Prod.mk.inj (Except.ok.inj taken)
      refine ⟨by simp [status], ?_, by simp [status], fun _ kind type => ?_⟩
      · rw [status]
        exact Nat.le_succ_of_le header
      · obtain ⟨declared, counted⟩ := since.payload status kind type
        refine ⟨declared, ?_⟩
        simp only [State.count_next index]
        omega
  · cases taken

/-- One more byte, by cases on the status. -/
theorem State.Since.step {ops : BlTestFuncOps} {s t : State} {bytes : Nat} {data : UInt8}
    {calls : List Call} (since : s.Since bytes)
    (taken : analysisPacket ops s data = .ok (t, calls))
    : t.Since (bytes + 1) := by
  have header := since.header
  cases status : s.blVariate.status with
  | start =>
      have count := since.outside (by simp [status])
      simp only [analysisPacket, status] at taken
      split at taken
      · obtain ⟨rfl, _⟩ := Prod.mk.inj (Except.ok.inj taken)
        exact ⟨fun _ => count, Nat.le_add_left _ _, by simp, by simp⟩
      · obtain ⟨rfl, _⟩ := Prod.mk.inj (Except.ok.inj taken)
        exact since_start status count _
  | cmd =>
      simp only [analysisPacket, status, Except.ok.injEq] at taken
      obtain ⟨rfl, _⟩ := Prod.mk.inj taken
      exact since.cmd status data
  | lenLow =>
      have count := since.outside (by simp [status])
      simp only [analysisPacket, status] at taken
      obtain ⟨rfl, _⟩ := Prod.mk.inj (Except.ok.inj taken)
      rw [status] at header
      exact ⟨fun _ => count, Nat.succ_le_succ header, by simp [setStatus], by simp [setStatus]⟩
  | lenHigh =>
      simp only [analysisPacket, status] at taken
      obtain ⟨rfl, _⟩ := Prod.mk.inj (Except.ok.inj taken)
      exact since.lenHigh status ops data
  | crcLow =>
      have count := since.outside (by simp [status])
      have declared := since.declared (Or.inl status)
      simp only [analysisPacket, status] at taken
      obtain ⟨rfl, _⟩ := Prod.mk.inj (Except.ok.inj taken)
      rw [status] at header
      exact ⟨fun _ => count, Nat.succ_le_succ header, fun _ => declared, by simp [setStatus]⟩
  | crcHigh =>
      have count := since.outside (by simp [status])
      have declared := since.declared (Or.inr status)
      simp only [analysisPacket, status] at taken
      obtain ⟨rfl, _⟩ := Prod.mk.inj (Except.ok.inj taken)
      rw [status] at header
      refine ⟨by simp [setStatus], Nat.le_trans (Nat.le_add_left 2 4) (Nat.succ_le_succ header),
        by simp [setStatus], fun _ _ _ => ⟨declared, ?_⟩⟩
      change 6 + s.blVariate.count.toNat ≤ bytes + 1
      rw [count]
      exact Nat.succ_le_succ header
  | data =>
      simp only [analysisPacket, status] at taken
      exact since.data status taken

/-- A dispatch has taken the bytes of its payload and six more. -/
theorem State.Since.dispatched {ops : BlTestFuncOps} {s t : State} {bytes : Nat} {data : UInt8}
    {calls : List Call} (since : s.Since bytes)
    (taken : analysisPacket ops s data = .ok (t, calls))
    : ∀ part ∈ calls.filterMap Call.dispatched?, part.2.length + 6 ≤ bytes + 1 := by
  rcases analysisPacket_cases taken with ⟨kind, accepts, _, rfl⟩ | ⟨_, prints | rfl⟩
  · have quiet := (quiet_calls fun call member =>
      (handle_fromHandler ops (s.completed data) kind call member).quiet).1
    obtain ⟨declared, counted⟩ := since.payload accepts.status kind accepts.type
    have next := State.count_next accepts.index
    rw [accepts.last, declared] at next
    rw [List.filterMap_cons_some (dispatched?_dispatch _ _), quiet]
    refine List.forall_mem_singleton.mpr ?_
    have taken : (s.completed data).fp.payload.length ≤ s.fp.length.toNat :=
      List.length_take_le _ _
    change (s.completed data).fp.payload.length + 6 ≤ _
    omega
  · rw [(quiet_calls fun call member => Call.quiet_of_isPrint (prints call member)).1]
    exact fun _ member => (List.not_mem_nil member).elim
  · exact fun _ member => (List.not_mem_nil member).elim

/-- So have all dispatches of a run, by induction on its bytes. -/
theorem State.Since.run_dispatched {ops : BlTestFuncOps} {s t : State} {bytes : Nat}
    {received : List UInt8} {calls : List Call} (since : s.Since bytes)
    (ran : run (analysisPacket ops) s received = .ok (t, calls))
    : ∀ part ∈ calls.filterMap Call.dispatched?,
        part.2.length + 6 ≤ bytes + received.length := by
  induction received generalizing s bytes calls with
  | nil =>
      obtain ⟨_, rfl⟩ := Prod.mk.inj (Except.ok.inj ran)
      exact fun _ member => (List.not_mem_nil member).elim
  | cons data rest ih =>
      obtain ⟨next, first, later, taken, tail, rfl⟩ := run_cons_iff.mp ran
      intro part member
      rw [List.filterMap_append] at member
      rw [List.length_cons]
      rcases List.mem_append.mp member with early | late
      · have here := since.dispatched taken part early
        omega
      · have there := ih (since.step taken) tail part late
        omega

-----------------------------------------------------------------------------------------
-- A frame behind other bytes
-----------------------------------------------------------------------------------------

/-- In every run nothing is counted while the parser waits for a start byte. -/
theorem idle_of_run {ops : BlTestFuncOps} {fp : FramingPacket} {received : List UInt8}
    {s : State} {calls : List Call}
    (ran : run (analysisPacket ops) (.powerOn fp) received = .ok (s, calls))
    (status : s.blVariate.status ≠ .data)
    : s.blVariate.count = 0 := by
  have start : (State.powerOn fp).Since ([] : List UInt8).length := State.since_start rfl rfl _
  have since : s.Since ([] ++ received).length :=
    @run_history _ _ _ _ _ (fun received s => s.Since received.length)
      (fun received s data t calls since taken => by
        rw [List.length_append]
        exact since.step taken)
      _ _ _ _ _ start ran
  exact since.outside status

/-- A start byte that comes behind a start byte is dropped. -/
theorem run_secondStart (ops : BlTestFuncOps) {s : State} (waiting : s.blVariate.status = .cmd)
    (rest : List UInt8)
    : run (analysisPacket ops) s (FramingPacketType.startByte :: rest)
      = run (analysisPacket ops) (s.setStatus .start) rest := by
  apply run_cons_silent
  simp only [analysisPacket, waiting]
  rfl

/-- A valid frame behind any bytes that leave the parser waiting for a start byte or for the
byte after it is dispatched, once and with its payload, exactly in the first case.
-/
theorem frame_resynced_iff (ops : BlTestFuncOps) (room : ops.packetSize.toNat ≤ LENGTH)
    (fp : FramingPacket) {received : List UInt8} {s : State} {calls : List Call}
    (ran : run (analysisPacket ops) (.powerOn fp) received = .ok (s, calls))
    (waiting : s.blVariate.status = .start ∨ s.blVariate.status = .cmd)
    (frame : Frame ops.packetSize) (valid : frame.Valid)
    : (∃ t answer,
          run (analysisPacket ops) s frame.bytes = .ok (t, answer)
          ∧ answer.filterMap Call.dispatched? = [(frame.kind, frame.payload)])
      ↔ s.blVariate.status = .start := by
  have count : s.blVariate.count = 0 :=
    idle_of_run ran (by rcases waiting with start | cmd <;> simp [*])
  constructor
  · rintro ⟨t, answer, fed, dispatched⟩
    refine waiting.resolve_right fun cmd => ?_
    -- behind the start byte that is dropped the frame is one byte too short
    rw [Frame.bytes, Frame.header, List.cons_append, List.cons_append,
      run_secondStart ops cmd] at fed
    have since : (s.setStatus .start).Since 0 :=
      State.since_start (s := s.setStatus .start) rfl count 0
    have short := since.run_dispatched fed (frame.kind, frame.payload)
      (by rw [dispatched]; exact List.mem_singleton_self _)
    simp only [List.length_append, List.length_cons, List.length_nil] at short
    omega
  · intro start
    refine ⟨_, _, run_frame_valid ops room s ⟨start, count⟩ frame valid, ?_⟩
    have quiet := (quiet_calls fun call member =>
      (handle_fromHandler ops (s.received frame) frame.kind call member).quiet).1
    rw [List.filterMap_cons_some (dispatched?_dispatch _ _), quiet, received_payload room]

/-- A data frame of one byte. -/
def loneData : Frame blTestFunc.packetSize :=
  {
    kind := .data
    payload := [0x55]
    crcLow := 0xCF
    crcHigh := 0x38
    nonempty := by decide
    fits := by decide
  }

/-- Behind a byte of noise. -/
theorem frame_resynced_noise
    : (∃ t answer,
          run (analysisPacket blTestFunc) (.powerOn .zero) loneData.bytes = .ok (t, answer)
          ∧ answer.filterMap Call.dispatched? = [(loneData.kind, loneData.payload)])
      ↔ (State.powerOn .zero).blVariate.status = .start :=
  frame_resynced_iff blTestFunc (by decide) .zero
    (rfl : run (analysisPacket blTestFunc) (.powerOn .zero) [0x31] = .ok (.powerOn .zero, []))
    (Or.inl rfl) loneData (by decide +kernel)

/-- Behind a lone start byte it is lost. -/
theorem frame_lost_startByte
    : ¬ ∃ t answer,
        run (analysisPacket blTestFunc) (.powerOn .zero) ([0x5A] ++ loneData.bytes)
          = .ok (t, answer)
        ∧ answer.filterMap Call.dispatched? = [(loneData.kind, loneData.payload)] := by
  rintro ⟨t, answer, fed, dispatched⟩
  rw [List.singleton_append, run_startByte blTestFunc (.powerOn .zero) ⟨rfl, rfl⟩, Frame.bytes,
    Frame.header, List.cons_append, List.cons_append, run_secondStart blTestFunc rfl] at fed
  have since := State.since_start (s := (State.powerOn .zero).started.setStatus .start) rfl rfl 0
  have short := since.run_dispatched fed (loneData.kind, loneData.payload)
    (by rw [dispatched]; exact List.mem_singleton_self _)
  exact absurd short (by decide)

end At32.Bootloader
