import At32.Bootloader.MainRun
import At32.Bootloader.Retry

/-! From the download of an application to its start: the session in the main loop, the reset
at its end, and the silent run that follows.
-/

namespace At32.Bootloader

open Flash LittleEndian NorFlash Transducer

variable {board : Board} {c : Controller}

/-- The reset vector of an image, its second word. -/
def Download.entry (d : Download board) : Option UInt32 :=
  match d.image with
  | _ :: _ :: _ :: _ :: b0 :: b1 :: b2 :: b3 :: _ => some (word b0 b1 b2 b3)
  | _ => none

/-- The bytes of a download with a reset command behind it. -/
def Download.session (d : Download board) (reset : Frame board.ops.packetSize) : List UInt8 :=
  (d.parts.flatMap fun part => part.2.bytes) ++ reset.bytes

-----------------------------------------------------------------------------------------
-- The session in the parser
-----------------------------------------------------------------------------------------

/-- All bytes of a frame but the last are taken without a call. -/
theorem run_frame_front (ops : BlTestFuncOps) (room : ops.packetSize.toNat ≤ LENGTH) (s : State)
    (idle : s.Idle) (frame : Frame ops.packetSize)
    : ∃ front last t,
        frame.bytes = front ++ [last] ∧ run (analysisPacket ops) s front = .ok (t, []) := by
  obtain ⟨front, last, payload⟩ :=
    (List.eq_nil_or_concat' frame.payload).resolve_left
      (List.ne_nil_of_length_pos frame.nonempty)
  have length : frame.payload.length = front.length + 1 := by
    rw [payload, List.length_append, List.length_singleton]
  have fits := frame.fits
  have len := frame.len_toNat room
  have stored := run_stored ops
    { s.received frame with fp.data := s.fp.data, blVariate.status := .data } front rfl
    (by
      simp only [State.received, UInt16.toNat_zero]
      omega)
    (by
      simp only [State.received, UInt16.toNat_zero]
      omega)
  refine ⟨frame.header ++ [frame.crcLow, frame.crcHigh] ++ front, last, _, ?_,
    (run_header ops room s idle frame front).trans stored⟩
  rw [Frame.bytes, payload, List.append_assoc _ front]

/-- A reset command is acked and answered, and resets at the end. -/
theorem run_reset (ops : BlTestFuncOps) (room : ops.packetSize.toNat ≤ LENGTH) (s : State)
    (idle : s.Idle) (frame : Frame ops.packetSize) (command : frame.IsCommand RESET_MCU)
    : ∃ t calls,
        run (analysisPacket ops) s frame.bytes = .ok (t, calls)
        ∧ Call.resetMcu ∈ calls
        ∧ calls.filter Call.touchesFlash = [] := by
  have handled : handle ops (s.received frame) frame.kind = resetMcu (s.received frame) := by
    rw [command.kind, handle, analysisCommandTag, received_tag room s command.tagged]
    rfl
  refine ⟨_, _, run_frame_valid ops room s idle frame command.valid, ?_, ?_⟩
  · rw [handled]
    simp [resetMcu]
  · rw [handled, command.kind]
    rfl

/-- A download and the reset behind it, fed to the parser from power-on: all bytes but the last
do not reset, and the last one does.
-/
theorem session_parsed (d : Download board) (reset : Frame board.ops.packetSize)
    (command : reset.IsCommand RESET_MCU) (ready : c.Ready) (page : c.page = board.sector)
    (fp : FramingPacket) (f : Flash.State)
    : (∃ s calls,
        run (analysisPacket board.ops) (.powerOn fp) (d.session reset) = .ok (s, calls)
        ∧ Call.resetMcu ∈ calls
        ∧ d.Installed f.memory (flashAfter c calls f).memory)
      ∧ ∃ front last s calls,
          d.session reset = front ++ [last]
          ∧ run (analysisPacket board.ops) (.powerOn fp) front = .ok (s, calls)
          ∧ Call.resetMcu ∉ calls := by
  have opened := State.powerOn_ready fp d.region
  obtain ⟨s, answers, fed, ⟨idle, _⟩, answered⟩ := download_taken d fp
  have downloaded := run_flatten fed
  rw [← List.flatMap_def] at downloaded
  constructor
  · obtain ⟨t, calls, taken, resets, untouched⟩ :=
      run_reset board.ops board.packetRoom s idle reset command
    refine ⟨t, answers.flatten ++ calls, run_append downloaded taken,
      List.mem_append_right _ resets, ?_⟩
    rw [flashAfter_append, ← flashAfter_filter c calls, untouched, flashAfter, List.foldl_nil,
      d.answers_effects ready page answered d.fits_parts f]
    exact d.effects_installed f.memory
  · obtain ⟨front, last, t, bytes, silent⟩ :=
      run_frame_front board.ops board.packetRoom s idle reset
    have quiet := trace_noReset opened d.part_keepsOpen fed
    refine ⟨(d.parts.flatMap fun part => part.2.bytes) ++ front, last, t, answers.flatten, ?_, ?_,
      quiet⟩
    · rw [Download.session, bytes, List.append_assoc]
    · rw [← List.append_nil answers.flatten]
      exact run_append downloaded silent

-----------------------------------------------------------------------------------------
-- The reset vector in the flash
-----------------------------------------------------------------------------------------

/-- The vector table of an installed application holds the entry of its image. -/
theorem vectorTable_entry (d : Download board) {pc : UInt32} (entry : d.entry = some pc)
    (start : d.region.flashStartAddr = APP_ADDRESS) {before : Memory UInt16} {f : Flash.State}
    (installed : d.Installed before f.memory)
    : vectorTable APP_ADDRESS 1 f = pc := by
  unfold Download.entry at entry
  split at entry
  · rename_i a0 a1 a2 a3 b0 b1 b2 b3 rest image
    obtain rfl := Option.some.inj entry
    have halved : halves d.image
        = half a0 a1 :: half a2 a3 :: half b0 b1 :: half b2 b3 :: halves rest := by
      rw [image]
      rfl
    have third := installed.image 2 (by rw [halved]; exact Nat.lt_of_sub_pos (by simp))
    have fourth := installed.image 3 (by rw [halved]; exact Nat.lt_of_sub_pos (by simp))
    rw [start] at third fourth
    simp only [halved] at third fourth
    have low : flashReadHalfWord (APP_ADDRESS + 4 * 1) f = half b0 b1 := third
    have high : flashReadHalfWord (APP_ADDRESS + 4 * 1 + 2) f = half b2 b3 := fourth
    rw [vectorTable, low, high, word_halves]
  · cases entry

/-- An address at which check_app_pc accepts an application. -/
def BlTestFuncOps.Starts (ops : BlTestFuncOps) (pc : UInt32) : Prop :=
  ops.appAddress ≤ pc ∧ pc ≤ ops.appAddress + 128 * 1024

theorem checkAppPc_iff (ops : BlTestFuncOps) (appaddr : UInt32) (f : Flash.State)
    : checkAppPc ops appaddr f ≠ 0 ↔ ops.Starts (vectorTable appaddr 1 f) := by
  simp only [checkAppPc, BlTestFuncOps.Starts, ← UInt32.not_lt]
  split
  · rename_i outside
    exact iff_of_false (fun zero => zero rfl) fun inside =>
      outside.elim inside.1 inside.2
  · rename_i inside
    exact iff_of_true (by decide) (not_or.mp inside)

-----------------------------------------------------------------------------------------
-- The session in the main loop, and the start behind it
-----------------------------------------------------------------------------------------

/-- Bytes whose last one resets are served by polling for each of them. -/
theorem bytes_served {ops : BlTestFuncOps} {fp : FramingPacket} (f : Flash.State)
    {front : List UInt8} {last : UInt8} {s t : State} {calls early : List Call}
    (parsed : run (analysisPacket ops) (.powerOn fp) (front ++ [last]) = .ok (s, calls))
    (before : run (analysisPacket ops) (.powerOn fp) front = .ok (t, early))
    (quiet : Call.resetMcu ∉ early)
    : ∃ events m actions,
        received events = front ++ [last]
        ∧ run (mainStep ops c) (.powerOn fp f) events = .ok (m, actions) := by
  obtain ⟨v, first, late, again, tail, rfl⟩ := run_append_iff.mp parsed
  rw [before] at again
  obtain ⟨rfl, rfl⟩ := Prod.mk.inj (Except.ok.inj again)
  rw [run_singleton] at tail
  have served := @run_polled ops c (.powerOn fp f) front t early rfl rfl before quiet
  have stepped : ∃ m actions,
      run (mainStep ops c)
          { Mcu.powerOn fp f with bl := t, flash := flashAfter c early f } [.receive last]
        = .ok (m, actions) := by
    rw [run_singleton]
    simp only [mainStep, Mcu.powerOn, if_true, tail]
    exact ⟨_, _, rfl⟩
  obtain ⟨m, actions, stepped⟩ := stepped
  refine ⟨polled front ++ [Event.receive last], m, _, ?_, run_append served stepped⟩
  rw [received, List.flatMap_append]
  exact congrArg (· ++ [last]) (received_polled front)

/-- Every packet of the host begins with a start byte, and so does a session. -/
theorem Download.session_start (d : Download board) (reset : Frame board.ops.packetSize)
    : ∃ tail, d.session reset = FramingPacketType.startByte :: tail := by
  rw [Download.session]
  cases d.parts with
  | nil => exact ⟨_, rfl⟩
  | cons part rest =>
      obtain ⟨_, packet⟩ := part
      cases packet <;> exact ⟨_, rfl⟩

/-- While a session comes in that began in front of the 402nd interrupt, the loop does not jump,
and is left when the last byte has come and not before.
-/
theorem session_uncut (d : Download board) (reset : Frame board.ops.packetSize)
    {fp : FramingPacket} {f : Flash.State} {front : List UInt8} {last : UInt8} {u : State}
    {early : List Call} (bytes : d.session reset = front ++ [last])
    (before : run (analysisPacket board.ops) (.powerOn fp) front = .ok (u, early))
    (stays : Call.resetMcu ∉ early) {quiet rest : List Event} {first : UInt8} {m : Mcu}
    {actions : List Action} (silent : received quiet = []) (inTime : quiet.count .tick ≤ 401)
    (part : received (quiet ++ .receive first :: rest) <+: d.session reset)
    (ran
      : run (mainStep board.ops c) (.powerOn fp f) (quiet ++ .receive first :: rest)
        = .ok (m, actions))
    : (∀ addr, .jumpToImage addr ∉ actions)
      ∧ (m.phase = .left → received (quiet ++ .receive first :: rest) = d.session reset) := by
  have begun : first = FramingPacketType.startByte := by
    obtain ⟨tail, starts⟩ := d.session_start reset
    have shown : received (quiet ++ .receive first :: rest) = first :: received rest := by
      rw [received, List.flatMap_append]
      exact congrArg (· ++ first :: received rest) silent
    rw [shown, starts] at part
    exact (List.cons_prefix_cons.mp part).1
  rw [begun] at ran part ⊢
  have noJump := earlyRun_noJump silent inTime ran
  refine ⟨noJump, fun left => ?_⟩
  rw [bytes] at part ⊢
  refine (List.prefix_concat_iff.mp part).resolve_right fun inside => ?_
  -- a run that is left in front of the last byte would have reset there
  obtain ⟨behind, split⟩ := inside
  rw [← split] at before
  obtain ⟨_, calls, _, head, _, rfl⟩ := run_append_iff.mp before
  obtain ⟨_, same⟩ := Prod.mk.inj (Except.ok.inj ((mainRun_parses ran).1.symm.trans head))
  obtain ⟨action, member, leaves⟩ := (mainRun_leaves (powerOn_inside fp f) ran).mp left
  rcases leaves with rfl | ⟨addr, rfl⟩
  · refine stays (List.mem_append_left _ ?_)
    rw [← same]
    exact List.mem_filterMap.mpr ⟨_, member, rfl⟩
  · exact noJump addr member

/-- A downloaded application is started. The main loop can serve a whole download with a reset
behind it. If the first byte comes in front of the 402nd interrupt, no run that receives a part of
it jumps, whatever interrupts and empty polls fall between the bytes, and the loop is left only
with the last byte. In every run that receives it whole, the loop is left by the reset, has not
jumped, and has installed the image. From the reset on, a run without bytes jumps to the
application at the first test behind the 402nd interrupt if the reset vector of the image is in
range, and does nothing else in any case.
-/
theorem download_boots (d : Download board) (start : d.region.flashStartAddr = APP_ADDRESS)
    (pc : UInt32) (entry : d.entry = some pc) (reset : Frame board.ops.packetSize)
    (command : reset.IsCommand RESET_MCU) (c : Controller) (ready : c.Ready)
    (page : c.page = board.sector) (fp : FramingPacket) (f : Flash.State)
    : (∃ events m actions,
        received events = d.session reset
        ∧ run (mainStep board.ops c) (.powerOn fp f) events = .ok (m, actions))
      ∧ (∀ quiet first rest m actions,
          received quiet = []
          → quiet.count .tick ≤ 401
          → received (quiet ++ .receive first :: rest) <+: d.session reset
          → run (mainStep board.ops c) (.powerOn fp f) (quiet ++ .receive first :: rest)
            = .ok (m, actions)
          → (∀ addr, .jumpToImage addr ∉ actions)
            ∧ (m.phase = .left
              → received (quiet ++ .receive first :: rest) = d.session reset))
      ∧ ∀ events m actions,
          received events = d.session reset
          → run (mainStep board.ops c) (.powerOn fp f) events = .ok (m, actions)
          → m.phase = .left
            ∧ .call .resetMcu ∈ actions
            ∧ (∀ addr, .jumpToImage addr ∉ actions)
            ∧ d.Installed f.memory m.flash.memory
            ∧ ∀ fp' silent t later,
                received silent = []
                → run (mainStep board.ops c) (.powerOn fp' m.flash) silent = .ok (t, later)
                → (board.ops.Starts pc
                    ∧ 401 < silent.count .tick
                    ∧ silent.getLast? = some .test
                    → later = [.jumpToImage APP_ADDRESS])
                  ∧ (¬ (board.ops.Starts pc
                      ∧ 401 < silent.count .tick
                      ∧ silent.getLast? = some .test)
                    → later = []) := by
  obtain ⟨⟨s, calls, parsed, resets, installed⟩, front, last, u, early, bytes, before, quiet⟩ :=
    session_parsed d reset command ready page fp f
  refine ⟨?_, ?_, ?_⟩
  · rw [bytes] at parsed ⊢
    exact bytes_served f parsed before quiet
  · intro silence first rest m actions silent inTime part ran
    exact session_uncut d reset bytes before quiet silent inTime part ran
  · intro events m actions served ran
    obtain ⟨shown, flash⟩ := mainRun_parses ran
    rw [served] at shown
    obtain ⟨_, same⟩ := Prod.mk.inj (Except.ok.inj (shown.symm.trans parsed))
    rw [same] at flash
    have member : .call .resetMcu ∈ actions := by
      rw [← same] at resets
      obtain ⟨action, inside, made⟩ := List.mem_filterMap.mp resets
      cases action with
      | call call =>
          obtain rfl := Option.some.inj made
          exact inside
      | jumpToImage addr => cases made
    have held : d.Installed f.memory m.flash.memory := by
      rw [flash]
      exact installed
    refine ⟨(mainRun_leaves (powerOn_inside fp f) ran).mpr ⟨_, member, Or.inl rfl⟩, member,
      mainRun_noJump ran member, held, fun fp' silent t later nothing restarted => ?_⟩
    obtain ⟨_, booted, stayed⟩ := silentRun nothing restarted
    rw [Boots, checkAppPc_iff, vectorTable_entry d entry start held] at booted stayed
    exact ⟨fun boots => (booted boots).2, fun stays => (stayed stays).2⟩

/-- The first two words of an application: its stack and a reset vector behind its start. -/
def vectorsDownload : Download at32Board :=
  {
    region := { flashStartAddr := APP_ADDRESS, flashByteCount := 8 }
    image := [0x00, 0x20, 0x00, 0x20, 0x01, 0x81, 0x00, 0x08]
    aligned := by decide
    aboveApp := by decide
    inFlash := by decide
    positive := by decide
    even := by decide
    length := by decide
    erases :=
      [
        {
          interludes := []
          frame :=
            {
              kind := .command
              payload := [FLASH_ERASE_REGION, 0, 0, 2, 0x00, 0x80, 0x00, 0x08, 8, 0, 0, 0]
              crcLow := 46
              crcHigh := 86
              nonempty := by decide
              fits := by decide
            }
          accepts := ⟨⟨rfl, by decide +kernel, rfl⟩, by decide +kernel⟩
        }
      ]
    erased := List.cons_ne_nil _ _
    write :=
      {
        interludes := []
        frame :=
          {
            kind := .command
            payload := [WRITE_MEMORY, 0, 0, 2, 0x00, 0x80, 0x00, 0x08, 8, 0, 0, 0]
            crcLow := 16
            crcHigh := 93
            nonempty := by decide
            fits := by decide
          }
        accepts := ⟨⟨rfl, by decide +kernel, rfl⟩, by decide +kernel⟩
      }
    transfers :=
      [
        {
          interludes := []
          frame :=
            {
              kind := .data
              payload := [0x00, 0x20, 0x00, 0x20, 0x01, 0x81, 0x00, 0x08]
              crcLow := 83
              crcHigh := 138
              nonempty := by decide
              fits := by decide
            }
          accepts := ⟨rfl, by decide +kernel, rfl⟩
        }
      ]
    chunks := rfl
    closing := []
  }

def resetFrame : Frame at32Board.ops.packetSize :=
  {
    kind := .command
    payload := [RESET_MCU, 0, 0, 0]
    crcLow := 111
    crcHigh := 70
    nonempty := by decide
    fits := by decide
  }

/-- The application with these vectors is served, and left with its image installed. -/
theorem download_boots_vectors
    : ∃ events m actions,
        received events = vectorsDownload.session resetFrame
        ∧ run (mainStep blTestFunc ⟨2048, fun _ => 0⟩)
            (.powerOn .zero ⟨⟨fun _ => 0, []⟩, 0⟩) events
          = .ok (m, actions)
        ∧ m.phase = .left
        ∧ vectorsDownload.Installed ⟨fun _ => 0, []⟩ m.flash.memory := by
  obtain ⟨⟨events, m, actions, served, ran⟩, _, every⟩ :=
    download_boots vectorsDownload rfl 0x08008101 rfl resetFrame
      ⟨rfl, by decide +kernel, rfl⟩ ⟨2048, fun _ => 0⟩
      (Controller.ready_of_idle _ fun _ => rfl) rfl .zero ⟨⟨fun _ => 0, []⟩, 0⟩
  obtain ⟨left, _, _, installed, _⟩ := every events m actions served ran
  exact ⟨events, m, actions, served, ran, left, installed⟩

end At32.Bootloader
